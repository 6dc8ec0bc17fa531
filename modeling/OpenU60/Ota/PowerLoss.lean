/-
  OpenU60.Ota.PowerLoss — what the router starts when power is lost in the middle of an
  install or a rollback (`ota/mod.rs`, `launch_helper`, `helper_cli`, `recover`,
  `block_version`; `scripts/router/zte-agent-supervisor.sh`).

  A run begins where the checks of an install or rollback have passed and takes the steps
  of the launch, of the helper and of the recovery, each writing one file; power may be
  lost after any of them. `Held` is what every disk on the way has in common: the slots
  are as they were, the active marker names the previous slot, a candidate that passed
  its trial, or the rescue copy, and the pending marker is this run's or gone.
  - `boot_safe`: in every run that is `survivable` the next boot removes the marker,
    starts a build that runs, prefers the previous slot to an untested candidate, starts
    something if the previous slot ran, and marks what it starts.
  - `blocked_version_bricks`: the version of a failed candidate is blocked for every slot
    that has it. With the same release in both slots, and so in the rescue copy, nothing
    is left to start.
-/

import OpenU60.Ota.RollbackTarget

namespace OpenU60.Ota

open OpenU60.Lib OpenU60.Lib.Machine

variable {Bytes : Type} {P : Platform Bytes}

namespace HelperStage

/-- The helper still waits for the agent that launched it. -/
def waits : HelperStage Bytes → Bool
  | ready | waitParent | timeoutPending | timeoutReady => true
  | _ => false

/-- The helper has given the candidate up: it neither blocks nor copies any more. -/
def recovers : HelperStage Bytes → Bool
  | recoverActive _ | recoverLink | recoverPending | recoverStart | rescueStart | rescueMarker | rescueLink => true
  | _ => false

theorem Next.recovers {s r : HelperStage Bytes} (h : s.Next r) (hs : s.recovers) : r.recovers := by
  cases h <;> simp_all [HelperStage.recovers]

theorem Next.waits {s r : HelperStage Bytes} (h : s.Next r) (hs : s.waits) (hr : r ≠ .spawn) : r.waits := by
  cases h <;> simp_all [HelperStage.waits]

end HelperStage

theorem Turned.fixed {w w' : World Bytes} {pid : Nat} {h : Helper Bytes} {tn : HelperTurn}
    {st : Option (HelperStage Bytes)} (ht : Turned w pid h tn st w') (hl : h.stage.live = false) :
    w'.disk.pending = w.disk.pending := by
  rcases ht.pending with hp | ⟨hl', -⟩
  · exact hp
  · simp [hl'] at hl

namespace Tracked

/-- An install or rollback to `l` has passed its checks, and nothing of it is done. -/
structure Accepted (t : Tracked Bytes) (l : Handover) : Prop where
  helper : ∀ p, t.w.helper p = none
  agent : ∃ g, t.w.agent = some g ∧ g.op = some (.launching l .clearReady)
  other : l.candidate = l.previous.other
  active : Supervisor.markedSlot t.w.disk.active = some l.previous
  pending : t.w.disk.pending = none
  proven : t.proven = []

/-- The previous slot's version is another one than the candidate's, or the rescue copy
    runs and has another one. -/
def spared (P : Platform Bytes) (d : Disk Bytes) (l : Handover) : Bool :=
  (d.slot l.previous).metadata.all (·.version != l.version) ||
    Supervisor.runnableStable P d && d.stable.metadata.all (·.version != l.version)

/-- The steps of one install or rollback; a version is blocked only where that spares a
    build to start, and the rescue copy is marked only where the boot script would not
    then start the candidate, tried first, before a previous slot that runs. -/
def survivable (P : Platform Bytes) (t : Tracked Bytes) : Event Bytes → Bool
  | .launch .. | .poll .. | .deadline | .agentDies | .helperDies _ => true
  | .helper pid tn =>
    (t.w.helper pid).all fun h =>
      match h.stage with
      | .block _ => !tn.io.effect || spared P t.w.disk h.args
      | .rescueMarker =>
        !tn.io.effect || t.w.disk.inTrial ||
          !(h.args.candidate == .a && Supervisor.runnableSlot P t.w.disk .a && Supervisor.runnableSlot P t.w.disk .b)
      | _ => true
  | _ => false

/-- The candidate is committed: it passed its trial, the active marker names it and the
    pending marker is gone. -/
def Committed (t : Tracked Bytes) (l : Handover) : Prop :=
  t.w.disk.pending = none ∧ t.w.disk.activeSlot = some l.candidate ∧
    ∃ b, t.w.build l.candidate = some b ∧ b ∈ t.proven

/-- What a boot from this disk does; `ran`: the previous slot was runnable to begin with. -/
def BootSafe (P : Platform Bytes) (l : Handover) (ran : Bool) (t : Tracked Bytes) : Prop :=
  let after := Supervisor.boot P t.w.disk
  after.1.pending = none ∧
    (∀ target, after.2 = some target →
      Supervisor.runnable P t.w.disk target ∧ after.1.active = some (Supervisor.markerOf target)) ∧
    (after.2 = some (.slot l.candidate) →
      t.Committed l ∨ Supervisor.runnableSlot P t.w.disk l.previous = false) ∧
    (ran → after.2.isSome)

/-! ## What every disk on the way has in common -/

/-- The agent is not in a launch. -/
def Unlaunched (t : Tracked Bytes) : Prop :=
  ∀ g l st, t.w.agent = some g → g.op ≠ some (.launching l st)

/-- The rescue copy is marked: the helper is all but done, and the fallback is safe. -/
structure Rescued (P : Platform Bytes) (t : Tracked Bytes) (l : Handover) : Prop where
  done : ∀ p h, t.w.helper p = some h → h.stage = .rescueLink
  unlaunched : t.Unlaunched
  safe : t.w.disk.pending ≠ none ∨ ¬ (l.candidate = .a ∧ Supervisor.runnableSlot P t.w.disk .a ∧
    Supervisor.runnableSlot P t.w.disk .b)

/-- What the active marker says. -/
def Marked (P : Platform Bytes) (t : Tracked Bytes) (l : Handover) : Prop :=
  Supervisor.markedSlot t.w.disk.active = some l.previous ∨
    (t.w.disk.active = some (Disk.markerText l.candidate) ∧ ∃ b, t.w.build l.candidate = some b ∧ b ∈ t.proven) ∨
    (t.w.disk.active = some Disk.rescueText ∧ t.Rescued P l)

structure Held (P : Platform Bytes) (l : Handover) (ran : Bool) (t : Tracked Bytes) : Prop where
  args : ∀ p h, t.w.helper p = some h → h.args = l
  one : ∀ p q h k, t.w.helper p = some h → t.w.helper q = some k → p = q
  launching : ∀ g l' st, t.w.agent = some g → g.op = some (.launching l' st) →
    l' = l ∧ ∀ p h, t.w.helper p = some h → h.parent = g.pid ∧ h.stage.waits
  early : ∀ g l', t.w.agent = some g → g.launches = some l' → ∀ p, t.w.helper p = none
  other : l.candidate = l.previous.other
  active : Marked P t l
  pending : t.w.disk.pending = none ∨
    t.w.disk.pending = some (Disk.pendingText l.candidate l.previous l.version.toList)
  onTrial : ∀ p h b, t.w.helper p = some h → h.stage.ran = some b → t.w.build l.candidate = some b
  /-- The previous slot still runs, or it was spared for and nothing will undo that. -/
  spare : ran = true → Supervisor.runnableSlot P t.w.disk l.previous ∨
    (Supervisor.runnableStable P t.w.disk ∧ t.Unlaunched ∧ ∀ p h, t.w.helper p = some h → h.stage.recovers)

variable {t : Tracked Bytes} {l : Handover}

theorem Accepted.held (h : t.Accepted l) :
    Held P l (Supervisor.runnableSlot P t.w.disk l.previous) t := by
  obtain ⟨g, ha, ho⟩ := h.agent
  refine ⟨by simp [h.helper], by simp [h.helper], fun g' l' st hg ho' => ?_, fun _ _ _ _ => h.helper, h.other,
    .inl h.active, .inl h.pending, by simp [h.helper], fun hr => .inl hr⟩
  obtain rfl := Option.some.inj (ha.symm.trans hg)
  simp only [ho, Option.some.injEq, Operation.launching.injEq] at ho'
  exact ⟨ho'.1.symm, by simp [h.helper]⟩

/-- What a boot from such a disk does. -/
theorem Held.bootSafe {ran : Bool} (hh : Held P l ran t) : BootSafe P l ran t := by
  obtain ⟨-, ⟨-, -, -, hpend⟩, hstarts, -⟩ := Supervisor.boot_spec P t.w.disk
  have hexcluded : ∀ s, s ≠ l.candidate → Supervisor.excluded t.w.disk ≠ some s := by
    intro s hs
    rcases hh.pending with hp | hp
    · simp [Supervisor.excluded, hp, Supervisor.markedSlot]
    · simp only [Supervisor.excluded, hp, Supervisor.markedSlot_pendingText, ne_eq, Option.some.injEq]
      exact fun e => hs e.symm
  have hne : l.previous ≠ l.candidate := by
    rw [hh.other]
    exact Slot.ne_other _
  refine ⟨hpend, fun target ht => ⟨(hstarts target ht).1, (hstarts target ht).2.1⟩, fun hc => ?_, fun hran => ?_⟩
  · by_cases hr : Supervisor.runnableSlot P t.w.disk l.previous
    · left
      rcases hh.pending with hp | hp
      · have hnone : ∀ q, Supervisor.recordedPrevious t.w.disk = some q → Supervisor.runnableSlot P t.w.disk q = false := by
          simp [Supervisor.recordedPrevious, hp]
        rcases hh.active with ha | ⟨ha, hb⟩ | ⟨ha, hresc⟩
        · have hs := Supervisor.boot_marked P hnone ha hr
          rw [hs] at hc
          exact absurd (Target.slot.inj (Option.some.inj hc)) hne
        · exact ⟨hp, by simp [Disk.activeSlot, ha, Slot.parse_markerText], hb⟩
        · -- the fallback tries the first slot first
          have hx : Supervisor.excluded t.w.disk = none := by simp [Supervisor.excluded, hp, Supervisor.markedSlot]
          have hrun : Supervisor.runnableSlot P t.w.disk l.candidate := (hstarts _ hc).1
          have hfall := Supervisor.boot_fallback P hnone (by simp [ha])
          rw [hc, hx] at hfall
          have hfirst : ∀ s, Supervisor.runnableSlot P (Supervisor.restore P t.w.disk) s =
              Supervisor.runnableSlot P t.w.disk s := fun s => Supervisor.runnable_restore P t.w.disk (.slot s)
          cases hcand : l.candidate with
          | a =>
            have hb : l.previous = .b := by
              rw [← Slot.other_other l.previous, ← hh.other, hcand]
              rfl
            rcases hresc.safe with h | h
            · exact absurd hp h
            · exact absurd ⟨hcand, hcand ▸ hrun, hb ▸ hr⟩ h
          | b =>
            have ha' : l.previous = .a := by
              rw [← Slot.other_other l.previous, ← hh.other, hcand]
              rfl
            rw [hcand] at hfall
            simp [Supervisor.fallback, hfirst, ha' ▸ hr] at hfall
      · have hs := Supervisor.boot_previous P (Supervisor.recordedPrevious_pendingText hp) hr
        rw [hs] at hc
        exact absurd (Target.slot.inj (Option.some.inj hc)) hne
    · right
      simpa using hr
  · by_contra hn
    have hn' : (Supervisor.boot P t.w.disk).2 = none := by simpa using hn
    rcases hh.spare hran with hr | ⟨hr, -⟩
    · have := Supervisor.boot_none P hn' (.slot l.previous) fun s hs => hexcluded s (by cases hs; exact hne)
      simp [Supervisor.runnable, hr] at this
    · have := Supervisor.boot_none P hn' .stable fun s hs => by cases hs
      simp [Supervisor.runnable, hr] at this

/-! ## Every step keeps it -/

variable {t' : Tracked Bytes}

theorem Unlaunched.of_agent (h : t.Unlaunched)
    (ha : ∀ g, t'.w.agent = some g → t.w.agent = some g ∨ g.op = none) : t'.Unlaunched := by
  intro g l st hg ho
  rcases ha g hg with hg | hn
  · exact h g l st hg ho
  · simp [hn] at ho

/-- A step that writes nothing, and after which there is at most less going on. -/
theorem Held.less {ran : Bool} (hh : Held P l ran t)
    (hd : t'.w.disk = t.w.disk) (hv : t'.proven = t.proven) (ha : ∀ g, t'.w.agent = some g → t.w.agent = some g)
    (hk : ∀ p h, t'.w.helper p = some h → t.w.helper p = some h) : Held P l ran t' := by
  have hb : t'.w.build = t.w.build := by
    funext s
    simp only [World.build, hd]
  have hu : t.Unlaunched → t'.Unlaunched := fun h => h.of_agent fun g hg => .inl (ha g hg)
  refine ⟨fun p h hp => hh.args p h (hk p h hp), fun p q h k hp hq => hh.one p q h k (hk p h hp) (hk q k hq),
    fun g l' st hg ho => ?_, fun g l' hg hl p => ?_, hh.other, ?_, by rw [hd]; exact hh.pending,
    fun p h b hp hr => by rw [hb]; exact hh.onTrial p h b (hk p h hp) hr, fun hr => ?_⟩
  · exact (hh.launching g l' st (ha g hg) ho).imp_right fun h p k hp => h p k (hk p k hp)
  · have hn := hh.early g l' (ha g hg) hl p
    cases hp : t'.w.helper p with
    | none => rfl
    | some k => simp [hk p k hp] at hn
  · unfold Marked
    rw [hd, hb, hv]
    exact hh.active.imp_right fun h => h.imp_right fun h =>
      ⟨h.1, fun p k hp => h.2.done p k (hk p k hp), hu h.2.unlaunched, by rw [hd]; exact h.2.safe⟩
  · rw [hd]
    exact (hh.spare hr).imp_right fun h => ⟨h.1, hu h.2.1, fun p k hp => h.2.2 p k (hk p k hp)⟩

/-- A step of a launch. -/
theorem Held.moved {ran : Bool} (hh : Held P l ran t)
    (hm : LaunchMove t.w t'.w) (hv : t'.proven = t.proven) {g : Manager Bytes} {l₀ : Handover} {st₀ : LaunchStage}
    (hg : t.w.agent = some g) (ho : g.op = some (.launching l₀ st₀)) : Held P l ran t' := by
  have hnot : ¬ t.Unlaunched := fun h => h g l₀ st₀ hg ho
  have hb : t'.w.build = t.w.build := by
    funext s
    simp only [World.build, hm.builds.slot]
  have own : ∀ g' l', t.w.agent = some g' → g'.launches = some l' → l' = l := by
    intro g' l' hg' hl'
    unfold Manager.launches at hl'
    split at hl' <;> cases hl' <;> exact (hh.launching g' _ _ hg' ‹_›).1
  refine ⟨fun p h hp => ?_, fun p q h k hp hq => ?_, fun g' l' st' hg' ho' => ?_, fun g' l' hg' hl' p => ?_, hh.other,
    ?_, ?_, fun p h b hp hr => ?_, fun hr => ?_⟩
  · rcases hm.helper p h hp with hp | ⟨-, -, g', hg', hl', -⟩
    · exact hh.args p h hp
    · exact own g' _ hg' hl'
  · rcases hm.helper p h hp with hp | ⟨rfl, -, g', hg', hl', -⟩
    · rcases hm.helper q k hq with hq | ⟨-, -, g', hg', hl', -⟩
      · exact hh.one p q h k hp hq
      · simp [hh.early g' _ hg' hl' p] at hp
    · rcases hm.helper q k hq with hq | ⟨rfl, -⟩
      · simp [hh.early g' _ hg' hl' q] at hq
      · rfl
  · obtain ⟨g1, hg1, hpid, -, hl1⟩ := hm.agent g' hg'
    obtain ⟨st1, ho1⟩ := hl1 l' st' ho'
    refine ⟨(hh.launching g1 l' st1 hg1 ho1).1, fun p h hp => ?_⟩
    rcases hm.helper p h hp with hp | ⟨-, hready, g2, hg2, -, hparent⟩
    · rw [hpid]
      exact (hh.launching g1 l' st1 hg1 ho1).2 p h hp
    · obtain rfl := Option.some.inj (hg1.symm.trans hg2)
      exact ⟨by rw [hpid, hparent], by simp [hready, HelperStage.waits]⟩
  · obtain ⟨⟨g1, hg1, hl1⟩, hold⟩ := hm.launches g' l' hg' hl'
    cases hp : t'.w.helper p with
    | none => rfl
    | some k =>
      have hk := hold p k hp
      simp [hh.early g1 l' hg1 hl1 p] at hk
  · unfold Marked
    rw [hm.builds.active, hb, hv]
    exact hh.active.imp_right fun h => h.imp_right fun h => absurd h.2.unlaunched hnot
  · rcases hm.pending with hp | hp | ⟨g', l', hg', hl', hp⟩
    · rw [hp]
      exact hh.pending
    · exact .inl hp
    · rw [own g' l' hg' hl'] at hp
      exact .inr hp
  · rw [hb]
    rcases hm.helper p h hp with hp | ⟨-, hready, -⟩
    · exact hh.onTrial p h b hp hr
    · simp [hready, HelperStage.ran] at hr
  · rcases hh.spare hr with h | h
    · left
      rw [Supervisor.runnableSlot, hm.builds.slot, hm.builds.blocked]
      exact h
    · exact absurd h.2.1 hnot

/-- Without a launch the steps of one do nothing. -/
theorem launchSteps_unlaunched (hu : t.Unlaunched) :
    (∀ io saved, t.w.launchStep io saved = t.w) ∧ (∀ io status, t.w.pollStep io status = t.w) ∧
      t.w.deadlineStep = t.w := by
  refine ⟨fun io saved => ?_, fun io status => ?_, ?_⟩
  · unfold World.launchStep
    split
    · next g hg =>
      split
      · next l st ho => exact absurd ho (hu g l st hg)
      · rfl
    · rfl
  · unfold World.pollStep
    split
    · next g hg =>
      split
      · next l pid ho => exact absurd ho (hu g l _ hg)
      · rfl
    · rfl
  · unfold World.deadlineStep
    split
    · next g hg =>
      split
      · next l pid ho => exact absurd ho (hu g l _ hg)
      · rfl
    · rfl

theorem Held.launchMove {ran : Bool} (hh : Held P l ran t)
    (hm : LaunchMove t.w t'.w) (hv : t'.proven = t.proven) (hid : t.Unlaunched → t'.w = t.w) : Held P l ran t' := by
  by_cases hu : t.Unlaunched
  · have hw := hid hu
    exact hh.less (by rw [hw]) hv (fun g hg => by rwa [hw] at hg) fun p h hp => by rwa [hw] at hp
  · simp only [Unlaunched, not_forall, ne_eq, not_not] at hu
    obtain ⟨g, l₀, st₀, hg, ho⟩ := hu
    exact hh.moved hm hv hg ho

/-! ## A helper's step -/

theorem runnableBinary_blockVersion {d : Disk Bytes} {dir : SlotDir Bytes} {v : String} {io : Io}
    (hr : Supervisor.runnableBinary P d.blocked dir) (hm : dir.metadata.all (·.version != v)) :
    Supervisor.runnableBinary P (World.blockVersion d v io).blocked dir := by
  by_cases hb : !d.blocked.contains v && io.effect
  · unfold Supervisor.runnableBinary at hr ⊢
    simp only [World.blockVersion_blocked, hb, if_true]
    cases hf : dir.binary with
    | none => simp [hf] at hr
    | some f =>
      cases hmd : dir.metadata with
      | none => simpa [hf, hmd] using hr
      | some m =>
        have hne : m.version ≠ v := by simpa [hmd] using hm
        simp only [hf, hmd, Bool.and_eq_true, Bool.not_eq_true'] at hr ⊢
        simpa [hne] using hr
  · simpa only [World.blockVersion_blocked, if_neg hb] using hr

/-- What the recovery blocks leaves the previous slot or the rescue copy to start. -/
theorem spared_runnable {d d' : Disk Bytes} {io : Io} (hs : d'.slot = d.slot) (ht : d'.stable = d.stable)
    (hb : d'.blocked = (World.blockVersion d l.version io).blocked) (hsp : spared P d l)
    (hr : Supervisor.runnableSlot P d l.previous) :
    Supervisor.runnableSlot P d' l.previous ∨ Supervisor.runnableStable P d' := by
  simp only [spared, Bool.or_eq_true, Bool.and_eq_true] at hsp
  rcases hsp with hm | ⟨hrun, hm⟩
  · left
    rw [Supervisor.runnableSlot, hs, hb]
    exact runnableBinary_blockVersion hr hm
  · right
    simp only [Supervisor.runnableStable, Bool.and_eq_true, ht, hb] at hrun ⊢
    exact ⟨hrun.1, runnableBinary_blockVersion hrun.2 hm⟩

variable {pid : Nat} {h : Helper Bytes} {tn : HelperTurn}

theorem Held.alone {ran : Bool} (hh : Held P l ran t) (hw : t.w.helper pid = some h) (he : t'.w = t.w.helperCli P pid h tn)
    {q : Nat} {k : Helper Bytes} (hq : t'.w.helper q = some k) :
    q = pid ∧ (k.args = h.args ∧ k.parent = h.parent) ∧ h.stage.Next k.stage := by
  obtain ⟨st, ht⟩ := helperCli_turned (P := P) (t := tn) hw
  rw [he] at hq
  have hpid : q = pid := by
    by_contra hne
    rw [ht.helper, Function.update_of_ne hne] at hq
    exact hne (hh.one q pid k h hq hw)
  subst hpid
  exact ⟨rfl, helperCli_next hw hq⟩

theorem commits_mem {pid child : Nat} {b : Bytes}
    (hw : t.w.helper pid = some h) (hs : h.stage = .commitActive child b) (hio : tn.io.effect) :
    b ∈ (t.step P (.helper pid tn)).proven := by
  simp [step, World.commits, hw, hs, hio]

/-- Away from the list of blocked versions and the rescue copy, what runs stays what it is. -/
theorem runnable_of_files {w w' : World Bytes} (hs : w'.disk.slot = w.disk.slot)
    (hf : Files h tn w.disk w'.disk) (hb : h.stage.blocks = false) (hc : h.stage.copies = false) (target : Target) :
    Supervisor.runnable P w'.disk target = Supervisor.runnable P w.disk target := by
  have hbl := hf.blocked
  rw [if_neg (by simp [hb])] at hbl
  exact Supervisor.runnable_of_same P hs (hf.stable hc) hbl target

/-- A helper's step that leaves the active marker as it is. -/
theorem Held.unmarked {ran : Bool} (hh : Held P l ran t) (hw : t.w.helper pid = some h) (he : t'.w = t.w.helperCli P pid h tn)
    (hmore : ∀ b, b ∈ t.proven → b ∈ t'.proven) (ha : t'.w.disk.active = t.w.disk.active) : Marked P t' l := by
  obtain ⟨st, ht⟩ := helperCli_turned (P := P) (t := tn) hw
  have hf : Files h tn t.w.disk (t.w.helperCli P pid h tn).disk := helperCli_files
  rw [← he] at ht hf
  have hb : t'.w.build = t.w.build := by
    funext s
    simp only [World.build, ht.slot]
  unfold Marked
  rw [ha, hb]
  refine hh.active.imp_right fun ha => ha.imp (fun hc => ⟨hc.1, hc.2.imp fun b hb => ⟨hb.1, hmore b hb.2⟩⟩) fun hr => ⟨hr.1, ?_⟩
  have hlink := hr.2.done pid _ hw
  refine ⟨fun q k hq => ?_, hr.2.unlaunched.of_agent ht.agent, ?_⟩
  · have hn := (hh.alone hw he hq).2.2
    rw [hlink] at hn
    cases hn
  · have hrun : ∀ s, Supervisor.runnableSlot P t'.w.disk s = Supervisor.runnableSlot P t.w.disk s := fun s =>
      runnable_of_files ht.slot hf (by simp [hlink, HelperStage.blocks]) (by simp [hlink, HelperStage.copies]) (.slot s)
    rw [ht.fixed (by simp [hlink, HelperStage.live]), hrun, hrun]
    exact hr.2.safe

/-- The helper marks the rescue copy. -/
theorem Held.rescues {ran : Bool} (hh : Held P l ran t) (hw : t.w.helper pid = some h) (he : t'.w = t.w.helperCli P pid h tn)
    (hs : t.survivable P (.helper pid tn)) (hstage : h.stage = .rescueMarker) (hio : tn.io.effect) : t'.Rescued P l := by
  obtain ⟨st, ht⟩ := helperCli_turned (P := P) (t := tn) hw
  have hf : Files h tn t.w.disk (t.w.helperCli P pid h tn).disk := helperCli_files
  rw [← he] at ht hf
  refine ⟨fun q k hq => ?_, fun g l' st' hg ho => ?_, ?_⟩
  · have hn := (hh.alone hw he hq).2.2
    rw [hstage] at hn
    cases hk : k.stage <;> rw [hk] at hn <;> cases hn
  · rcases ht.agent g hg with hg | hn
    · have hwaits := ((hh.launching g l' st' hg ho).2 pid h hw).2
      simp [hstage, HelperStage.waits] at hwaits
    · simp [hn] at ho
  · have hrun : ∀ s, Supervisor.runnableSlot P t'.w.disk s = Supervisor.runnableSlot P t.w.disk s := fun s =>
      runnable_of_files ht.slot hf (by simp [hstage, HelperStage.blocks]) (by simp [hstage, HelperStage.copies]) (.slot s)
    rw [ht.fixed (by simp [hstage, HelperStage.live]), hrun, hrun]
    simp only [survivable, hw, Option.all_some, hstage, hio, Bool.not_true, Bool.false_or, Bool.or_eq_true,
      Bool.not_eq_true', hh.args pid h hw] at hs
    rcases hs with hp | hn
    · left
      intro h0
      simp [Disk.inTrial, h0] at hp
    · right
      simpa using hn

theorem Held.marked {ran : Bool} (hh : Held P l ran t) (hw : t.w.helper pid = some h) (hs : t.survivable P (.helper pid tn))
    (ht' : t' = t.step P (.helper pid tn)) (he : t'.w = t.w.helperCli P pid h tn) : Marked P t' l := by
  have hmore : ∀ b, b ∈ t.proven → b ∈ t'.proven := by
    intro b hb
    rw [ht']
    exact List.mem_append_left _ hb
  have hact : Files h tn t.w.disk (t.w.helperCli P pid h tn).disk := helperCli_files
  replace hact := hact.active
  rw [← he] at hact
  cases hm : h.marker with
  | none =>
    rw [hm] at hact
    exact hh.unmarked hw he hmore hact
  | some text =>
    rw [hm] at hact
    by_cases hio : tn.io.effect
    · simp only [hio, if_true] at hact
      unfold Helper.marker at hm
      rw [hh.args pid h hw] at hm
      split at hm
      · next child b hstage =>
        obtain rfl := Option.some.inj hm
        obtain ⟨st, ht⟩ := helperCli_turned (P := P) (t := tn) hw
        refine .inr (.inl ⟨hact, b, ?_, ?_⟩)
        · rw [World.build, he, ht.slot]
          exact hh.onTrial pid h b hw (by simp [hstage, HelperStage.ran])
        · rw [ht']
          exact commits_mem hw hstage hio
      · obtain rfl := Option.some.inj hm
        left
        rw [hact]
        exact Supervisor.markedSlot_markerText _
      · next hstage =>
        obtain rfl := Option.some.inj hm
        exact .inr (.inr ⟨hact, hh.rescues hw he hs hstage hio⟩)
      · cases hm
    · simp only [hio] at hact
      exact hh.unmarked hw he hmore hact

/-- What is left to start after a helper's step. -/
theorem Held.spares {ran : Bool} (hh : Held P l ran t) (hw : t.w.helper pid = some h) (hs : t.survivable P (.helper pid tn))
    (he : t'.w = t.w.helperCli P pid h tn) (hr : ran) :
    Supervisor.runnableSlot P t'.w.disk l.previous ∨
      (Supervisor.runnableStable P t'.w.disk ∧ t'.Unlaunched ∧ ∀ p k, t'.w.helper p = some k → k.stage.recovers) := by
  obtain ⟨st, ht⟩ := helperCli_turned (P := P) (t := tn) hw
  have hf : Files h tn t.w.disk (t.w.helperCli P pid h tn).disk := helperCli_files
  rw [← he] at ht hf
  rcases hh.spare hr with hrun | ⟨hrun, hu, hrec⟩
  · by_cases hb : h.stage.blocks
    · obtain ⟨child, hstage⟩ : ∃ child, h.stage = .block child := by
        cases hst : h.stage <;> rw [hst] at hb <;> cases hb
        exact ⟨_, rfl⟩
      have hblocked := hf.blocked
      rw [if_pos hb, hh.args pid h hw] at hblocked
      have hstable : t'.w.disk.stable = t.w.disk.stable := hf.stable (by simp [hstage, HelperStage.copies])
      by_cases hio : tn.io.effect
      · have hsp : spared P t.w.disk l := by
          simpa [survivable, hw, hstage, hio, hh.args pid h hw] using hs
        refine (spared_runnable ht.slot hstable hblocked hsp hrun).imp_right fun h' => ⟨h', fun g l' st' hg ho => ?_, fun p k hk => ?_⟩
        · rcases ht.agent g hg with hg | hn
          · have hwaits := ((hh.launching g l' st' hg ho).2 pid h hw).2
            simp [hstage, HelperStage.waits] at hwaits
          · simp [hn] at ho
        · have hn := (hh.alone hw he hk).2.2
          rw [hstage] at hn
          cases hkst : k.stage <;> rw [hkst] at hn <;> cases hn
          rfl
      · left
        have hsame : t'.w.disk.blocked = t.w.disk.blocked := by
          rw [hblocked]
          simp [hio]
        exact (Supervisor.runnable_of_same P ht.slot hstable hsame (.slot l.previous)).trans hrun
    · left
      have hblocked := hf.blocked
      rw [if_neg hb] at hblocked
      rw [Supervisor.runnableSlot, ht.slot, hblocked]
      exact hrun
  · right
    have hst := hrec pid h hw
    have hsame : Supervisor.runnableStable P t'.w.disk = Supervisor.runnableStable P t.w.disk :=
      runnable_of_files ht.slot hf (by cases hk : h.stage <;> rw [hk] at hst <;> first | rfl | cases hst)
        (by cases hk : h.stage <;> rw [hk] at hst <;> first | rfl | cases hst) .stable
    exact ⟨hsame.trans hrun, hu.of_agent ht.agent, fun p k hk => (hh.alone hw he hk).2.2.recovers hst⟩

theorem Held.helperStep {ran : Bool} (hh : Held P l ran t) (hw : t.w.helper pid = some h) (hs : t.survivable P (.helper pid tn)) :
    Held P l ran (t.step P (.helper pid tn)) := by
  have he : (t.step P (.helper pid tn)).w = t.w.helperCli P pid h tn := by
    simp only [step, World.step, World.helperStep, hw]
  generalize ht' : t.step P (.helper pid tn) = t' at he ⊢
  obtain ⟨st, ht⟩ := helperCli_turned (P := P) (t := tn) hw
  rw [← he] at ht
  have hb : t'.w.build = t.w.build := by
    funext s
    simp only [World.build, ht.slot]
  refine ⟨fun p k hk => ?_, fun p q k k' hp hq => ?_, fun g l' st' hg ho => ?_, fun g l' hg hl => ?_, hh.other,
    hh.marked hw hs ht'.symm he, ?_, fun p k b hk hr => ?_, hh.spares hw hs he⟩
  · rw [(hh.alone hw he hk).2.1.1]
    exact hh.args pid h hw
  · rw [(hh.alone hw he hp).1, (hh.alone hw he hq).1]
  · rcases ht.agent g hg with hg | hn
    · obtain ⟨hl, hwait⟩ := hh.launching g l' st' hg ho
      refine ⟨hl, fun p k hk => ?_⟩
      obtain ⟨rfl, ⟨-, hparent⟩, hn⟩ := hh.alone hw he hk
      refine ⟨hparent.trans (hwait p h hw).1, hn.waits (hwait p h hw).2 ?_⟩
      by_cases hwp : h.stage = .waitParent
      · have halive : t.w.alive h.parent := by simp [World.alive, hg, (hwait p h hw).1]
        rw [he] at hk
        exact helperCli_waits hw hwp halive hk
      · intro hsp
        rw [hsp] at hn
        cases hst : h.stage <;> rw [hst] at hn <;> cases hn
        exact hwp hst
    · simp [hn] at ho
  · rcases ht.agent g hg with hg | hn
    · have := hh.early g l' hg hl pid
      simp [hw] at this
    · simp [Manager.launches, hn] at hl
  · rcases ht.pending with hp | ⟨-, hp⟩
    · rw [hp]
      exact hh.pending
    · exact .inl hp
  · rw [hb]
    obtain ⟨rfl, -⟩ := hh.alone hw he hk
    have hst : st = some k.stage := by
      rw [ht.helper, Function.update_self] at hk
      cases st with
      | none => cases hk
      | some s =>
        obtain rfl := Option.some.inj hk
        rfl
    rcases ht.ran k.stage hst b hr with hr' | hr'
    · exact hh.onTrial p h b hw hr'
    · rwa [hh.args p h hw] at hr'

theorem Held.step {ran : Bool} {e : Event Bytes} (hh : Held P l ran t)
    (hs : t.survivable P e) : Held P l ran (t.step P e) := by
  have quiet : t.w.commits e = none → (t.step P e).proven = t.proven := fun h => by simp [Tracked.step, h]
  cases e with
  | launch io saved =>
    exact hh.launchMove (launchStep_move t.w io saved) (quiet rfl) fun hu => (launchSteps_unlaunched hu).1 io saved
  | poll io status =>
    exact hh.launchMove (pollStep_move t.w io status) (quiet rfl) fun hu => (launchSteps_unlaunched hu).2.1 io status
  | deadline => exact hh.launchMove (deadlineStep_move t.w) (quiet rfl) fun hu => (launchSteps_unlaunched hu).2.2
  | agentDies => exact hh.less rfl (quiet rfl) (fun g hg => by cases hg) fun p h hp => hp
  | helperDies pid => exact hh.less rfl (quiet rfl) (fun g hg => hg) fun p h hp => setHelper_none hp
  | helper pid tn =>
    cases hw : t.w.helper pid with
    | none =>
      have hid : (t.step P (.helper pid tn)).w = t.w := by simp only [Tracked.step, World.step, World.helperStep, hw]
      exact hh.less (by rw [hid]) (quiet (by simp [World.commits, hw])) (fun g hg => by rwa [hid] at hg)
        fun p h hp => by rwa [hid] at hp
    | some h => exact hh.helperStep hw hs
  | _ => cases hs

/-- A power loss after any step of an install or rollback leaves a disk from which the
    boot script starts a build that runs. -/
theorem boot_safe {t : Tracked Bytes} {l : Handover} {es : List (Event Bytes)} (ha : t.Accepted l)
    (hs : Along (Tracked.step P) (fun t e => t.survivable P e) t es) :
    BootSafe P l (Supervisor.runnableSlot P t.w.disk l.previous) (exec (Tracked.step P) t es) :=
  (invariant_along (fun _ _ hh hs => hh.step hs) ha.held hs).bootSafe

/-! ## Runs -/

theorem agentStep_helper (w : World Bytes) (f : Manager Bytes → Manager Bytes × Disk Bytes) :
    (w.agentStep f).helper = w.helper := by
  unfold World.agentStep
  split <;> rfl

/-- Checks that pass with no helper at work. -/
theorem accepted_of_preflight {w : World Bytes} {g : Manager Bytes} {supervisor : Io} {other : Option String}
    {saved : Io} (ha : w.agent = some g) (hh : ∀ p, w.helper p = none)
    (hm : ∃ s, w.disk.active = some (Disk.markerText s)) (hn : g.launches = none)
    (hl : (g.preflight P w.disk supervisor other saved).1.launches = some l) (stray : Bool) :
    Accepted ⟨w.step P (.preflight supervisor other saved), [], stray⟩ l := by
  have hw : w.step P (.preflight supervisor other saved) = w.withAgent (g.preflight P w.disk supervisor other saved) := by
    simp only [World.step, World.agentStep, ha]
  have hkeeps := (Manager.preflight_spec P g w.disk supervisor other saved).2
  have hchecks : (g.preflight P w.disk supervisor other saved).1.op = some (.launching l .clearReady) ∧
      w.disk.activeSlot = some l.previous ∧ l.candidate = l.previous.other ∧ w.disk.pending = none := by
    rcases Manager.preflight_launching P rfl with ho | ho | ⟨l', ho, hc⟩
    · rw [(Manager.target_congr ho).2.2, hn] at hl
      cases hl
    · simp [Manager.launches, ho] at hl
    · obtain rfl : l' = l := by simpa [Manager.launches, ho] using hl
      refine ⟨ho, ?_⟩
      rcases hc with ⟨-, hc⟩ | ⟨-, hc⟩
      · exact ⟨(Manager.installCheck_ok P hc).1, (Manager.installCheck_ok P hc).2.1, Manager.clear_of_installCheck P hc⟩
      · exact ⟨(Manager.rollbackCheck_ok P hc).1, (Manager.rollbackCheck_ok P hc).2.1, Manager.clear_of_rollbackCheck P hc⟩
  obtain ⟨hop, hactive, hother, hpending⟩ := hchecks
  rw [hw]
  refine ⟨hh, ⟨_, rfl, hop⟩, hother, ?_, hkeeps.pending.trans hpending, rfl⟩
  obtain ⟨s, hs⟩ := hm
  have hprev : l.previous = s := by simpa [Disk.activeSlot, hs, Slot.parse_markerText] using hactive.symm
  show Supervisor.markedSlot (g.preflight P w.disk supervisor other saved).2.active = _
  rw [hkeeps.active, hs, hprev, Supervisor.markedSlot_markerText]

section

open Device

/-- Release 1 is downloaded, and its install asked for. -/
def asked : World Nat := exec (World.step platform) installed (.boot startup :: (fetchRelease 1 ++ [.install .done]))

def acceptedInstall : Tracked Nat := ⟨asked.step platform (.preflight .done none .done), [], false⟩

/-- The install of release 1 fails its trial, and power is lost before the recovery has
    set the active marker back. -/
def failedRun : List (Event Nat) :=
  [.launch .done .done, .launch .done .done, .launch .done .done, .helper 2 (turn true), .poll .done "", .agentDies,
    .helper 2 (turn true), .helper 2 (turn true), .helper 2 (turn false), .helper 2 (turn true)]

theorem failed_install_boots :
    let start := acceptedInstall
    let stop := exec (Tracked.step platform) start failedRun
    BootSafe platform ⟨.b, .a, "1.1.0"⟩ (Supervisor.runnableSlot platform start.w.disk .a) stop ∧
      (Supervisor.boot platform stop.w.disk).2 = some (.slot .a) := by
  have hagent : (asked.agent.any fun g => g.launches == none &&
        (g.preflight platform asked.disk .done none .done).1.launches == some ⟨.b, .a, "1.1.0"⟩) = true ∧
      asked.disk.active = some (Disk.markerText .a) ∧
      Along (Tracked.step platform) (fun t e => t.survivable platform e = true) acceptedInstall failedRun ∧
      (Supervisor.boot platform (exec (Tracked.step platform) acceptedInstall failedRun).w.disk).2 = some (.slot .a) := by
    decide +kernel
  obtain ⟨hg, hm, hrun, hboot⟩ := hagent
  have hhelper : ∀ p, asked.helper p = none := by
    intro p
    simp only [asked, fetchRelease]
    simp [World.step, agentStep_helper, (bootStep_idle (P := platform) installed startup).helper]
  rw [Option.any_eq_true] at hg
  obtain ⟨g, ha, hg⟩ := hg
  simp only [Bool.and_eq_true, beq_iff_eq] at hg
  exact ⟨boot_safe (accepted_of_preflight ha hhelper ⟨.a, hm⟩ hg.1 hg.2 false) hrun, hboot⟩

/-- After an install of release 1 into the second slot, the same release is downloaded
    once more, into the first, and a rollback to it accepted. -/
def sameInBoth : List (Event Nat) :=
  .boot startup :: (fetchRelease 1 ++ launchTrial (.install .done) 2 ++ List.replicate 6 (.helper 2 (turn true)) ++
    (fetchRelease 1).drop 2 ++ [.trialState .done .done, .rollback .done, .preflight .done none .done])

def failedRollback : List (Event Nat) :=
  [.launch .done .done, .launch .done .done, .launch .done .done, .helper 4 (turn true), .poll .done "", .agentDies,
    .helper 4 (turn true), .helper 4 (turn true), .helper 4 (turn false), .helper 4 (turn true)]

/-- The rollback fails its trial. Both slots and the rescue copy ran before it; blocking
    the version leaves the boot script nothing to start. -/
theorem blocked_version_bricks :
    let before := exec (World.step platform) installed sameInBoth
    let after := exec (World.step platform) before failedRollback
    (before.agent.bind (·.launches) = some ⟨.a, .b, "1.1.0"⟩ ∧ before.disk.pending = none ∧
      before.disk.active = some (Disk.markerText .b)) ∧
    (Supervisor.runnableSlot platform before.disk .b ∧ Supervisor.runnableSlot platform before.disk .a ∧
      Supervisor.runnableStable platform before.disk) ∧
    after.disk.blocked = ["1.1.0"] ∧ (Supervisor.boot platform after.disk).2 = none := by
  decide +kernel

end

end Tracked

end OpenU60.Ota
