/-
  OpenU60.Ota.Trial — a trial and the slots it rests on (`ota/mod.rs`, `download_inner`,
  `install_inner`, `rollback_inner`, `helper_cli`).

  The slot a download goes to is the one the active marker does not name. During a trial
  that is the candidate's: the marker still names the slot to fall back to. Install and
  rollback refuse while the pending marker exists; a download does not ask.

  `Inv` is what holds in between: one helper at most is in charge of a trial (its stage is
  `live`) and the marker is its own, an operation that found no marker still finds none,
  and from the start of the candidate the slot holds the build that runs. It is kept by
  every step that is `Guarded`: a download chooses its slot only while no marker exists,
  and a commit never fails after it removed the marker (`Inv.step`).
  - `slots_kept_in_trial`: in a guarded run no step changes a slot's build while the
    marker exists, and every commit marks a slot that still holds the build that ran.
  - `unguarded_download_replaces_the_candidate`: the trial's own agent checks, downloads a
    newer release over the build on trial, and the helper commits the newcomer.
-/

import OpenU60.Ota.LaunchSteps

namespace OpenU60.Ota

open OpenU60.Lib OpenU60.Lib.Machine

variable {Bytes : Type} {P : Platform Bytes}

/-! ## The invariant -/

structure Inv (w : World Bytes) : Prop where
  one : ∀ p q h k, w.helper p = some h → h.stage.live → w.helper q = some k → k.stage.live → p = q
  marked : ∀ p h, w.helper p = some h → h.stage.live →
    w.disk.pending = some (Disk.pendingText h.args.candidate h.args.previous h.args.version.toList)
  clear : ∀ g op, w.agent = some g → g.op = some op → op.reliesOnClear → w.disk.pending = none
  /-- A launch that has written the marker: no helper is in charge but its own. -/
  handed : ∀ g l stage, w.agent = some g → g.op = some (.launching l stage) →
    (Operation.launching l stage : Operation Bytes).handedOver →
    ∀ p h, w.helper p = some h → h.stage.live → stage = .waiting p
  spawning : ∀ g l, w.agent = some g → g.op = some (.launching l .spawn) →
    w.disk.pending = some (Disk.pendingText l.candidate l.previous l.version.toList)
  ran : ∀ p h b, w.helper p = some h → h.stage.ran = some b → w.build h.args.candidate = some b

theorem HelperStage.live_of_ran {s : HelperStage Bytes} {b : Bytes} (h : s.ran = some b) : s.live := by
  cases s <;> simp_all [HelperStage.ran, HelperStage.live]

variable {w : World Bytes}

theorem Inv.not_live (hi : Inv w) (hp : w.disk.pending = none) {p : Nat} {h : Helper Bytes}
    (hh : w.helper p = some h) : h.stage.live = false := by
  cases hl : h.stage.live with
  | false => rfl
  | true => simpa [hp] using hi.marked p h hh hl

theorem Inv.of_fresh (hh : w.helper = fun _ => none) (ha : ∀ g, w.agent = some g → g.op = none) :
    Inv w := by
  refine ⟨by simp [hh], by simp [hh], fun g op hg ho _ => ?_, by simp [hh], fun g l hg ho => ?_, by simp [hh]⟩
  · simp [ha g hg] at ho
  · simp [ha g hg] at ho

/-- A step of the manager alone: what it writes is no marker, and no build while a marker
    exists. -/
theorem Inv.manager (hi : Inv w) {g g' : Manager Bytes} {d : Disk Bytes} (ha : w.agent = some g)
    (hl : Manager.Local g g' w.disk) (hp : d.pending = w.disk.pending)
    (hb : w.disk.pending = none ∨ d.slot = w.disk.slot) : Inv (w.withAgent (g', d)) := by
  refine ⟨hi.one, fun p h hh hv => hp.trans (hi.marked p h hh hv), ?_, ?_, ?_, ?_⟩
  · intro g1 op hg ho hr
    obtain rfl := Option.some.inj hg
    rcases hl.clear op ho hr with hc | ⟨o, ho', hr'⟩
    · exact hp.trans hc
    · exact hp.trans (hi.clear g o ha ho' hr')
  · intro g1 l stage hg ho hd
    obtain rfl := Option.some.inj hg
    exact hi.handed g l stage ha (hl.handed _ ho hd) hd
  · intro g1 l hg ho
    obtain rfl := Option.some.inj hg
    exact hp.trans (hi.spawning g l ha (hl.handed _ ho rfl))
  · intro p h b hh hr
    rcases hb with hb | hb
    · exact absurd (HelperStage.live_of_ran hr) (by simp [hi.not_live hb hh])
    · simpa [World.build, hb] using hi.ran p h b hh hr

variable {f : Manager Bytes → Manager Bytes × Disk Bytes}

theorem Inv.agentStep (hi : Inv w)
    (h : ∀ g, w.agent = some g → Manager.Local g (f g).1 w.disk ∧ (f g).2.pending = w.disk.pending ∧
      (w.disk.pending = none ∨ (f g).2.slot = w.disk.slot)) : Inv (w.agentStep f) := by
  unfold World.agentStep
  cases ha : w.agent with
  | none => exact hi
  | some g => exact hi.manager ha (h g ha).1 (h g ha).2.1 (h g ha).2.2

theorem Inv.agentKeeps (hi : Inv w)
    (h : ∀ g, Manager.Local g (f g).1 w.disk ∧ w.disk.Keeps (f g).2) : Inv (w.agentStep f) :=
  hi.agentStep fun g _ => ⟨(h g).1, (h g).2.pending, .inr (h g).2.slot⟩

theorem Inv.agentQuiet (hi : Inv w)
    (h : ∀ g, Manager.Quiet g (f g).1 w.disk (f g).2) : Inv (w.agentStep f) :=
  hi.agentKeeps fun g => ⟨(h g).local, (h g).keeps⟩

/-! ### A helper's step -/

variable {w' : World Bytes}

theorem Inv.turned (hi : Inv w) {pid : Nat} {h : Helper Bytes} {t : HelperTurn}
    {st : Option (HelperStage Bytes)} (hw : w.helper pid = some h) (hg : h.stage.removesAndFails t = false)
    (ht : Turned w pid h t st w') : Inv w' := by
  -- who is live afterwards was live before, under the same arguments
  have back : ∀ p k, w'.helper p = some k → k.stage.live →
      ∃ k', w.helper p = some k' ∧ k'.stage.live ∧ k'.args = k.args ∧ w'.disk.pending = w.disk.pending := by
    intro p k hk hl
    rw [ht.helper] at hk
    by_cases hp : p = pid
    · subst hp
      rw [Function.update_self] at hk
      obtain ⟨s, hs, rfl⟩ := Option.map_eq_some_iff.mp hk
      exact ⟨h, hw, (ht.live s hs hl).1, rfl, (ht.live s hs hl).2 hg⟩
    · rw [Function.update_of_ne hp] at hk
      refine ⟨k, hk, hl, rfl, ht.pending.resolve_right fun hlive => hp ?_⟩
      exact hi.one p pid k h hk hl hw hlive.1
  have agent : ∀ g op, w'.agent = some g → g.op = some op → w.agent = some g := by
    intro g op hg ho
    rcases ht.agent g hg with h | h
    · exact h
    · simp [h] at ho
  refine ⟨?_, ?_, ?_, ?_, ?_, ?_⟩
  · intro p q k1 k2 h1 l1 h2 l2
    obtain ⟨k1', h1', l1', -⟩ := back p k1 h1 l1
    obtain ⟨k2', h2', l2', -⟩ := back q k2 h2 l2
    exact hi.one p q k1' k2' h1' l1' h2' l2'
  · intro p k hk hl
    obtain ⟨k', hk', hl', ha, hp⟩ := back p k hk hl
    rw [hp, ← ha]
    exact hi.marked p k' hk' hl'
  · intro g op hg ho hr
    have hclear := hi.clear g op (agent g op hg ho) ho hr
    rcases ht.pending with hp | hp
    · exact hp.trans hclear
    · exact absurd hp.1 (by simp [hi.not_live hclear hw])
  · intro g l stage hg ho hd p k hk hl
    obtain ⟨k', hk', hl', -⟩ := back p k hk hl
    exact hi.handed g l stage (agent g _ hg ho) ho hd p k' hk' hl'
  · intro g l hg ho
    have hs := hi.spawning g l (agent g _ hg ho) ho
    rcases ht.pending with hp | hp
    · exact hp.trans hs
    · cases hi.handed g l .spawn (agent g _ hg ho) ho rfl pid h hw hp.1
  · intro p k b hk hr
    have hbuild : ∀ s, w'.build s = w.build s := fun s => by simp only [World.build, ht.slot]
    rw [hbuild]
    rw [ht.helper] at hk
    by_cases hp : p = pid
    · subst hp
      rw [Function.update_self] at hk
      obtain ⟨s, hs, rfl⟩ := Option.map_eq_some_iff.mp hk
      rcases ht.ran s hs b hr with h' | h'
      · exact hi.ran p h b hw h'
      · exact h'
    · rw [Function.update_of_ne hp] at hk
      exact hi.ran p k b hk hr

/-! ### A launch -/

variable {g : Manager Bytes}

/-- The agent goes on with its launch, and at most ends the helper it waits for. -/
theorem Inv.relaunch (hi : Inv w)
    (hh : ∀ p h, w'.helper p = some h → w.helper p = some h)
    (hs : w'.disk.slot = w.disk.slot) (ha : w'.agent = some g)
    (hp : w'.disk.pending = w.disk.pending ∨ ∀ p h, w'.helper p = some h → h.stage.live = false)
    (hclear : ∀ op, g.op = some op → op.reliesOnClear → w'.disk.pending = none)
    (hhanded : ∀ l stage, g.op = some (.launching l stage) →
      (Operation.launching l stage : Operation Bytes).handedOver → (∀ p h, w'.helper p = some h → h.stage.live = false))
    (hspawn : ∀ l, g.op = some (.launching l .spawn) →
      w'.disk.pending = some (Disk.pendingText l.candidate l.previous l.version.toList)) : Inv w' := by
  refine ⟨fun p q h k h1 l1 h2 l2 => hi.one p q h k (hh p h h1) l1 (hh q k h2) l2, ?_, ?_, ?_, ?_, ?_⟩
  · intro p h hk hl
    rcases hp with hp | hp
    · exact hp.trans (hi.marked p h (hh p h hk) hl)
    · simp [hp p h hk] at hl
  · intro g' op hg ho hr
    obtain rfl := Option.some.inj (ha.symm.trans hg)
    exact hclear op ho hr
  · intro g' l stage hg ho hd p h hk hl
    obtain rfl := Option.some.inj (ha.symm.trans hg)
    simp [hhanded l stage ho hd p h hk] at hl
  · intro g' l hg ho
    obtain rfl := Option.some.inj (ha.symm.trans hg)
    exact hspawn l ho
  · intro p h b hk hr
    have := hi.ran p h b (hh p h hk) hr
    simpa [World.build, hs] using this

variable {l : Handover}

/-- The launch has nobody to hand over to, or has just ended the helper it waited for. -/
theorem Inv.none_live (hi : Inv w) {stage : LaunchStage}
    (ha : w.agent = some g) (ho : g.op = some (.launching l stage))
    (hd : (Operation.launching l stage : Operation Bytes).handedOver) {p : Nat} {h : Helper Bytes}
    (hk : w.helper p = some h) (hne : stage ≠ .waiting p) : h.stage.live = false := by
  cases hl : h.stage.live with
  | false => rfl
  | true => exact absurd (hi.handed g l stage ha ho hd p h hk hl) hne

theorem Inv.abort (hi : Inv w) {e : String}
    (hh : ∀ p h, w'.helper p = some h → w.helper p = some h ∧ h.stage.live = false)
    (hs : w'.disk.slot = w.disk.slot) (hp : w'.disk.pending = w.disk.pending) : Inv (w'.abort g l e) := by
  refine hi.relaunch (fun p h hk => (hh p h hk).1) hs rfl (.inl hp) ?_ (fun _ _ _ _ p h hk => (hh p h hk).2) ?_
  · intro op ho hr
    obtain rfl := Option.some.inj ho
    cases hr
  · intro l' ho
    simp [Manager.next] at ho

theorem Inv.launchHelper (hi : Inv w) {stage : LaunchStage}
    {io saved : Io} (ha : w.agent = some g) (ho : g.op = some (.launching l stage)) :
    Inv (w.launchHelper g l stage io saved) := by
  unfold World.launchHelper
  cases stage with
  | clearReady =>
    have hp := hi.clear g _ ha ho rfl
    dsimp only
    split
    · refine hi.manager ha ⟨rfl, fun _ _ _ => .inl hp, fun op hop hd => ?_⟩ rfl (.inl hp)
      obtain rfl := Option.some.inj hop
      cases hd
    · exact hi.manager ha (Manager.ended rfl rfl) rfl (.inl hp)
  | writePending =>
    have hp := hi.clear g _ ha ho rfl
    have hnone : ∀ p h, w.helper p = some h → h.stage.live = false := fun p h => hi.not_live hp
    dsimp only
    split
    · next hio =>
      refine hi.relaunch (fun _ _ h => h) rfl rfl (.inr hnone) (fun op hop hr => ?_) (fun _ _ _ _ => hnone)
        (fun l' hop => ?_)
      · obtain rfl := Option.some.inj hop
        cases hr
      · obtain rfl : l = l' := by simpa [Manager.next] using hop
        have he : (Disk.pendingIo l.version io).effect := Io.effect_of_ok (by simp [Io.ok, hio])
        simp [he]
    · exact hi.relaunch (fun _ _ h => h) rfl rfl (.inr hnone) (fun op hop _ => by simp [Manager.fail, Manager.change] at hop)
        (fun _ _ _ _ => hnone) (fun l' hop => by simp [Manager.fail, Manager.change] at hop)
  | spawn =>
    have hnone : ∀ p h, w.helper p = some h → h.stage.live = false :=
      fun p h hk => hi.none_live ha ho rfl hk (by simp)
    have hmark := hi.spawning g l ha ho
    dsimp only
    split
    · refine ⟨?_, ?_, ?_, ?_, ?_, ?_⟩
      -- the new helper is the only one in charge
      · intro p q h k h1 l1 h2 l2
        have new : ∀ r m, Function.update w.helper w.nextPid (some ⟨g.exe, g.trialEnv, g.pid, l, .ready⟩) r = some m →
            m.stage.live → r = w.nextPid := by
          intro r m hm hl
          by_cases hr : r = w.nextPid
          · exact hr
          · rw [Function.update_of_ne hr] at hm
            simp [hnone r m hm] at hl
        exact (new p h h1 l1).trans (new q k h2 l2).symm
      · intro p h hk hl
        by_cases hp : p = w.nextPid
        · subst hp
          simp [World.setHelper] at hk
          simpa [← hk] using hmark
        · simp [World.setHelper, Function.update_of_ne hp] at hk
          simp [hnone p h hk] at hl
      · intro g' op hg hop hr
        obtain rfl := Option.some.inj hg
        obtain rfl := Option.some.inj hop
        cases hr
      · intro g' l' stage hg hop hd p h hk hl
        obtain rfl := Option.some.inj hg
        by_cases hp : p = w.nextPid
        · simp [Manager.next] at hop
          simp [← hop.2, hp]
        · simp [World.setHelper, Function.update_of_ne hp] at hk
          simp [hnone p h hk] at hl
      · intro g' l' hg hop
        obtain rfl := Option.some.inj hg
        simp [Manager.next] at hop
      · intro p h b hk hr
        by_cases hp : p = w.nextPid
        · subst hp
          simp [World.setHelper] at hk
          simp [← hk, HelperStage.ran] at hr
        · simp [World.setHelper, Function.update_of_ne hp] at hk
          exact hi.ran p h b hk hr
    · exact hi.abort (fun p h hk => ⟨hk, hnone p h hk⟩) rfl rfl
  | waiting pid => exact hi
  | abortReady error =>
    have hnone : ∀ p h, w.helper p = some h → h.stage.live = false :=
      fun p h hk => hi.none_live ha ho rfl hk (by simp)
    refine hi.relaunch (fun _ _ h => h) rfl rfl (.inl rfl) (fun op hop hr => ?_) (fun _ _ _ _ => hnone) (fun l' hop => ?_)
    · obtain rfl := Option.some.inj hop
      cases hr
    · simp [Manager.next] at hop
  | abortPending error readyError =>
    have hnone : ∀ p h, w.helper p = some h → h.stage.live = false :=
      fun p h hk => hi.none_live ha ho rfl hk (by simp)
    exact hi.relaunch (fun _ _ h => h) rfl rfl (.inr hnone) (fun op hop _ => by simp [Manager.fail, Manager.change] at hop)
      (fun _ _ _ _ => hnone) (fun l' hop => by simp [Manager.fail, Manager.change] at hop)

theorem Inv.waited (hi : Inv w) {pid : Nat} {e : String}
    (ha : w.agent = some g) (ho : g.op = some (.launching l (.waiting pid)))
    (hh : w'.helper = Function.update w.helper pid none) (hs : w'.disk.slot = w.disk.slot)
    (hp : w'.disk.pending = w.disk.pending) : Inv (w'.abort g l e) := by
  refine hi.abort (fun p h hk => ?_) hs hp
  rw [hh] at hk
  by_cases hpid : p = pid
  · simp [hpid] at hk
  · rw [Function.update_of_ne hpid] at hk
    exact ⟨hk, hi.none_live ha ho rfl hk (by simpa using Ne.symm hpid)⟩

theorem Inv.poll (hi : Inv w) {pid : Nat} {io : Io}
    {status : String} (ha : w.agent = some g) (ho : g.op = some (.launching l (.waiting pid))) :
    Inv (w.poll g l pid io status) := by
  unfold World.poll
  split
  · dsimp only
    split
    · exact hi.manager ha (Manager.ended rfl rfl) rfl (.inr rfl)
    · exact hi.waited ha ho rfl rfl rfl
  · split
    · next hnone =>
      refine hi.waited ha ho ?_ rfl rfl
      rw [← Option.isNone_iff_eq_none.mp hnone, Function.update_eq_self]
    · exact hi

/-! ## Guarded runs -/

namespace World

/-- A download is about to choose its slot. -/
def picksSlot (w : World Bytes) : Bool := w.agent.any (·.picksSlot)

/-- A download chooses its slot only while no pending marker exists, and a commit does not
    fail after it removed the marker. -/
def guarded (w : World Bytes) : Event Bytes → Bool
  | .downloadStep _ => !w.picksSlot || !w.disk.inTrial
  | .helper pid t => (w.helper pid).all fun h => !h.stage.removesAndFails t
  | _ => true

/-- Processes as they are before anything has begun. -/
structure Idle (w : World Bytes) : Prop where
  helper : w.helper = fun _ => none
  agent : ∀ g, w.agent = some g → g.op = none

end World

theorem Inv.of_idle (h : w.Idle) : Inv w := .of_fresh h.helper h.agent

theorem bootStep_idle (w : World Bytes) (s : Startup) : (w.bootStep P s).Idle := by
  unfold World.bootStep
  dsimp only
  split
  · exact ⟨rfl, fun g hg => ((startProcess_spec _ _ _ _).2.2 g hg).1⟩
  · exact ⟨rfl, fun g hg => by simp at hg⟩

theorem downloadStep_slot (hi : Inv w) {t : Manager.DownloadTurn Bytes}
    (ha : w.agent = some g) (hg : g.picksSlot → w.disk.pending = none) :
    Manager.Local g (g.downloadStep P w.disk t).1 w.disk ∧
      (g.downloadStep P w.disk t).2.pending = w.disk.pending ∧
      (w.disk.pending = none ∨ (g.downloadStep P w.disk t).2.slot = w.disk.slot) := by
  obtain ⟨hl, d', hk, hd⟩ := Manager.downloadStep_spec P g w.disk t hg
  refine ⟨hl, ?_, ?_⟩
  · rcases hd with rfl | ⟨s, dir, -, rfl⟩ <;> exact hk.pending
  · rcases hd with rfl | ⟨s, dir, hs, rfl⟩
    · exact .inr hk.slot
    · refine .inl ?_
      unfold Manager.writesSlot at hs
      split at hs <;> try cases hs
      all_goals next ho => exact hi.clear g _ ha ho rfl

theorem guarded_download {t : Manager.DownloadTurn Bytes}
    (ha : w.agent = some g) (hg : w.guarded (.downloadStep t)) : g.picksSlot → w.disk.pending = none := by
  intro hp
  simpa [World.guarded, World.picksSlot, ha, hp, Disk.inTrial] using hg

/-- Step lemma: every guarded step keeps the invariant. -/
theorem Inv.step {e : Event Bytes} (hi : Inv w) (hg : w.guarded e) : Inv (w.step P e) := by
  cases e with
  | check saved => exact hi.agentQuiet fun g => Manager.beginOp_quiet g _ _ saved rfl
  | checked c now saved => exact hi.agentQuiet fun g => Manager.checked_quiet P g _ c now saved
  | download saved => exact hi.agentQuiet fun g => Manager.beginOp_quiet g _ _ saved rfl
  | downloadStep t => exact hi.agentStep fun g ha => downloadStep_slot hi ha (guarded_download ha hg)
  | install saved => exact hi.agentQuiet fun g => Manager.beginOp_quiet g _ _ saved rfl
  | rollback saved => exact hi.agentQuiet fun g => Manager.beginOp_quiet g _ _ saved rfl
  | preflight supervisor other saved => exact hi.agentKeeps fun g => Manager.preflight_spec P g _ supervisor other saved
  | launch io saved =>
    show Inv (w.launchStep io saved)
    unfold World.launchStep
    split
    · next g ha =>
      split
      · next l stage ho => exact hi.launchHelper ha ho
      · exact hi
    · exact hi
  | poll io status =>
    show Inv (w.pollStep io status)
    unfold World.pollStep
    split
    · next g ha =>
      split
      · next l pid ho => exact hi.poll ha ho
      · exact hi
    · exact hi
  | deadline =>
    show Inv w.deadlineStep
    unfold World.deadlineStep
    split
    · next g ha =>
      split
      · next l pid ho => exact hi.waited ha ho rfl rfl rfl
      · exact hi
    · exact hi
  | updateSettings body io saved => exact hi.agentQuiet fun g => Manager.updateSettings_quiet g _ body io saved
  | trialState supervisor saved => exact hi.agentQuiet fun g => Manager.trialState_quiet g _ supervisor saved
  | agentDies =>
    exact ⟨hi.one, hi.marked, fun g op h => (by simp [World.step] at h), fun g l st h => (by simp [World.step] at h),
      fun g l h => (by simp [World.step] at h), hi.ran⟩
  | helper pid t =>
    show Inv (w.helperStep P pid t)
    unfold World.helperStep
    split
    · next h hw =>
      obtain ⟨st, ht⟩ := helperCli_turned (P := P) hw (t := t)
      exact hi.turned hw (by simpa [World.guarded, hw] using hg) ht
    · exact hi
  | helperDies pid =>
    have keep : ∀ p h, (w.setHelper pid none).helper p = some h → w.helper p = some h := by
      intro p h hk
      by_cases hp : p = pid
      · simp [World.setHelper, hp] at hk
      · simpa [World.setHelper, Function.update_of_ne hp] using hk
    exact ⟨fun p q h k h1 l1 h2 l2 => hi.one p q h k (keep p h h1) l1 (keep q k h2) l2,
      fun p h hk => hi.marked p h (keep p h hk), hi.clear, fun g l st ha ho hd p h hk => hi.handed g l st ha ho hd p h (keep p h hk),
      hi.spawning, fun p h b hk => hi.ran p h b (keep p h hk)⟩
  | boot s => exact .of_idle (bootStep_idle w s)

/-! ## The slots of a trial -/

/-- No step taken while the marker exists changes a slot's build, and a commit marks the
    candidate's slot while it holds the build that ran. -/
def TrialSafe (P : Platform Bytes) (w : World Bytes) (e : Event Bytes) : Prop :=
  (w.disk.inTrial → ∀ s, ((w.step P e).disk.slot s).binary = (w.disk.slot s).binary) ∧
    ∀ pid t h child b, e = .helper pid t → w.helper pid = some h → h.stage = .commitActive child b → t.io.effect →
      (w.step P e).disk.activeSlot = some h.args.candidate ∧ (w.step P e).build h.args.candidate = some b

/-- What the script leaves, the agent it starts keeps. -/
theorem bootStep_keeps (w : World Bytes) (s : Startup) :
    Disk.Keeps (Supervisor.boot P w.disk).1 (w.bootStep P s).disk := by
  unfold World.bootStep
  dsimp only
  split
  · next b _ =>
    exact (startProcess_spec ⟨(Supervisor.boot P w.disk).1, none, fun _ => none, w.nextPid⟩ b false s).1
  · exact .refl _

theorem agentStep_slot
    (h : ∀ g, w.agent = some g → (f g).2.slot = w.disk.slot) : (w.agentStep f).disk.slot = w.disk.slot := by
  unfold World.agentStep
  cases ha : w.agent with
  | none => rfl
  | some g => exact h g ha

theorem step_slot {e : Event Bytes} (hi : Inv w) (hg : w.guarded e) (hp : w.disk.inTrial) :
    (w.step P e).disk.slot = w.disk.slot := by
  cases e with
  | check saved => exact agentStep_slot fun g _ => (Manager.beginOp_quiet g _ _ saved rfl).keeps.slot
  | checked c now saved => exact agentStep_slot fun g _ => (Manager.checked_quiet P g _ c now saved).keeps.slot
  | download saved => exact agentStep_slot fun g _ => (Manager.beginOp_quiet g _ _ saved rfl).keeps.slot
  | downloadStep t =>
    refine agentStep_slot fun g ha => ((downloadStep_slot hi ha (guarded_download ha hg)).2.2).resolve_left fun hnone => ?_
    simp [Disk.inTrial, hnone] at hp
  | install saved => exact agentStep_slot fun g _ => (Manager.beginOp_quiet g _ _ saved rfl).keeps.slot
  | rollback saved => exact agentStep_slot fun g _ => (Manager.beginOp_quiet g _ _ saved rfl).keeps.slot
  | preflight supervisor other saved =>
    exact agentStep_slot fun g _ => (Manager.preflight_spec P g _ supervisor other saved).2.slot
  | launch io saved => exact (launchStep_move w io saved).builds.slot
  | poll io status => exact (pollStep_move w io status).builds.slot
  | deadline => exact (deadlineStep_move w).builds.slot
  | updateSettings body io saved => exact agentStep_slot fun g _ => (Manager.updateSettings_quiet g _ body io saved).keeps.slot
  | trialState supervisor saved => exact agentStep_slot fun g _ => (Manager.trialState_quiet g _ supervisor saved).keeps.slot
  | agentDies => rfl
  | helper pid t =>
    show (w.helperStep P pid t).disk.slot = _
    unfold World.helperStep
    split
    · next h hw =>
      obtain ⟨st, ht⟩ := helperCli_turned (P := P) hw (t := t)
      exact ht.slot
    · rfl
  | helperDies pid => rfl
  | boot s => exact (bootStep_keeps w s).slot.trans (Supervisor.boot_spec P w.disk).2.1.1

theorem Inv.trialSafe {e : Event Bytes} (hi : Inv w) (hg : w.guarded e) : TrialSafe P w e := by
  refine ⟨fun hp s => by rw [step_slot hi hg hp], ?_⟩
  rintro pid t h child b rfl hw hs hio
  have hp : w.disk.inTrial := by
    simp [Disk.inTrial, hi.marked pid h hw (by simp [hs, HelperStage.live])]
  have hb : w.build h.args.candidate = some b := hi.ran pid h b hw (by simp [hs, HelperStage.ran])
  constructor
  · simp [World.step, World.helperStep, hw, World.helperCli, hs, hio, Disk.activeSlot, Slot.parse_markerText]
  · simpa only [World.build, step_slot hi hg hp] using hb

/-- Run lemma: in every run whose steps are guarded, from processes that have begun
    nothing, every step is safe for the trial. -/
theorem slots_kept_in_trial {w : World Bytes} {es : List (Event Bytes)} (hw : w.Idle)
    (hg : Along (World.step P) (fun w e => w.guarded e = true) w es) :
    Along (World.step P) (TrialSafe P) w es :=
  along_of_invariant (I := Inv) (fun _ _ hi hg => hi.step hg) (fun _ _ hi hg => hi.trialSafe hg) (.of_idle hw) hg

section

open Device

/-- An install, its trial and its commit, with nothing else going on. -/
def installRun : List (Event Nat) :=
  .boot startup :: (fetchRelease 1 ++ launchTrial (.install .done) 2 ++ List.replicate 4 (.helper 2 (turn true)))

theorem installed_idle : installed.Idle := ⟨rfl, fun g hg => by simp [installed] at hg⟩

theorem install_kept_in_trial :
    Along (World.step platform) (TrialSafe platform) installed installRun ∧
      (exec (World.step platform) installed installRun).disk.activeSlot = some .b := by
  have h : Along (World.step platform) (fun w e => w.guarded e = true) installed installRun := by decide +kernel
  exact ⟨slots_kept_in_trial installed_idle h, by decide +kernel⟩

/-- The trial of release 1, during which its agent downloads release 2. -/
def untilSwap : List (Event Nat) :=
  .boot startup :: (fetchRelease 1 ++ launchTrial (.install .done) 2 ++ (fetchRelease 2).take 5)

def swap : Event Nat := .downloadStep ⟨.ok (64 * 1024 * 1024), .ok 2, .done, .done⟩

def afterSwap : List (Event Nat) := (fetchRelease 2).drop 6 ++ List.replicate 4 (.helper 2 (turn true))

/-- The download overwrites the build on trial; the helper then makes active a slot that
    holds release 2, while the agent that passed the trial is release 1. -/
theorem unguarded_download_replaces_the_candidate :
    ¬ Along (World.step platform) (TrialSafe platform) installed (untilSwap ++ swap :: afterSwap) ∧
      (exec (World.step platform) installed (untilSwap ++ swap :: afterSwap)).disk.activeSlot = some .b ∧
      (exec (World.step platform) installed (untilSwap ++ swap :: afterSwap)).build .b = some 2 ∧
      (exec (World.step platform) installed (untilSwap ++ swap :: afterSwap)).agent.map (·.exe) = some 1 := by
  have swapped : let w := exec (World.step platform) installed untilSwap
      w.disk.inTrial = true ∧ ((w.step platform swap).build .b, w.build .b) = (some 2, some 1) := by decide +kernel
  refine ⟨fun h => ?_, by decide +kernel⟩
  have hs : TrialSafe platform (exec (World.step platform) installed untilSwap) swap := (along_append.mp h).2.1
  have hkept := congrArg (Option.map (·.bytes)) (hs.1 swapped.1 .b)
  have hne := swapped.2
  simp only [World.build, hkept, Prod.mk.injEq] at hne
  exact absurd (hne.1.symm.trans hne.2) (by decide)

end

end OpenU60.Ota
