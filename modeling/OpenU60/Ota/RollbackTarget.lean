/-
  OpenU60.Ota.RollbackTarget — which build a rollback goes back to (`ota/mod.rs`,
  `rollback_inner`, `update_settings`, `reconcile_startup_state`, `block_version`).

  Nothing on disk says that the inactive slot holds a build that has been active before.
  A rollback is refused only while `staged_slot` names that slot; it is accepted as soon
  as the field is cleared, whatever the slot holds, and the blocked list is not asked.

  `Tracked` adds to the processes what the code does not keep: the builds `proven` by a
  committed trial (or by set-up), and whether a slot may be `stray`: its build unproven
  or quarantined, and no longer recorded as staged. A trial that fails leaves a stray
  slot, as does any step that drops the record of a slot the active marker does not name,
  or writes a build into a slot nothing records; a completed download and a commit leave
  none.
  - `rollback_goes_to_proven`: in every `Fair` run an accepted rollback goes to a proven
    build whose version is not blocked.
  - `rollback_reinstalls_the_quarantined_build`: a release fails its trial and is blocked;
    the restored agent forgets that it was staged and accepts a rollback to it.
-/

import OpenU60.Ota.Trial

namespace OpenU60.Ota

open OpenU60.Lib OpenU60.Lib.Machine

variable {Bytes : Type} {P : Platform Bytes}

/-! ## What is proven and what is stray -/

/-- The version a rollback to a slot goes by. -/
def identity (dir : SlotDir Bytes) : String :=
  match readJson dir with
  | some m => m.version
  | none =>
    match dir.bootstrapDigest with
    | some text => String.ofList (textLine 1 text)
    | none => "bootstrap-slot"

namespace World

/-- The slot recorded as holding a staged update: by the agent, or in its state file. -/
def record (w : World Bytes) : Option Slot :=
  match w.agent with
  | some g => g.state.slot
  | none => (w.disk.state.getD .default).slot

/-- The build a step commits: from here on its slot is the active one. -/
def commits (w : World Bytes) : Event Bytes → Option Bytes
  | .helper pid t =>
    match w.helper pid with
    | some h =>
      match h.stage with
      | .commitActive _ b => if t.io.effect then some b else none
      | _ => none
    | none => none
  | _ => none

/-- A download completes in the slot the active marker does not name. -/
def stages (w : World Bytes) : Event Bytes → Bool
  | .downloadStep _ =>
    w.agent.any fun g =>
      match g.op with
      | some (.downloading (.staging _ s)) => w.disk.activeSlot == some s.other
      | _ => false
  | _ => false

/-- A candidate's version goes on the blocked list. -/
def quarantines (w : World Bytes) : Event Bytes → Bool
  | .helper pid t => (w.helper pid).any fun h => h.stage.blocks && t.io.effect
  | _ => false

/-- A download writes its build into a slot that is not recorded as staged. -/
def swapsUnrecorded (w : World Bytes) : Event Bytes → Bool
  | .downloadStep t =>
    w.agent.any fun g =>
      match g.op with
      | some (.downloading (.swappingBinary _ s _)) => t.io.effect && w.record != some s
      | _ => false
  | _ => false

/-- The rollback a step accepts: its checks have passed and it goes on to launch the helper. -/
def acceptsRollback (P : Platform Bytes) (w : World Bytes) : Event Bytes → Option Handover
  | .preflight supervisor other saved =>
    w.agent.bind fun g =>
      match g.op, (g.preflight P w.disk supervisor other saved).1.op with
      | some .rollingBack, some (.launching l _) => some l
      | _, _ => none
  | _ => none

/-- The record of a slot that is not the active one is gone. -/
def forgets (w w' : World Bytes) : Bool :=
  w.record.any fun s => w'.record != some s && w'.disk.activeSlot != some s

end World

structure Tracked (Bytes : Type) where
  w : World Bytes
  proven : List Bytes
  stray : Bool

namespace Tracked

def step (P : Platform Bytes) (t : Tracked Bytes) (e : Event Bytes) : Tracked Bytes where
  w := t.w.step P e
  proven := t.proven ++ (t.w.commits e).toList
  stray :=
    if (t.w.commits e).isSome || t.w.stages e then false
    else t.stray || t.w.forgets (t.w.step P e) || t.w.quarantines e || t.w.swapsUnrecorded e

/-- A rollback that is accepted goes to a proven build, under a version that is not
    blocked. -/
def RollbackSafe (P : Platform Bytes) (t : Tracked Bytes) (e : Event Bytes) : Prop :=
  ∀ l, t.w.acceptsRollback P e = some l →
    (∃ b, t.w.build l.candidate = some b ∧ b ∈ t.proven) ∧ l.version ∉ t.w.disk.blocked

/-- An install is of a version that is not blocked; a rollback is asked for with no stray
    slot; a failing candidate has another version than the slot fallen back to; a boot
    starts the slot its markers name, or falls back to one that is neither recorded as
    staged nor stray. -/
def fair (P : Platform Bytes) (t : Tracked Bytes) (e : Event Bytes) : Bool :=
  t.w.guarded e &&
    match e with
    | .preflight .. =>
      t.w.agent.all fun g =>
        match g.op with
        | some .installing => g.state.staged.all fun m => !t.w.disk.blocked.contains m.version
        | some .rollingBack => !t.stray
        | _ => true
    | .helper pid _ =>
      (t.w.helper pid).all fun h => !h.stage.blocks || identity (t.w.disk.slot h.args.previous) != h.args.version
    | .boot _ =>
      match (Supervisor.boot P t.w.disk).2 with
      | some (.slot s) =>
        Supervisor.recordedPrevious t.w.disk == some s || Supervisor.markedSlot t.w.disk.active == some s ||
          t.w.record != some s && !t.stray
      | _ => true
    | _ => true

/-- The slot's build is proven and its version not blocked. -/
def Good (t : Tracked Bytes) (s : Slot) : Prop :=
  (∀ b, t.w.build s = some b → b ∈ t.proven) ∧ identity (t.w.disk.slot s) ∉ t.w.disk.blocked

/-- Set-up has just verified both slots. -/
structure Start (t : Tracked Bytes) : Prop where
  idle : t.w.Idle
  pending : t.w.disk.pending = none
  marker : ∃ s, t.w.disk.active = some (Disk.markerText s)
  good : ∀ s, t.Good s

end Tracked

/-! ## The invariant -/

theorem activeSlot_congr {d d' : Disk Bytes} (h : d'.active = d.active) : d'.activeSlot = d.activeSlot := by
  simp only [Disk.activeSlot, h]

namespace HelperStage

/-- The candidate has not been made active, nor has it failed. -/
def untried : HelperStage Bytes → Bool
  | ready | waitParent | spawn | trial _ _ | commitActive _ _ => true
  | _ => false

theorem Next.untried_of {s r : HelperStage Bytes} (h : s.Next r) (hr : r.untried ∨ r.blocks) : s.untried := by
  cases h <;> simp_all [HelperStage.untried, HelperStage.blocks]

theorem live_of_untried {s : HelperStage Bytes} (h : s.untried) : s.live := by
  cases s <;> simp_all [HelperStage.untried, HelperStage.live]

theorem live_of_blocks {s : HelperStage Bytes} (h : s.blocks) : s.live := by
  cases s <;> simp_all [HelperStage.blocks, HelperStage.live]

end HelperStage

namespace Tracked

/-- A candidate that may be tried: the other slot's, its version not blocked, and no
    marker says it is active. -/
structure Launchable (t : Tracked Bytes) (l : Handover) : Prop where
  other : l.candidate = l.previous.other
  inactive : t.w.disk.activeSlot ≠ some l.candidate
  allowed : identity (t.w.disk.slot l.candidate) ∉ t.w.disk.blocked

structure Kept (t : Tracked Bytes) : Prop where
  base : Inv t.w
  accounted : ∀ s, t.Good s ∨ t.w.record = some s ∨ t.stray = true
  active : ∀ s, t.w.disk.activeSlot = some s → t.Good s
  readable : ∀ s, Supervisor.markedSlot t.w.disk.active = some s → t.w.disk.activeSlot = some s
  fallback : ∀ text, t.w.disk.pending = some text →
    ∃ c p v, text = Disk.pendingText c p v ∧ t.Good p
  launching : ∀ g l, t.w.agent = some g → g.launches = some l → t.Launchable l ∧ t.Good l.previous
  trying : ∀ p h, t.w.helper p = some h → h.stage.untried → t.Launchable h.args
  failing : ∀ p h, t.w.helper p = some h → h.stage.blocks →
    h.args.candidate = h.args.previous.other ∧ t.w.disk.activeSlot ≠ some h.args.candidate
  writing : ∀ g s, t.w.agent = some g → g.target = some s → t.w.disk.activeSlot ≠ some s
  swapped : ∀ g s, t.w.agent = some g → g.swapped = some s → t.w.record = some s ∨ t.stray = true

variable {t t' : Tracked Bytes} {s : Slot}

theorem Good.of_same (h : t.Good s) (hs : t'.w.disk.slot s = t.w.disk.slot s)
    (hb : t'.w.disk.blocked = t.w.disk.blocked) (hp : ∀ b ∈ t.proven, b ∈ t'.proven) : t'.Good s := by
  refine ⟨fun b hb' => hp b (h.1 b ?_), ?_⟩
  · simpa [World.build, hs] using hb'
  · rw [hs, hb]
    exact h.2

theorem Launchable.of_same {l : Handover} (h : t.Launchable l)
    (hs : t'.w.disk.slot = t.w.disk.slot) (ha : t'.w.disk.active = t.w.disk.active)
    (hb : t'.w.disk.blocked = t.w.disk.blocked) : t'.Launchable l :=
  ⟨h.other, activeSlot_congr ha ▸ h.inactive, by rw [hs, hb]; exact h.allowed⟩

/-- The step writes no build, active marker or blocked list, and stray is what is
    forgotten on the way. -/
structure Still (t t' : Tracked Bytes) : Prop where
  slot : t'.w.disk.slot = t.w.disk.slot
  active : t'.w.disk.active = t.w.disk.active
  blocked : t'.w.disk.blocked = t.w.disk.blocked
  proven : t'.proven = t.proven
  stray : t'.stray = (t.stray || t.w.forgets t'.w)

theorem Still.good (h : Still t t') (hg : t.Good s) : t'.Good s :=
  hg.of_same (by rw [h.slot]) h.blocked fun b hb => by rw [h.proven]; exact hb

/-- The record of a slot is still there, or gone with the slot counted as stray or active. -/
theorem forgets_cases {w : World Bytes} (w' : World Bytes) (h : w.record = some s) :
    w'.record = some s ∨ w.forgets w' = true ∨ w'.disk.activeSlot = some s := by
  by_cases hr : w'.record = some s
  · exact .inl hr
  · by_cases ha : w'.disk.activeSlot = some s
    · exact .inr (.inr ha)
    · exact .inr (.inl (by simp [World.forgets, h, hr, ha]))

/-- What a slot is after a step whose stray is what is forgotten on the way. -/
theorem Kept.accounts (hk : Kept t) (hstray : t'.stray = (t.stray || t.w.forgets t'.w)) (hgood : ∀ s, t.Good s → t'.Good s)
    (hact : ∀ s, t'.w.disk.activeSlot = some s → t'.Good s) (s : Slot) : t'.Good s ∨ t'.w.record = some s ∨ t'.stray = true := by
  rcases hk.accounted s with h | h | h
  · exact .inl (hgood s h)
  · rcases forgets_cases t'.w h with h' | h' | h'
    · exact .inr (.inl h')
    · exact .inr (.inr (by rw [hstray, h', Bool.or_true]))
    · exact .inl (hact s h')
  · exact .inr (.inr (by rw [hstray, h, Bool.true_or]))

/-- Where the agent has no operation and no helper is in charge, the slots are all there is to account for. -/
theorem Kept.settled (hb : Inv t.w) (hop : ∀ g, t.w.agent = some g → g.op = none) (hlive : ∀ p h, t.w.helper p = some h → h.stage.live = false)
    (hpend : t.w.disk.pending = none) (hacc : ∀ s, t.Good s ∨ t.w.record = some s ∨ t.stray = true) (hact : ∀ s, t.w.disk.activeSlot = some s → t.Good s)
    (hread : ∀ s, Supervisor.markedSlot t.w.disk.active = some s → t.w.disk.activeSlot = some s) : Kept t := by
  refine ⟨hb, hacc, hact, hread, by simp [hpend], fun g l hg hl => ?_, fun p h hh hu => ?_, fun p h hh hu => ?_, fun g s hg ht => ?_, fun g s hg ht => ?_⟩
  · simp [Manager.launches, hop g hg] at hl
  · exact absurd (HelperStage.live_of_untried hu) (by simp [hlive p h hh])
  · exact absurd (HelperStage.live_of_blocks hu) (by simp [hlive p h hh])
  · simp [Manager.target, hop g hg] at ht
  · simp [Manager.swapped, hop g hg] at ht

/-- Frame rule: a still step keeps the invariant if what it newly launches, writes or hands
    over to a helper is accounted for. -/
theorem Kept.still (hk : Kept t) (hb : Inv t'.w) (hs : Still t t')
    (hpending : ∀ text, t'.w.disk.pending = some text →
      t.w.disk.pending = some text ∨ ∃ c p v, text = Disk.pendingText c p v ∧ t.Good p)
    (hlaunch : ∀ g l, t'.w.agent = some g → g.launches = some l →
      (∃ g0, t.w.agent = some g0 ∧ g0.launches = some l) ∨ t.Launchable l ∧ t.Good l.previous)
    (htry : ∀ p h, t'.w.helper p = some h → (h.stage.untried ∨ h.stage.blocks) →
      (∃ h0, t.w.helper p = some h0 ∧ h0.args = h.args ∧ (h0.stage.untried ∨ h0.stage = h.stage)) ∨ t.Launchable h.args)
    (hwrite : ∀ g s, t'.w.agent = some g → g.target = some s →
      (∃ g0, t.w.agent = some g0 ∧ g0.target = some s) ∨ t.w.disk.activeSlot ≠ some s)
    (hswap : ∀ g s, t'.w.agent = some g → g.swapped = some s → ∃ g0, t.w.agent = some g0 ∧ g0.swapped = some s) :
    Kept t' := by
  have hactive : ∀ s, t'.w.disk.activeSlot = some s → t'.Good s := by
    intro s hn
    rw [activeSlot_congr hs.active] at hn
    exact hs.good (hk.active s hn)
  have hwriting : ∀ g s, t'.w.agent = some g → g.target = some s → t'.w.disk.activeSlot ≠ some s := by
    intro g s hg ht
    rw [activeSlot_congr hs.active]
    rcases hwrite g s hg ht with ⟨g0, h0, ht0⟩ | h
    · exact hk.writing g0 s h0 ht0
    · exact h
  refine ⟨hb, hk.accounts hs.stray (fun s => hs.good) hactive, hactive, ?_, ?_, ?_, ?_, ?_, hwriting, ?_⟩
  · rw [hs.active, activeSlot_congr hs.active]
    exact hk.readable
  · intro text ht
    rcases hpending text ht with h | ⟨c, p, v, h, hg⟩
    · obtain ⟨c, p, v, h', hg⟩ := hk.fallback text h
      exact ⟨c, p, v, h', hs.good hg⟩
    · exact ⟨c, p, v, h, hs.good hg⟩
  · intro g l hg hl
    rcases hlaunch g l hg hl with ⟨g0, h0, hl0⟩ | ⟨h, hp⟩
    · obtain ⟨h, hp⟩ := hk.launching g0 l h0 hl0
      exact ⟨h.of_same hs.slot hs.active hs.blocked, hs.good hp⟩
    · exact ⟨h.of_same hs.slot hs.active hs.blocked, hs.good hp⟩
  · intro p h hh hu
    rcases htry p h hh (.inl hu) with ⟨h0, hh0, ha, h'⟩ | h'
    · have hu0 : h0.stage.untried := by
        rcases h' with h' | h'
        · exact h'
        · rw [h']; exact hu
      rw [← ha]
      exact (hk.trying p h0 hh0 hu0).of_same hs.slot hs.active hs.blocked
    · exact h'.of_same hs.slot hs.active hs.blocked
  · intro p h hh hu
    rw [activeSlot_congr hs.active]
    rcases htry p h hh (.inr hu) with ⟨h0, hh0, ha, h'⟩ | h'
    · rw [← ha]
      rcases h' with h' | h'
      · exact ⟨(hk.trying p h0 hh0 h').other, (hk.trying p h0 hh0 h').inactive⟩
      · exact hk.failing p h0 hh0 (by rw [h']; exact hu)
    · exact ⟨h'.other, h'.inactive⟩
  · intro g s hg hsw
    obtain ⟨g0, h0, hs0⟩ := hswap g s hg hsw
    rcases hk.swapped g0 s h0 hs0 with h | h
    · rcases forgets_cases t'.w h with h' | h' | h'
      · exact .inl h'
      · exact .inr (by rw [hs.stray, h', Bool.or_true])
      · exact absurd h' (hwriting g s hg (Manager.target_of_swapped hsw))
    · exact .inr (by rw [hs.stray, h, Bool.true_or])

/-! ### The manager's steps -/

theorem step_still {e : Event Bytes} (hc : t.w.commits e = none) (hst : t.w.stages e = false)
    (hq : t.w.quarantines e = false) (hu : t.w.swapsUnrecorded e = false)
    (hb : SameBuilds t.w.disk (t.w.step P e).disk) : Still t (t.step P e) :=
  ⟨hb.slot, hb.active, hb.blocked, by simp [Tracked.step, hc], by simp [Tracked.step, hc, hst, hq, hu]⟩

theorem Kept.quiet (hk : Kept t) (hb : Inv t'.w) (hs : Still t t')
    {f : Manager Bytes → Manager Bytes × Disk Bytes} (hw : t'.w = t.w.agentStep f)
    (hf : ∀ g, t.w.agent = some g → Manager.Quiet g (f g).1 t.w.disk (f g).2) : Kept t' := by
  have hhelper : t'.w.helper = t.w.helper := by
    rw [hw]
    unfold World.agentStep
    split <;> rfl
  have hpend : t'.w.disk.pending = t.w.disk.pending := by
    rw [hw]
    unfold World.agentStep
    split
    · next g ha => exact (hf g ha).keeps.pending
    · rfl
  -- an operation that is past its first stage was there before
  have hold : ∀ g, t'.w.agent = some g → (g.target = none ∧ g.swapped = none ∧ g.launches = none) ∨
      ∃ g0, t.w.agent = some g0 ∧ g.op = g0.op := by
    intro g hg
    cases ha : t.w.agent with
    | none => simp [hw, World.agentStep, ha] at hg
    | some g0 =>
      have hg' : (f g0).1 = g := by simpa [hw, World.agentStep, ha] using hg
      subst hg'
      rcases (hf g0 ha).op with h | h
      · exact .inr ⟨g0, rfl, h⟩
      · exact .inl (Manager.target_of_begins h)
  refine hk.still hb hs (fun text h => .inl (hpend ▸ h)) (fun g l hg hl => .inl ?_)
    (fun p h hh hu => .inl ⟨h, hhelper ▸ hh, rfl, .inr rfl⟩) (fun g s hg ht => .inl ?_) (fun g s hg hsw => ?_)
  · rcases hold g hg with h | ⟨g0, h0, ho⟩
    · simp [h.2.2] at hl
    · exact ⟨g0, h0, by rw [← (Manager.target_congr ho).2.2]; exact hl⟩
  · rcases hold g hg with h | ⟨g0, h0, ho⟩
    · simp [h.1] at ht
    · exact ⟨g0, h0, by rw [← (Manager.target_congr ho).1]; exact ht⟩
  · rcases hold g hg with h | ⟨g0, h0, ho⟩
    · simp [h.2.1] at hsw
    · exact ⟨g0, h0, by rw [← (Manager.target_congr ho).2.1]; exact hsw⟩

theorem agentStep_builds {w : World Bytes} {f : Manager Bytes → Manager Bytes × Disk Bytes}
    (h : ∀ g, w.disk.Keeps (f g).2) : SameBuilds w.disk (w.agentStep f).disk := by
  unfold World.agentStep
  split
  · next g _ => exact ⟨(h g).slot, (h g).stable, (h g).active, (h g).blocked⟩
  · exact .refl _

theorem Kept.quietStep {e : Event Bytes} {f : Manager Bytes → Manager Bytes × Disk Bytes} (hk : Kept t) (hg : t.w.guarded e)
    (hw : t.w.step P e = t.w.agentStep f) (hc : t.w.commits e = none) (hst : t.w.stages e = false) (hq : t.w.quarantines e = false)
    (hu : t.w.swapsUnrecorded e = false) (hf : ∀ g, Manager.Quiet g (f g).1 t.w.disk (f g).2) : Kept (t.step P e) :=
  hk.quiet (hk.base.step hg) (step_still hc hst hq hu (by rw [hw]; exact agentStep_builds fun g => (hf g).keeps)) hw fun g _ => hf g

/-! ### Preflight -/

theorem identity_of_staged {dir : SlotDir Bytes} {m : ReleaseManifest} (h : verifyStagedSlot P dir m = .ok ()) :
    identity dir = m.version := by
  unfold verifyStagedSlot at h
  split at h
  · cases h
  · next stored hj =>
    split at h
    · cases h
    · next he =>
      have : stored = m := by simpa using he
      simp [identity, hj, this]

/-- A rollback goes by the slot's identity, and the slot holds a build. -/
theorem identity_of_rollback {dir : SlotDir Bytes} {v : String} (h : verifyRollbackSlot P dir = .ok v) :
    v = identity dir ∧ dir.binary.isSome := by
  unfold verifyRollbackSlot at h
  split at h
  · next m hj =>
    split at h
    · cases h
    · next b hv =>
      obtain ⟨⟨f, hf, -⟩, -⟩ := verifyReleaseBinary_ok hv
      cases h
      exact ⟨by simp [identity, hj], by simp [hf]⟩
  · next hj =>
    split at h
    · next hd =>
      split at h
      · cases h
      · next version hv =>
        cases h
        obtain ⟨text, f, ht, hv, hf, -⟩ := verifyBootstrapSlot_ok hv
        exact ⟨by simp [identity, hj, ht, hv], by simp [hf]⟩
    · next hd =>
      split at h
      · next hx =>
        cases h
        have hnone : dir.bootstrapDigest = none := by simpa using hd
        refine ⟨by simp [identity, hj, hnone], ?_⟩
        cases hb : dir.binary with
        | none => simp [Disk.executable, hb] at hx
        | some f => rfl
      · cases h

theorem Kept.unrecorded (hk : Kept t) (hr : t.w.record ≠ some s)
    (hs : t.stray = false) : t.Good s := by
  rcases hk.accounted s with h | h | h
  · exact h
  · exact absurd h hr
  · simp [hs] at h

theorem Kept.preflight (hk : Kept t) {supervisor : Io} {other : Option String} {saved : Io}
    (hf : t.fair P (.preflight supervisor other saved)) : Kept (t.step P (.preflight supervisor other saved)) := by
  have hg : t.w.guarded (.preflight supervisor other saved) := rfl
  have hb : SameBuilds t.w.disk (t.w.step P (.preflight supervisor other saved)).disk :=
    agentStep_builds fun g => (Manager.preflight_spec P g _ supervisor other saved).2
  have hhelper : (t.w.step P (.preflight supervisor other saved)).helper = t.w.helper := by
    simp only [World.step, World.agentStep]
    split <;> rfl
  have hpend : (t.w.step P (.preflight supervisor other saved)).disk.pending = t.w.disk.pending := by
    simp only [World.step, World.agentStep]
    split
    · exact (Manager.preflight_spec P _ _ supervisor other saved).2.pending
    · rfl
  have hop : ∀ g', (t.step P (.preflight supervisor other saved)).w.agent = some g' →
      ∃ g, t.w.agent = some g ∧ (g.preflight P t.w.disk supervisor other saved).1 = g' := by
    intro g' hg'
    cases ha : t.w.agent with
    | none => simp [Tracked.step, World.step, World.agentStep, ha] at hg'
    | some g => exact ⟨g, rfl, by simpa [Tracked.step, World.step, World.agentStep, ha] using hg'⟩
  refine hk.still (hk.base.step hg) (step_still rfl rfl rfl rfl hb) (fun text h => .inl (hpend ▸ h)) ?_
    (fun p h hh _ => .inl ⟨h, hhelper ▸ hh, rfl, .inr rfl⟩) ?_ ?_
  · intro g' l hg' hl
    obtain ⟨g, ha, hpre⟩ := hop g' hg'
    rcases Manager.preflight_launching P hpre with ho | ho | ⟨l', ho, hcheck⟩
    · exact .inl ⟨g, ha, by rw [← (Manager.target_congr ho).2.2]; exact hl⟩
    · simp [Manager.launches, ho] at hl
    · obtain rfl : l' = l := by simpa [Manager.launches, ho] using hl
      right
      rcases hcheck with ⟨hi, hc⟩ | ⟨hr, hc⟩
      · obtain ⟨hact, hcand, -, m, hm, hv, hst⟩ := Manager.installCheck_ok P hc
        have hall : m.version ∉ t.w.disk.blocked := by simpa [Tracked.fair, hg, ha, hi, hm] using hf
        refine ⟨⟨hcand, fun hn => ?_, ?_⟩, hk.active _ hact⟩
        · exact absurd (hn.symm.trans hact) (by simp [hcand])
        · rw [identity_of_staged hst]
          exact hall
      · obtain ⟨hact, hcand, hrec, -⟩ := Manager.rollbackCheck_ok P hc
        have hstray : t.stray = false := by simpa [Tracked.fair, hg, ha, hr] using hf
        refine ⟨⟨hcand, fun hn => ?_, ?_⟩, hk.active _ hact⟩
        · exact absurd (hn.symm.trans hact) (by simp [hcand])
        · exact (hk.unrecorded (by simpa [World.record, ha] using hrec) hstray).2
  · intro g' s hg' ht
    obtain ⟨g, ha, hpre⟩ := hop g' hg'
    rcases Manager.preflight_launching P hpre with ho | ho | ⟨l', ho, -⟩
    · exact .inl ⟨g, ha, by rw [← (Manager.target_congr ho).1]; exact ht⟩
    · simp [Manager.target, ho] at ht
    · simp [Manager.target, ho] at ht
  · intro g' s hg' ht
    obtain ⟨g, ha, hpre⟩ := hop g' hg'
    rcases Manager.preflight_launching P hpre with ho | ho | ⟨l', ho, -⟩
    · exact ⟨g, ha, by rw [← (Manager.target_congr ho).2.1]; exact ht⟩
    · simp [Manager.swapped, ho] at ht
    · simp [Manager.swapped, ho] at ht

/-! ### Launches -/

theorem Kept.launch (hk : Kept t) (hb : Inv t'.w) (hs : Still t t')
    (hm : LaunchMove t.w t'.w) : Kept t' := by
  have htarget : ∀ g s, t'.w.agent = some g → g.target = some s → t.w.agent = some g := by
    intro g s hg ht
    obtain ⟨g0, h0, -, h' | rfl, -⟩ := hm.agent g hg
    · simp [h'] at ht
    · exact h0
  refine hk.still hb hs (fun text h => ?_) (fun g l hg hl => .inl (hm.launches g l hg hl).1) (fun p h hh _ => ?_)
    (fun g s hg ht => .inl ⟨g, htarget g s hg ht, ht⟩)
    (fun g s hg hsw => ⟨g, htarget g s hg (Manager.target_of_swapped hsw), hsw⟩)
  · rcases hm.pending with hp | hp | ⟨g, l, ha, hl, hp⟩
    · exact .inl (hp ▸ h)
    · simp [hp] at h
    · exact .inr ⟨_, _, _, Option.some.inj (h.symm.trans hp), (hk.launching g l ha hl).2⟩
  · rcases hm.helper p h hh with h' | ⟨-, -, g, ha, hl, -⟩
    · exact .inl ⟨h, h', rfl, .inr rfl⟩
    · exact .inr (hk.launching g _ ha hl).1

/-! ### Downloads -/

/-- A download writes into the slot it has chosen, which is recorded or counted as stray. -/
theorem Kept.writes (hk : Kept t) (hb : Inv t'.w) (hp : t.w.disk.pending = none)
    (hp' : t'.w.disk.pending = none) (ha : t'.w.disk.active = t.w.disk.active)
    (hbl : t'.w.disk.blocked = t.w.disk.blocked) (hpr : t'.proven = t.proven)
    (hslot : ∀ r, r ≠ s → t'.w.disk.slot r = t.w.disk.slot r) (hs : t.w.disk.activeSlot ≠ some s)
    (hrec : t'.w.record = t.w.record) (hrs : t.w.record = some s ∨ t'.stray = true)
    (hst : t.stray = true → t'.stray = true) (hh : t'.w.helper = t.w.helper)
    (hop : ∀ g, t'.w.agent = some g → g.launches = none ∧ ∀ r, g.target = some r → r = s) : Kept t' := by
  have hact : t'.w.disk.activeSlot = t.w.disk.activeSlot := activeSlot_congr ha
  have hgood : ∀ r, r ≠ s → t.Good r → t'.Good r :=
    fun r hr hg => hg.of_same (hslot r hr) hbl fun b hb => by rw [hpr]; exact hb
  have hnot : ∀ p h, t'.w.helper p = some h → h.stage.live = false := fun p h hk' => hk.base.not_live hp (hh ▸ hk')
  refine ⟨hb, fun r => ?_, fun r hr => ?_, ?_, fun text ht => ?_, fun g l hg hl => ?_, fun p h hk' hu => ?_,
    fun p h hk' hu => ?_, fun g r hg ht => ?_, fun g r hg ht => ?_⟩
  · by_cases hr : r = s
    · subst hr
      exact .inr (hrec ▸ hrs)
    · rcases hk.accounted r with h | h | h
      · exact .inl (hgood r hr h)
      · exact .inr (.inl (hrec ▸ h))
      · exact .inr (.inr (hst h))
  · rw [hact] at hr
    exact hgood r (fun e => hs (e ▸ hr)) (hk.active r hr)
  · rw [ha, hact]
    exact hk.readable
  · simp [hp'] at ht
  · simp [(hop g hg).1] at hl
  · exact absurd (HelperStage.live_of_untried hu) (by simp [hnot p h hk'])
  · exact absurd (HelperStage.live_of_blocks hu) (by simp [hnot p h hk'])
  · rw [hact, (hop g hg).2 r ht]
    exact hs
  · rw [hrec, (hop g hg).2 r (Manager.target_of_swapped ht)]
    exact hrs

/-- A step of a download that at most ends it. -/
theorem Kept.downloadQuiet (hk : Kept t) {tn : Manager.DownloadTurn Bytes} (hg : t.w.guarded (.downloadStep tn))
    (hq : ∀ g, t.w.agent = some g → Manager.Quiet g (g.downloadStep P t.w.disk tn).1 t.w.disk (g.downloadStep P t.w.disk tn).2)
    (hst : t.w.stages (.downloadStep tn) = false) (hsw : t.w.swapsUnrecorded (.downloadStep tn) = false) : Kept (t.step P (.downloadStep tn)) := by
  refine hk.quiet (hk.base.step hg) (step_still rfl hst rfl hsw ?_) rfl hq
  show SameBuilds _ (t.w.agentStep _).disk
  unfold World.agentStep
  split
  · next g ha => exact ⟨(hq g ha).keeps.slot, (hq g ha).keeps.stable, (hq g ha).keeps.active, (hq g ha).keeps.blocked⟩
  · exact .refl _

theorem Kept.downloadStep (hk : Kept t) {tn : Manager.DownloadTurn Bytes}
    (hg : t.w.guarded (.downloadStep tn)) : Kept (t.step P (.downloadStep tn)) := by
  have hbase : Inv (t.step P (.downloadStep tn)).w := hk.base.step hg
  cases ha : t.w.agent with
  | none => exact hk.downloadQuiet hg (by simp [ha]) (by simp [World.stages, ha]) (by simp [World.swapsUnrecorded, ha])
  | some g =>
    have hw : t.w.step P (.downloadStep tn) = t.w.withAgent (g.downloadStep P t.w.disk tn) := by
      simp only [World.step, World.agentStep, ha]
    have hrec : t.w.record = g.state.slot := by simp only [World.record, ha]
    have stages : (∀ m s, g.op ≠ some (.downloading (.staging m s))) → t.w.stages (.downloadStep tn) = false := by
      intro h
      unfold World.stages
      rw [ha]
      dsimp only [Option.any_some]
      split
      · next m s ho => exact absurd ho (h m s)
      · rfl
    have swaps : (tn.io.effect = true → ∀ m s b, g.op ≠ some (.downloading (.swappingBinary m s b))) → t.w.swapsUnrecorded (.downloadStep tn) = false := by
      intro h
      unfold World.swapsUnrecorded
      rw [ha]
      dsimp only [Option.any_some]
      split
      · next m s b ho =>
        cases hio : tn.io.effect with
        | false => rfl
        | true => exact absurd ho (h hio m s b)
      · rfl
    have quiet : Manager.Quiet g (g.downloadStep P t.w.disk tn).1 t.w.disk (g.downloadStep P t.w.disk tn).2 →
        t.w.stages (.downloadStep tn) = false → t.w.swapsUnrecorded (.downloadStep tn) = false → Kept (t.step P (.downloadStep tn)) := by
      refine fun hq => hk.downloadQuiet hg fun g' hg' => ?_
      obtain rfl := Option.some.inj (ha.symm.trans hg')
      exact hq
    have fails : ∀ e, g.downloadStep P t.w.disk tn = g.fail t.w.disk e tn.saved →
        t.w.stages (.downloadStep tn) = false → t.w.swapsUnrecorded (.downloadStep tn) = false → Kept (t.step P (.downloadStep tn)) :=
      fun e h => quiet (by rw [h]; exact Manager.fail_quiet ..)
    -- the next stage, with nothing written yet
    have onto : ∀ stage', g.downloadStep P t.w.disk tn = (g.next (.downloading stage'), t.w.disk) →
        t.w.stages (.downloadStep tn) = false → t.w.swapsUnrecorded (.downloadStep tn) = false →
        (∀ s, (g.next (.downloading stage')).target = some s → g.target = some s ∨ t.w.disk.activeSlot ≠ some s) →
        (g.next (.downloading stage')).swapped = none → Kept (t.step P (.downloadStep tn)) := by
      intro stage' hstep hst hsw ht hsw'
      have hw' : t.w.step P (.downloadStep tn) = t.w.withAgent (g.next (.downloading stage'), t.w.disk) := by rw [hw, hstep]
      refine hk.still hbase (step_still rfl hst rfl hsw (by rw [hw']; exact .refl _)) ?_ ?_ ?_ ?_ ?_ <;> simp only [Tracked.step, hw']
      · exact fun text h => .inl h
      · intro g' l hg' hl
        obtain rfl := Option.some.inj hg'
        simp [Manager.launches, Manager.next] at hl
      · exact fun p h hh _ => .inl ⟨h, hh, rfl, .inr rfl⟩
      · intro g' r hg' hr
        obtain rfl := Option.some.inj hg'
        exact (ht r hr).imp_left fun h => ⟨g, ha, h⟩
      · intro g' r hg' hr
        obtain rfl := Option.some.inj hg'
        exact absurd (hsw'.symm.trans hr) (by simp)
    -- a later stage of the download, on the slot it has chosen
    have later : ∀ {stage stage' : DownloadStage Bytes} {s : Slot} {d : Disk Bytes} {error? : Option String},
        g.downloadStep P t.w.disk tn = g.afterIo d error? stage' tn.saved →
        g.op = some (.downloading stage) → (Operation.downloading stage).reliesOnClear → g.target = some s →
        (∀ g' : Manager Bytes, g'.op = some (.downloading stage') → g'.target = some s) →
        (t.w.record = some s ∨ (t.step P (.downloadStep tn)).stray = true) →
        (d = t.w.disk ∨ ∃ dir, d = t.w.disk.setSlot s dir) → t.w.stages (.downloadStep tn) = false →
        Kept (t.step P (.downloadStep tn)) := by
      intro stage stage' s d error? hstep ho hr ht ht' hrs hd hst
      have hp : t.w.disk.pending = none := hk.base.clear g _ ha ho hr
      have hkeep : d.Keeps (g.afterIo d error? stage' tn.saved).2 := (Manager.afterIo_spec (d := d) ho hr).2
      have hslot : d.pending = t.w.disk.pending ∧ d.active = t.w.disk.active ∧ d.blocked = t.w.disk.blocked ∧
          ∀ r, r ≠ s → d.slot r = t.w.disk.slot r := by
        rcases hd with rfl | ⟨dir, rfl⟩
        · exact ⟨rfl, rfl, rfl, fun _ _ => rfl⟩
        · exact ⟨rfl, rfl, rfl, fun r hr => by simp [Disk.setSlot, Function.update_of_ne hr]⟩
      have hstep' : t.w.step P (.downloadStep tn) = t.w.withAgent (g.afterIo d error? stage' tn.saved) := by
        rw [hw, hstep]
      have hagent : ∀ g', (t.step P (.downloadStep tn)).w.agent = some g' →
          g' = (g.afterIo d error? stage' tn.saved).1 := by
        intro g' hg'
        simp only [Tracked.step, hstep', World.withAgent, Option.some.injEq] at hg'
        exact hg'.symm
      have hstate : (g.afterIo d error? stage' tn.saved).1.state.slot = g.state.slot := by
        unfold Manager.afterIo
        split <;> rfl
      refine hk.writes hbase (s := s) hp ?_ ?_ ?_ (by simp [Tracked.step, World.commits]) ?_ (hk.writing g s ha ht) ?_ hrs ?_ ?_ ?_
      · show (t.w.step P _).disk.pending = _
        rw [hstep']
        exact hkeep.pending.trans (hslot.1.trans hp)
      · show (t.w.step P _).disk.active = _
        rw [hstep']
        exact hkeep.active.trans hslot.2.1
      · show (t.w.step P _).disk.blocked = _
        rw [hstep']
        exact hkeep.blocked.trans hslot.2.2.1
      · intro r hr
        show (t.w.step P _).disk.slot r = _
        rw [hstep']
        exact (congrFun hkeep.slot r).trans (hslot.2.2.2 r hr)
      · show (t.w.step P _).record = _
        rw [hstep', hrec]
        exact hstate
      · intro h
        simp [Tracked.step, World.commits, hst, h]
      · show (t.w.step P _).helper = _
        rw [hstep']
        rfl
      · intro g' hg'
        rw [hagent g' hg']
        unfold Manager.afterIo
        split
        · refine ⟨by simp [Manager.launches, Manager.next], fun r hr => ?_⟩
          exact Option.some.inj (hr.symm.trans (ht' (g.next (.downloading stage')) rfl))
        · exact ⟨rfl, fun r hr => by cases hr⟩
    have kept : ∀ {s : Slot}, g.swapped = some s → t.w.stages (.downloadStep tn) = false → t.w.record = some s ∨ (t.step P (.downloadStep tn)).stray = true :=
      fun h hst => (hk.swapped g _ ha h).imp_right fun h => by simp [Tracked.step, World.commits, hst, h]
    cases ho : g.op with
    | none => exact quiet (by simp only [Manager.downloadStep, ho]; exact Manager.quiet_refl ..) (stages (by simp [ho])) (swaps (by simp [ho]))
    | some op =>
      cases op with
      | downloading stage =>
        cases stage with
        | begun =>
          cases hd : g.downloadTarget P t.w.disk tn.free with
          | error e => exact fails e (by simp [Manager.downloadStep, ho, hd]) (stages (by simp [ho])) (swaps (by simp [ho]))
          | ok r =>
            obtain ⟨m, s⟩ := r
            have hs : s = (t.w.disk.activeSlot.getD .a).other := Manager.downloadTarget_slot P hd
            refine onto (.fetching m s) (by simp [Manager.downloadStep, ho, hd]) (stages (by simp [ho])) (swaps (by simp [ho])) (fun r hr => .inr ?_) rfl
            obtain rfl : s = r := by simpa [Manager.target, Manager.next] using hr
            rw [hs]
            cases t.w.disk.activeSlot <;> simp
        | fetching m s =>
          cases hd : Manager.received P m tn.answer with
          | error e => exact fails e (by simp [Manager.downloadStep, ho, hd]) (stages (by simp [ho])) (swaps (by simp [ho]))
          | ok b =>
            refine onto (.swappingBinary m s b) (by simp [Manager.downloadStep, ho, hd]) (stages (by simp [ho])) (swaps (by simp [ho])) (fun r hr => .inl ?_) rfl
            simpa [Manager.target, Manager.next, ho] using hr
        | swappingBinary m s b =>
          cases hio : tn.io with
          | failed e =>
            exact fails e (by simp [Manager.downloadStep, Manager.afterIo, ho, hio, Io.effect, Io.error?]) (stages (by simp [ho]))
              (swaps (by simp [hio, Io.effect]))
          | _ =>
            refine later (s := s) (by simp only [Manager.downloadStep, ho]; rfl) ho rfl (by simp [Manager.target, ho])
              (fun g' h => by simp [Manager.target, h]) ?_ ?_ (stages (by simp [ho]))
            · by_cases hr : t.w.record = some s
              · exact .inl hr
              · right
                simp [Tracked.step, World.commits, World.stages, World.swapsUnrecorded, ha, ho, hio, hr, Io.effect]
            · split
              · exact .inr ⟨_, rfl⟩
              · exact .inl rfl
        | swappingMeta m s =>
          refine later (s := s) (by simp only [Manager.downloadStep, ho]; rfl) ho rfl (by simp [Manager.target, ho])
            (fun g' h => by simp [Manager.target, h]) (kept (by simp [Manager.swapped, ho]) (stages (by simp [ho]))) ?_ (stages (by simp [ho]))
          split
          · exact .inr ⟨_, rfl⟩
          · exact .inl rfl
        | retiringDigest m s =>
          refine later (s := s) (by simp only [Manager.downloadStep, ho]; rfl) ho rfl (by simp [Manager.target, ho])
            (fun g' h => by simp [Manager.target, h]) (kept (by simp [Manager.swapped, ho]) (stages (by simp [ho]))) ?_ (stages (by simp [ho]))
          split
          · exact .inr ⟨_, rfl⟩
          · exact .inl rfl
        | staging m s =>
          have hp : t.w.disk.pending = none := hk.base.clear g _ ha ho rfl
          have hs : t.w.disk.activeSlot ≠ some s := hk.writing g s ha (by simp [Manager.target, ho])
          generalize ht : t.step P (.downloadStep tn) = t' at hbase ⊢
          have hw' : t'.w = t.w.withAgent ({ g with op := none }.change t.w.disk (fun p =>
              { p with staged := some m, stagedSlot := some s.asStr, phase := .staged, lastError := none }) tn.saved) := by
            rw [← ht]
            simp only [Tracked.step, hw, Manager.downloadStep, ho]
          have hrec' : t'.w.record = some s := by
            rw [hw']
            show Slot.parse s.asStr = some s
            cases s <;> decide
          have hgood : ∀ r, t.Good r → t'.Good r :=
            fun r hg => hg.of_same (by rw [hw']; rfl) (by rw [hw']; rfl) fun b hb => by rw [← ht]; simpa [Tracked.step, World.commits] using hb
          have hactive : t'.w.disk.activeSlot = t.w.disk.activeSlot := by
            rw [hw']
            rfl
          have hact : ∀ r, t'.w.disk.activeSlot = some r → t'.Good r := fun r hr => hgood r (hk.active r (hactive ▸ hr))
          refine Kept.settled hbase (fun g' hg' => ?_) (fun p h hh => ?_) (by rw [hw']; exact hp) (fun r => ?_) hact ?_
          · rw [hw'] at hg'
            obtain rfl := Option.some.inj hg'
            rfl
          · rw [hw'] at hh
            exact hk.base.not_live hp hh
          · rcases Slot.eq_or_other s r with rfl | rfl
            · exact .inr (.inl hrec')
            · -- the other slot is the active one, or what was true of it is
              by_cases hother : t.w.disk.activeSlot = some s.other
              · exact .inl (hgood _ (hk.active _ hother))
              · refine hk.accounts ?_ hgood hact s.other
                rw [← ht]
                simp [Tracked.step, World.commits, World.stages, World.quarantines, World.swapsUnrecorded, ha, ho, hother]
          · rw [hactive, hw']
            exact hk.readable
      | checking | installing | rollingBack | launching =>
        exact quiet (by simp only [Manager.downloadStep, ho]; exact Manager.quiet_refl ..) (stages (by simp [ho])) (swaps (by simp [ho]))

/-! ### Helpers -/

theorem pendingText_previous {c p c' p' : Slot} {v v' : List Char}
    (h : Disk.pendingText c p v = Disk.pendingText c' p' v') : p = p' := by
  have hl := congrArg (line 1) h
  rw [(line_pendingText c p v).2, (line_pendingText c' p' v').2] at hl
  cases p <;> cases p' <;> first | rfl | exact absurd hl (by decide)

variable {pid : Nat} {h : Helper Bytes}

/-- The slot a live helper would fall back to is good. -/
theorem Kept.previous (hk : Kept t) (hw : t.w.helper pid = some h)
    (hl : h.stage.live) : t.Good h.args.previous := by
  obtain ⟨c, p, v, ht, hg⟩ := hk.fallback _ (hk.base.marked pid h hw hl)
  rw [pendingText_previous ht]
  exact hg

/-- While a helper is in charge the agent launches and downloads nothing. -/
theorem Kept.alone (hk : Kept t) (hw : t.w.helper pid = some h)
    (hl : h.stage.live) {g : Manager Bytes} (ha : t.w.agent = some g) :
    g.target = none ∧ g.swapped = none ∧ g.launches = none := by
  have hp := hk.base.marked pid h hw hl
  have hno : ∀ op, g.op = some op → op.reliesOnClear = false := by
    intro op ho
    cases hr : op.reliesOnClear with
    | false => rfl
    | true => exact absurd (hk.base.clear g op ha ho hr) (by simp [hp])
  cases ho : g.op with
  | none => simp [Manager.target, Manager.swapped, Manager.launches, ho]
  | some op =>
    have hr := hno op ho
    cases op with
    | downloading stage => cases stage <;> simp_all [Manager.target, Manager.swapped, Manager.launches, Operation.reliesOnClear]
    | launching l stage =>
      cases stage with
      | spawn => cases hk.base.handed g l .spawn ha ho rfl pid h hw hl
      | _ => simp_all [Manager.target, Manager.swapped, Manager.launches, Operation.reliesOnClear]
    | _ => simp [Manager.target, Manager.swapped, Manager.launches, ho]

/-- A live helper acts and goes on to a stage that tries nothing. -/
theorem Kept.acts (hk : Kept t) (hb : Inv t'.w) {h k : Helper Bytes}
    (hw : t.w.helper pid = some h) (hl : h.stage.live) (hh : t'.w.helper = Function.update t.w.helper pid (some k))
    (hu : k.stage.untried = false) (hbl : k.stage.blocks = false)
    (ha : ∀ g, t'.w.agent = some g → t.w.agent = some g)
    (hacc : ∀ s, t'.Good s ∨ t'.w.record = some s ∨ t'.stray = true)
    (hact : ∀ s, t'.w.disk.activeSlot = some s → t'.Good s)
    (hread : ∀ s, Supervisor.markedSlot t'.w.disk.active = some s → t'.w.disk.activeSlot = some s)
    (hpend : t'.w.disk.pending = t.w.disk.pending) (hprev : t'.Good h.args.previous) : Kept t' := by
  have hnone : ∀ p m, t'.w.helper p = some m → m.stage.untried = false ∧ m.stage.blocks = false := by
    intro p m hm
    rw [hh] at hm
    by_cases hp : p = pid
    · subst hp
      rw [Function.update_self] at hm
      obtain rfl := Option.some.inj hm
      exact ⟨hu, hbl⟩
    · rw [Function.update_of_ne hp] at hm
      have hlive : m.stage.live = false := by
        cases hml : m.stage.live with
        | false => rfl
        | true => exact absurd (hk.base.one p pid m h hm hml hw hl) hp
      constructor
      · cases hmu : m.stage.untried with
        | false => rfl
        | true => simp [HelperStage.live_of_untried hmu] at hlive
      · cases hmb : m.stage.blocks with
        | false => rfl
        | true => simp [HelperStage.live_of_blocks hmb] at hlive
  refine ⟨hb, hacc, hact, hread, fun text ht => ?_, fun g l hg hl' => ?_, fun p m hm h' => ?_, fun p m hm h' => ?_,
    fun g s hg ht => ?_, fun g s hg ht => ?_⟩
  · rw [hpend, hk.base.marked pid h hw hl] at ht
    exact ⟨_, _, _, (Option.some.inj ht).symm, hprev⟩
  · simp [(hk.alone hw hl (ha g hg)).2.2] at hl'
  · simp [(hnone p m hm).1] at h'
  · simp [(hnone p m hm).2] at h'
  · simp [(hk.alone hw hl (ha g hg)).1] at ht
  · simp [(hk.alone hw hl (ha g hg)).2.1] at ht

theorem Good.of_more (h : t.Good s) (hs : t'.w.disk.slot = t.w.disk.slot)
    (hb : t'.w.disk.blocked = t.w.disk.blocked) (hp : t'.proven = t.proven) : t'.Good s :=
  h.of_same (by rw [hs]) hb fun b hb' => by rw [hp]; exact hb'

variable {tn : HelperTurn}

/-- A commit: the candidate becomes active and proven, and nothing is stray. -/
theorem Kept.commit (hk : Kept t) {pid child : Nat} {b : Bytes} (hw : t.w.helper pid = some h) (hs : h.stage = .commitActive child b) (hio : tn.io.effect)
    (hb : Inv (t.step P (.helper pid tn)).w) : Kept (t.step P (.helper pid tn)) := by
  have hl : h.stage.live := by simp [hs, HelperStage.live]
  have hcommits : t.w.commits (.helper pid tn) = some b := by simp [World.commits, hw, hs, hio]
  generalize ht : t.step P (.helper pid tn) = t' at hb ⊢
  have hstep : t'.w = (t.w.onDisk (t.w.disk.writeActive h.args.candidate tn.io)).goes pid h
      (some (if tn.io.ok then .commitLink child b else .recoverActive (some child))) := by
    simp only [← ht, Tracked.step, World.step, World.helperStep, hw, World.helperCli, hs]
  have hproven : t'.proven = t.proven ++ [b] := by simp [← ht, Tracked.step, hcommits]
  have htry := hk.trying pid h hw (by simp [hs, HelperStage.untried])
  have hactive : t'.w.disk.active = some (Disk.markerText h.args.candidate) := by
    simp [hstep, World.goes, World.onDisk, hio]
  have hcand : t'.Good h.args.candidate := by
    refine ⟨fun b' hb' => ?_, ?_⟩
    · have hbuild : t'.w.build h.args.candidate = t.w.build h.args.candidate := by
        simp [hstep, World.build, World.goes, World.onDisk]
      rw [hbuild, hk.base.ran pid h b hw (by simp [hs, HelperStage.ran])] at hb'
      rw [hproven, ← Option.some.inj hb']
      exact List.mem_append_right _ (List.mem_singleton_self b)
    · simp only [hstep]
      exact htry.allowed
  have hprev : t'.Good h.args.previous :=
    (hk.previous hw hl).of_same (by simp [hstep, World.goes, World.onDisk])
      (by simp [hstep, World.goes, World.onDisk])
      fun b' hb' => by rw [hproven]; exact List.mem_append_left _ hb'
  have hall : ∀ s, t'.Good s := by
    intro s
    rcases Slot.eq_or_other h.args.previous s with rfl | rfl
    · exact hprev
    · rw [← htry.other]
      exact hcand
  refine hk.acts hb hw hl (k := { h with stage := if tn.io.ok then .commitLink child b else .recoverActive (some child) })
    ?_ ?_ ?_ ?_ (fun s => .inl (hall s)) (fun s _ => hall s) ?_ ?_ hprev
  · simp only [hstep]
    rfl
  · cases tn.io.ok <;> rfl
  · cases tn.io.ok <;> rfl
  · intro g hg
    simp only [hstep] at hg
    exact hg
  · intro s hm
    rw [hactive, Supervisor.markedSlot_markerText] at hm
    simp only [Disk.activeSlot, hactive, Option.bind_some, Slot.parse_markerText]
    exact hm
  · simp only [hstep]
    rfl

/-- A failed candidate's version is blocked: its slot counts as stray. -/
theorem Kept.quarantine (hk : Kept t) {child : Option Nat} (hw : t.w.helper pid = some h) (hs : h.stage = .block child) (hio : tn.io.effect)
    (hv : identity (t.w.disk.slot h.args.previous) ≠ h.args.version)
    (hb : Inv (t.step P (.helper pid tn)).w) : Kept (t.step P (.helper pid tn)) := by
  have hl : h.stage.live := by simp [hs, HelperStage.live]
  have hcommits : t.w.commits (.helper pid tn) = none := by simp [World.commits, hw, hs]
  generalize ht : t.step P (.helper pid tn) = t' at hb ⊢
  have hstep : t'.w = (t.w.onDisk (World.blockVersion t.w.disk h.args.version tn.io)).goes pid h
      (some (.recoverActive child)) := by
    simp only [← ht, Tracked.step, World.step, World.helperStep, hw, World.helperCli, hs]
  have hstray : t'.stray = true := by
    simp [← ht, Tracked.step, hcommits, World.stages, World.quarantines, hw, hs, HelperStage.blocks, hio]
  obtain ⟨hother, hinactive⟩ := hk.failing pid h hw (by simp [hs, HelperStage.blocks])
  have hprev : t'.Good h.args.previous := by
    obtain ⟨hproven, hallowed⟩ := hk.previous hw hl
    refine ⟨fun b hb' => ?_, ?_⟩
    · simp only [← ht, Tracked.step, hcommits, Option.toList_none, List.append_nil]
      exact hproven b (by simpa [hstep, World.build, World.goes, World.onDisk] using hb')
    · have hnot : identity (t.w.disk.slot h.args.previous) ∉
          (World.blockVersion t.w.disk h.args.version tn.io).blocked := by
        simp only [World.blockVersion]
        split
        · simp [hallowed, hv]
        · exact hallowed
      simpa [hstep, World.goes, World.onDisk] using hnot
  have hactive : t'.w.disk.active = t.w.disk.active := by
    simp [hstep, World.goes, World.onDisk]
  refine hk.acts hb hw hl (k := { h with stage := .recoverActive child }) ?_ rfl rfl ?_ (fun s => .inr (.inr hstray)) ?_ ?_ ?_
    hprev
  · simp only [hstep]
    rfl
  · intro g hg
    simp only [hstep] at hg
    exact hg
  · intro s hact
    rw [activeSlot_congr hactive] at hact
    rcases Slot.eq_or_other h.args.previous s with rfl | rfl
    · exact hprev
    · exact absurd (hother ▸ hact) hinactive
  · rw [hactive, activeSlot_congr hactive]
    exact hk.readable
  · simp only [hstep]
    rfl

/-- The previous slot is marked active again. -/
theorem Kept.restore (hk : Kept t) {child : Option Nat} (hw : t.w.helper pid = some h) (hs : h.stage = .recoverActive child) (hio : tn.io.effect)
    (hb : Inv (t.step P (.helper pid tn)).w) : Kept (t.step P (.helper pid tn)) := by
  have hl : h.stage.live := by simp [hs, HelperStage.live]
  have hcommits : t.w.commits (.helper pid tn) = none := by simp [World.commits, hw, hs]
  generalize ht : t.step P (.helper pid tn) = t' at hb ⊢
  have hstep : ∃ v : World Bytes, v.disk = t.w.disk ∧ v.helper = t.w.helper ∧
      (∀ g, v.agent = some g → t.w.agent = some g) ∧
      t'.w = (v.onDisk (v.disk.writeActive h.args.previous tn.io)).goes pid h
        (some .recoverLink) := by
    simp only [← ht, Tracked.step, World.step, World.helperStep, hw, World.helperCli, hs]
    cases child with
    | none => exact ⟨t.w, rfl, rfl, fun _ hg => hg, rfl⟩
    | some c => exact ⟨t.w.killAgent c, rfl, rfl, fun g hg => (Option.filter_eq_some_iff.mp hg).1, rfl⟩
  obtain ⟨v, hvd, hvh, hva, hstep⟩ := hstep
  have hstray : t'.stray = (t.stray || t.w.forgets t'.w) := by
    simp [← ht, Tracked.step, hcommits, World.stages, World.quarantines, World.swapsUnrecorded, hw, hs, HelperStage.blocks]
  have hgood : ∀ s, t.Good s → t'.Good s := by
    refine fun s hg => hg.of_more ?_ ?_ (by simp [← ht, Tracked.step, hcommits]) <;>
      simp only [hstep, ← hvd] <;> rfl
  have hactive : t'.w.disk.active = some (Disk.markerText h.args.previous) := by
    simp [hstep, World.goes, World.onDisk, hio]
  have hslot : t'.w.disk.activeSlot = some h.args.previous := by
    simp only [Disk.activeSlot, hactive, Option.bind_some, Slot.parse_markerText]
  have hact : ∀ s, t'.w.disk.activeSlot = some s → t'.Good s := by
    intro s hs'
    obtain rfl := Option.some.inj (hslot.symm.trans hs')
    exact hgood _ (hk.previous hw hl)
  refine hk.acts hb hw hl (k := { h with stage := .recoverLink }) ?_ rfl rfl ?_ (hk.accounts hstray hgood hact) hact ?_ ?_
    (hgood _ (hk.previous hw hl))
  · simp only [hstep, ← hvh]
    rfl
  · intro g hg
    simp only [hstep] at hg
    exact hva g hg
  · intro s hm
    rw [hactive, Supervisor.markedSlot_markerText] at hm
    exact hslot.trans hm
  · simp only [hstep, ← hvd]
    rfl

/-- The rescue copy is marked: no slot is active. -/
theorem Kept.rescue (hk : Kept t)
    (hw : t.w.helper pid = some h) (hs : h.stage = .rescueMarker) (hio : tn.io.effect)
    (hb : Inv (t.step P (.helper pid tn)).w) : Kept (t.step P (.helper pid tn)) := by
  have hcommits : t.w.commits (.helper pid tn) = none := by simp [World.commits, hw, hs]
  generalize ht : t.step P (.helper pid tn) = t' at hb ⊢
  have hstep : t'.w = (t.w.onDisk (t.w.disk.writeRescue tn.io)).goes pid h (some .rescueLink) := by
    simp only [← ht, Tracked.step, World.step, World.helperStep, hw, World.helperCli, hs]
  have hstray : t'.stray = (t.stray || t.w.forgets t'.w) := by
    simp [← ht, Tracked.step, hcommits, World.stages, World.quarantines, World.swapsUnrecorded, hw, hs, HelperStage.blocks]
  have hrec : t'.w.record = t.w.record := by
    simp only [hstep]
    rfl
  have hslot : t'.w.disk.slot = t.w.disk.slot ∧
      t'.w.disk.blocked = t.w.disk.blocked := by
    simp only [hstep]
    exact ⟨rfl, rfl⟩
  have hactive : t'.w.disk.active = some Disk.rescueText := by
    simp [hstep, World.goes, World.onDisk, hio]
  have hnone : t'.w.disk.activeSlot = none := by
    simp only [Disk.activeSlot, hactive, Option.bind_some, Slot.parse_rescueText]
  have hgood : ∀ s, t.Good s → t'.Good s :=
    fun s hg => hg.of_more hslot.1 hslot.2 (by simp [← ht, Tracked.step, hcommits])
  have hlaunch : ∀ l, t.Launchable l → t'.Launchable l :=
    fun l hl => ⟨hl.other, by simp [hnone], by rw [hslot.1, hslot.2]; exact hl.allowed⟩
  have hagent : t'.w.agent = t.w.agent := by
    simp only [hstep]
    rfl
  have hhelper : ∀ p m, t'.w.helper p = some m → (m.stage.untried ∨ m.stage.blocks) →
      t.w.helper p = some m := by
    intro p m hm hu
    simp only [hstep] at hm
    by_cases hp : p = pid
    · subst hp
      have hm' : some { h with stage := .rescueLink } = some m := by
        rw [← hm]
        simp [World.goes]
      obtain rfl := Option.some.inj hm'
      simp [HelperStage.untried, HelperStage.blocks] at hu
    · simpa [World.goes, World.onDisk, Function.update_of_ne hp] using hm
  refine ⟨hb, hk.accounts hstray hgood (by simp [hnone]), by simp [hnone], by simp [hactive], fun text ht => ?_, fun g l hg hl => ?_,
    fun p m hm hu => ?_, fun p m hm hu => ?_, by simp [hnone], fun g s hg hsw => ?_⟩
  · simp only [hstep] at ht
    obtain ⟨c, p, v, h1, h2⟩ := hk.fallback text ht
    exact ⟨c, p, v, h1, hgood p h2⟩
  · obtain ⟨h1, h2⟩ := hk.launching g l (hagent ▸ hg) hl
    exact ⟨hlaunch l h1, hgood _ h2⟩
  · exact hlaunch _ (hk.trying p m (hhelper p m hm (.inl hu)) hu)
  · exact ⟨(hk.failing p m (hhelper p m hm (.inr hu)) hu).1, by simp [hnone]⟩
  · rw [hrec, hstray]
    rcases hk.swapped g s (hagent ▸ hg) hsw with h' | h'
    · exact .inl h'
    · exact .inr (by rw [h', Bool.true_or])

theorem Kept.helperStep (hk : Kept t)
    (hf : t.fair P (.helper pid tn)) : Kept (t.step P (.helper pid tn)) := by
  have hg : t.w.guarded (.helper pid tn) := by
    unfold Tracked.fair at hf
    exact (Bool.and_eq_true_iff.mp hf).1
  have hb : Inv (t.step P (.helper pid tn)).w := hk.base.step hg
  cases hw : t.w.helper pid with
  | none =>
    have hstep : t.w.step P (.helper pid tn) = t.w := by simp [World.step, World.helperStep, hw]
    refine hk.still hb (step_still (by simp [World.commits, hw]) rfl (by simp [World.quarantines, hw]) rfl
      (by rw [hstep]; exact .refl _)) ?_ ?_ ?_ ?_ ?_ <;> simp only [Tracked.step, hstep]
    · exact fun text h => .inl h
    · exact fun g l ha hl => .inl ⟨g, ha, hl⟩
    · exact fun p h hh _ => .inl ⟨h, hh, rfl, .inr rfl⟩
    · exact fun g s ha ht => .inl ⟨g, ha, ht⟩
    · exact fun g s ha ht => ⟨g, ha, ht⟩
  | some h =>
    obtain ⟨st, ht⟩ := helperCli_turned (P := P) hw (t := tn)
    have hfiles : Files h tn t.w.disk (t.w.helperCli P pid h tn).disk := helperCli_files
    have hstep : t.w.step P (.helper pid tn) = t.w.helperCli P pid h tn := by
      simp only [World.step, World.helperStep, hw]
    -- a step that writes neither the active marker nor the blocked list
    have still : (t.w.helperCli P pid h tn).disk.active = t.w.disk.active →
        (t.w.helperCli P pid h tn).disk.blocked = t.w.disk.blocked → t.w.commits (.helper pid tn) = none →
        t.w.quarantines (.helper pid tn) = false → Kept (t.step P (.helper pid tn)) := by
      intro ha hbl hc hq
      have hs : Still t (t.step P (.helper pid tn)) := by
        refine ⟨?_, ?_, ?_, by simp [Tracked.step, hc], ?_⟩
        · simp only [Tracked.step, hstep]
          exact ht.slot
        · simp only [Tracked.step, hstep]
          exact ha
        · simp only [Tracked.step, hstep]
          exact hbl
        · simp [Tracked.step, hc, hq, World.stages, World.swapsUnrecorded]
      have hagent : ∀ g, (t.step P (.helper pid tn)).w.agent = some g → t.w.agent = some g ∨ g.op = none := by
        simp only [Tracked.step, hstep]
        exact ht.agent
      refine hk.still hb hs (fun text h' => .inl ?_) (fun g l hg hl => .inl ?_) (fun p m hm hu => .inl ?_)
        (fun g s hg htg => .inl ?_) (fun g s hg hsw => ?_)
      · simp only [Tracked.step, hstep] at h'
        rcases ht.pending with hp | ⟨-, hp⟩
        · exact hp ▸ h'
        · simp [hp] at h'
      · rcases hagent g hg with h' | h'
        · exact ⟨g, h', hl⟩
        · simp [Manager.launches, h'] at hl
      · simp only [Tracked.step, hstep] at hm
        by_cases hp : p = pid
        · subst hp
          obtain ⟨⟨hargs, -⟩, hnext⟩ := helperCli_next hw hm
          exact ⟨h, hw, hargs.symm, .inl (hnext.untried_of hu)⟩
        · rw [ht.helper, Function.update_of_ne hp] at hm
          exact ⟨m, hm, rfl, .inr rfl⟩
      · rcases hagent g hg with h' | h'
        · exact ⟨g, h', htg⟩
        · simp [Manager.target, h'] at htg
      · rcases hagent g hg with h' | h'
        · exact ⟨g, h', hsw⟩
        · simp [Manager.swapped, h'] at hsw
    have hactive := hfiles.active
    have hblocked := hfiles.blocked
    cases hio : tn.io.effect with
    | false =>
      refine still ?_ ?_ ?_ (by simp [World.quarantines, hw, hio])
      · rw [hactive]
        split <;> simp [hio]
      · simp [hblocked, hio]
      · simp only [World.commits, hw]
        split <;> simp [hio]
    | true =>
      cases hs : h.stage with
      | commitActive child b => exact hk.commit hw hs hio hb
      | block child =>
        refine hk.quarantine hw hs hio ?_ hb
        simpa [Tracked.fair, hg, hw, hs, HelperStage.blocks] using hf
      | recoverActive child => exact hk.restore hw hs hio hb
      | rescueMarker => exact hk.rescue hw hs hio hb
      | _ =>
        refine still ?_ ?_ ?_ ?_
        · simp [hactive, Helper.marker, hs]
        · simp [hblocked, HelperStage.blocks, hs]
        · simp [World.commits, hw, hs]
        · simp [World.quarantines, hw, hs, HelperStage.blocks]

/-! ### Deaths and boots -/

theorem Kept.agentDies (hk : Kept t) : Kept (t.step P .agentDies) := by
  refine hk.still (hk.base.step (P := P) (e := .agentDies) rfl) (step_still rfl rfl rfl rfl (.refl _)) (fun _ h => .inl h) ?_
    (fun p h hh _ => .inl ⟨h, hh, rfl, .inr rfl⟩) ?_ ?_ <;>
  · intro g x hg
    simp [Tracked.step, World.step] at hg

theorem Kept.helperDies (hk : Kept t) (pid : Nat) : Kept (t.step P (.helperDies pid)) :=
  hk.still (hk.base.step (P := P) (e := .helperDies pid) rfl) (step_still rfl rfl rfl rfl (.refl _)) (fun _ h => .inl h)
    (fun g _ hg hl => .inl ⟨g, hg, hl⟩) (fun _ h hh _ => .inl ⟨h, setHelper_none hh, rfl, .inr rfl⟩)
    (fun g _ hg ht => .inl ⟨g, hg, ht⟩) (fun g _ hg ht => ⟨g, hg, ht⟩)

/-- A boot marks active what it starts: a slot the markers name, or one neither recorded
    nor stray. -/
theorem Kept.boot (hk : Kept t) {s : Startup} (hf : t.fair P (.boot s)) :
    Kept (t.step P (.boot s)) := by
  obtain ⟨-, ⟨hslot, -, hblocked, hpend⟩, hstarts, hnone⟩ := Supervisor.boot_spec P t.w.disk
  have hd : Disk.Keeps (Supervisor.boot P t.w.disk).1 (t.w.bootStep P s).disk := bootStep_keeps t.w s
  have hidle : (t.step P (.boot s)).w.Idle := bootStep_idle t.w s
  have hgood : ∀ r, t.Good r → (t.step P (.boot s)).Good r := fun r hg =>
    hg.of_more (hd.slot.trans hslot) (hd.blocked.trans hblocked) (by simp [Tracked.step, World.commits])
  have hactive : (t.step P (.boot s)).w.disk.active = (Supervisor.boot P t.w.disk).1.active := hd.active
  have hcases : (∃ r, (t.step P (.boot s)).w.disk.active = some (Disk.markerText r) ∧ t.Good r) ∨
      (t.step P (.boot s)).w.disk.active = some Disk.rescueText ∨
      (t.step P (.boot s)).w.disk.active = t.w.disk.active := by
    have previous : ∀ p, Supervisor.recordedPrevious t.w.disk = some p → t.Good p := by
      intro p hp
      cases htext : t.w.disk.pending with
      | none => simp [Supervisor.recordedPrevious, htext] at hp
      | some text =>
        obtain ⟨c, q, v, rfl, hg⟩ := hk.fallback text htext
        rw [Supervisor.recordedPrevious_pendingText htext] at hp
        exact Option.some.inj hp ▸ hg
    cases hr : (Supervisor.boot P t.w.disk).2 with
    | none =>
      rw [hactive, hnone hr]
      rcases Supervisor.restore_active P t.w.disk with ⟨p, hp, -, ha⟩ | ⟨-, ha⟩
      · exact .inl ⟨p, ha, previous p hp⟩
      · exact .inr (.inr ha)
    | some target =>
      have ha := (hstarts target hr).2.1
      rw [hactive]
      cases target with
      | stable => exact .inr (.inl ha)
      | slot r =>
        refine .inl ⟨r, ha, ?_⟩
        have hcond : Supervisor.recordedPrevious t.w.disk = some r ∨ Supervisor.markedSlot t.w.disk.active = some r ∨
            t.w.record ≠ some r ∧ t.stray = false := by
          have hf' := hf
          unfold Tracked.fair at hf'
          rw [hr] at hf'
          simpa [World.guarded, or_assoc] using hf'
        rcases hcond with h | h | ⟨h1, h2⟩
        · exact previous r h
        · exact hk.active r (hk.readable r h)
        · exact hk.unrecorded h1 h2
  have hact : ∀ r, (t.step P (.boot s)).w.disk.activeSlot = some r → (t.step P (.boot s)).Good r := by
    intro r hr
    rcases hcases with ⟨q, ha, hg⟩ | ha | ha
    · simp only [Disk.activeSlot, ha, Option.bind_some, Slot.parse_markerText, Option.some.injEq] at hr
      exact hgood r (hr ▸ hg)
    · simp [Disk.activeSlot, ha, Slot.parse_rescueText] at hr
    · rw [activeSlot_congr ha] at hr
      exact hgood r (hk.active r hr)
  have hstray : (t.step P (.boot s)).stray = (t.stray || t.w.forgets (t.step P (.boot s)).w) := by
    simp [Tracked.step, World.commits, World.stages, World.quarantines, World.swapsUnrecorded]
  refine Kept.settled (.of_idle hidle) hidle.agent (by simp [hidle.helper]) (hd.pending.trans hpend) (hk.accounts hstray hgood hact) hact fun r hr => ?_
  rcases hcases with ⟨q, ha, -⟩ | ha | ha
  · rw [ha, Supervisor.markedSlot_markerText] at hr
    simpa only [Disk.activeSlot, ha, Option.bind_some, Slot.parse_markerText] using hr
  · simp [ha] at hr
  · rw [activeSlot_congr ha]
    exact hk.readable r (ha ▸ hr)

/-! ### Runs -/

theorem Start.kept (h : t.Start) : Kept t := by
  obtain ⟨s, hs⟩ := h.marker
  refine Kept.settled (.of_idle h.idle) h.idle.agent (by simp [h.idle.helper]) h.pending (fun r => .inl (h.good r)) (fun r _ => h.good r) fun r hr => ?_
  rw [hs, Supervisor.markedSlot_markerText] at hr
  simpa only [Disk.activeSlot, hs, Option.bind_some, Slot.parse_markerText] using hr

/-- Step lemma: every fair step keeps the invariant. -/
theorem Kept.step {e : Event Bytes} (hk : Kept t) (hf : t.fair P e) : Kept (t.step P e) := by
  have hg : t.w.guarded e := by
    unfold Tracked.fair at hf
    exact (Bool.and_eq_true_iff.mp hf).1
  have hb : Inv (t.step P e).w := hk.base.step hg
  cases e with
  | check saved => exact hk.quietStep hg rfl rfl rfl rfl rfl fun g => Manager.beginOp_quiet g _ _ saved rfl
  | checked c now saved => exact hk.quietStep hg rfl rfl rfl rfl rfl fun g => Manager.checked_quiet P g _ c now saved
  | download saved => exact hk.quietStep hg rfl rfl rfl rfl rfl fun g => Manager.beginOp_quiet g _ _ saved rfl
  | downloadStep tn => exact hk.downloadStep hg
  | install saved => exact hk.quietStep hg rfl rfl rfl rfl rfl fun g => Manager.beginOp_quiet g _ _ saved rfl
  | rollback saved => exact hk.quietStep hg rfl rfl rfl rfl rfl fun g => Manager.beginOp_quiet g _ _ saved rfl
  | preflight supervisor other saved => exact hk.preflight hf
  | launch io saved => exact hk.launch hb (step_still rfl rfl rfl rfl (launchStep_move t.w io saved).builds) (launchStep_move t.w io saved)
  | poll io status => exact hk.launch hb (step_still rfl rfl rfl rfl (pollStep_move t.w io status).builds) (pollStep_move t.w io status)
  | deadline => exact hk.launch hb (step_still rfl rfl rfl rfl (deadlineStep_move t.w).builds) (deadlineStep_move t.w)
  | updateSettings body io saved => exact hk.quietStep hg rfl rfl rfl rfl rfl fun g => Manager.updateSettings_quiet g _ body io saved
  | trialState supervisor saved => exact hk.quietStep hg rfl rfl rfl rfl rfl fun g => Manager.trialState_quiet g _ supervisor saved
  | agentDies => exact hk.agentDies
  | helper pid tn => exact hk.helperStep hf
  | helperDies pid => exact hk.helperDies pid
  | boot s => exact hk.boot hf

/-- A rollback accepted with nothing stray goes to a proven, unblocked build. -/
theorem Kept.rollbackSafe (hk : Kept t) {e : Event Bytes} (hf : t.fair P e) : RollbackSafe P t e := by
  intro l hl
  unfold World.acceptsRollback at hl
  split at hl
  · next supervisor other saved =>
    obtain ⟨g, ha, hl⟩ := Option.bind_eq_some_iff.mp hl
    split at hl
    · next l' stage hr hl' =>
      obtain rfl := Option.some.inj hl
      rcases Manager.preflight_launching P (g := g) rfl with ho | ho | ⟨m, ho, hcheck⟩
      · exact absurd (hl'.symm.trans (ho.trans hr)) (by simp)
      · exact absurd (hl'.symm.trans ho) (by simp)
      · obtain rfl : m = l' := by
          rw [ho] at hl'
          simp only [Option.some.injEq, Operation.launching.injEq] at hl'
          exact hl'.1
        rcases hcheck with ⟨hi, -⟩ | ⟨-, hc⟩
        · simp [hr] at hi
        · obtain ⟨-, -, hrec, hv⟩ := Manager.rollbackCheck_ok P hc
          have hstray : t.stray = false := by
            have hg : t.w.guarded (.preflight supervisor other saved) := rfl
            simpa [Tracked.fair, hg, ha, hr] using hf
          obtain ⟨hproven, hallowed⟩ := hk.unrecorded (by simpa [World.record, ha] using hrec) hstray
          obtain ⟨hid, hbin⟩ := identity_of_rollback hv
          obtain ⟨f, hf'⟩ := Option.isSome_iff_exists.mp hbin
          have hbuild : t.w.build m.candidate = some f.bytes := by simp [World.build, hf']
          exact ⟨⟨f.bytes, hbuild, hproven _ hbuild⟩, hid ▸ hallowed⟩
    · cases hl
  · cases hl

/-- Run lemma: in every fair run from set-up, an accepted rollback goes to a build that has
    been active and passed its trial, never to a blocked version. -/
theorem rollback_goes_to_proven {t : Tracked Bytes} {es : List (Event Bytes)} (hs : t.Start)
    (hf : Along (Tracked.step P) (fun t e => t.fair P e = true) t es) :
    Along (Tracked.step P) (RollbackSafe P) t es :=
  along_of_invariant (I := Kept) (fun _ _ hk hf => hk.step hf) (fun _ _ hk hf => hk.rollbackSafe hf) hs.kept hf

section

open Device

def setUp : Tracked Nat := ⟨installed, [0], false⟩

theorem setUp_start : setUp.Start := by
  refine ⟨installed_idle, rfl, ⟨.a, rfl⟩, fun s => ⟨fun b hb => ?_, by simp [setUp, installed]⟩⟩
  obtain rfl : 0 = b := Option.some.inj hb
  simp [setUp]

/-- An install is committed, and a rollback is asked for. -/
def rollbackRun : List (Event Nat) :=
  .boot startup :: (fetchRelease 1 ++ launchTrial (.install .done) 2 ++ List.replicate 6 (.helper 2 (turn true)) ++
    [.rollback .done])

theorem rollback_returns_to_first_build :
    Along (Tracked.step platform) (RollbackSafe platform) setUp (rollbackRun ++ [.preflight .done none .done]) ∧
      (exec (Tracked.step platform) setUp rollbackRun).w.acceptsRollback platform (.preflight .done none .done) =
        some ⟨.a, .b, "1.0.0"⟩ := by
  have h : Along (Tracked.step platform) (fun t e => t.fair platform e = true) setUp
        (rollbackRun ++ [.preflight .done none .done]) := by decide +kernel
  exact ⟨rollback_goes_to_proven setUp_start h, by decide +kernel⟩

/-- Release 1 fails its trial and is blocked, the first build is restored and a rollback
    is asked for. -/
def quarantineRun : List (Event Nat) :=
  .boot startup :: (fetchRelease 1 ++ launchTrial (.install .done) 2 ++ .helper 2 (turn false) ::
    (List.replicate 5 (.helper 2 (turn true)) ++ [.rollback .done]))

/-- The rollback is accepted, to the release that failed: on the blocked list, never active. -/
theorem rollback_reinstalls_the_quarantined_build :
    ¬ Along (Tracked.step platform) (RollbackSafe platform) setUp (quarantineRun ++ [.preflight .done none .done]) ∧
      (exec (Tracked.step platform) setUp quarantineRun).w.acceptsRollback platform (.preflight .done none .done) =
        some ⟨.b, .a, "1.1.0"⟩ ∧
      (exec (Tracked.step platform) setUp quarantineRun).w.disk.blocked = ["1.1.0"] ∧
      (exec (Tracked.step platform) setUp quarantineRun).w.build .b = some 1 ∧
      (exec (Tracked.step platform) setUp quarantineRun).proven = [0] := by
  have facts : (exec (Tracked.step platform) setUp quarantineRun).w.acceptsRollback platform
        (.preflight .done none .done) = some ⟨.b, .a, "1.1.0"⟩ ∧
      (exec (Tracked.step platform) setUp quarantineRun).w.disk.blocked = ["1.1.0"] ∧
      (exec (Tracked.step platform) setUp quarantineRun).w.build .b = some 1 ∧
      (exec (Tracked.step platform) setUp quarantineRun).proven = [0] := by decide +kernel
  refine ⟨fun h => ?_, facts⟩
  have hs := (along_append.mp h).2.1 _ facts.1
  exact hs.2 (by rw [facts.2.1]; exact List.mem_singleton_self _)

end

end Tracked

end OpenU60.Ota
