/-
  OpenU60.Ota.HelperSteps — what one step of a helper can do (`ota/mod.rs`, `helper_cli`,
  `recover`), said once for every proof about runs.

  `helperCli_turned`: no step of a helper changes a slot; it keeps the pending marker, or
  is the step of a helper in charge that clears it; and a build on trial is the one the
  slot held. `helperCli_next` and `helperCli_files` say which stage may follow which, and
  which stages write the other files.
-/

import OpenU60.Ota.Machine

namespace OpenU60.Ota

open OpenU60.Lib

variable {Bytes : Type} {P : Platform Bytes}

namespace HelperStage

/-- The helper is in charge of a trial: it relies on the pending marker or will clear it. -/
def live : HelperStage Bytes → Bool
  | timeoutReady | stableBinary | stableMeta | recoverStart | rescueStart | rescueMarker | rescueLink => false
  | _ => true

/-- The build on trial or being committed. -/
def ran : HelperStage Bytes → Option Bytes
  | trial _ b | commitActive _ b | commitLink _ b | commitPending _ b => some b
  | _ => none

/-- The helper removes the marker and then reports that it failed to. -/
def removesAndFails (stage : HelperStage Bytes) (t : HelperTurn) : Bool :=
  match stage, t.io with
  | commitPending _ _, .unsynced _ => true
  | _, _ => false

end HelperStage

/-- The build in a slot. -/
def World.build (w : World Bytes) (s : Slot) : Option Bytes := (w.disk.slot s).binary.map (·.bytes)

/-! ## One step of a helper -/

/-- What a step of a helper does to the processes and to what a trial rests on. -/
structure Turned (w : World Bytes) (pid : Nat) (h : Helper Bytes) (t : HelperTurn) (st : Option (HelperStage Bytes))
    (w' : World Bytes) : Prop where
  helper : w'.helper = Function.update w.helper pid (st.map fun s => { h with stage := s })
  live : ∀ s, st = some s → s.live → h.stage.live ∧
    (h.stage.removesAndFails t = false → w'.disk.pending = w.disk.pending)
  ran : ∀ s, st = some s → ∀ b, s.ran = some b → h.stage.ran = some b ∨ w.build h.args.candidate = some b
  slot : w'.disk.slot = w.disk.slot
  pending : w'.disk.pending = w.disk.pending ∨ h.stage.live ∧ w'.disk.pending = none
  agent : ∀ g, w'.agent = some g → w.agent = some g ∨ g.op = none

theorem startProcess_spec (w : World Bytes) (exe : Bytes) (trialEnv : Bool) (s : Startup) :
    w.disk.Keeps (w.startProcess exe trialEnv s).disk ∧ (w.startProcess exe trialEnv s).helper = w.helper ∧
      ∀ g, (w.startProcess exe trialEnv s).agent = some g → g.op = none ∧ g.exe = exe := by
  refine ⟨keeps_startAgent .., rfl, fun g hg => ?_⟩
  obtain rfl := Option.some.inj hg
  exact ⟨(startAgent_fields ..).1, (startAgent_fields ..).2.1⟩

theorem startable_build {d : Disk Bytes} {s : Slot} {b : Bytes} (h : World.startable (d.slot s).binary = some b) :
    (d.slot s).binary.map (·.bytes) = some b := by
  unfold World.startable at h
  cases hb : (d.slot s).binary with
  | none => simp [hb] at h
  | some f =>
    rw [hb] at h
    by_cases hx : f.executable <;> simp_all

theorem clearPending_cases (d : Disk Bytes) (io : Io) :
    (d.clearPending io).pending = d.pending ∨ (d.clearPending io).pending = none := by
  cases hio : io.effect <;> simp [hio]

variable {w : World Bytes} {pid : Nat} {h : Helper Bytes} {t : HelperTurn}

/-- A step that writes at most the disk and goes on to another stage. -/
theorem Turned.of_disk {d : Disk Bytes}
    {st : Option (HelperStage Bytes)} (hs : d.slot = w.disk.slot)
    (hl : ∀ s, st = some s → s.live → h.stage.live ∧
      (h.stage.removesAndFails t = false → d.pending = w.disk.pending))
    (hr : ∀ s, st = some s → ∀ b, s.ran = some b → h.stage.ran = some b)
    (hp : d.pending = w.disk.pending ∨ h.stage.live ∧ d.pending = none) : Turned w pid h t st ((w.onDisk d).goes pid h st) :=
  ⟨rfl, hl, fun s h1 b h2 => .inl (hr s h1 b h2), hs, hp, fun _ hg => .inl hg⟩

theorem Turned.of_goes {st : Option (HelperStage Bytes)}
    (hl : ∀ s, st = some s → s.live → h.stage.live)
    (hr : ∀ s, st = some s → ∀ b, s.ran = some b → h.stage.ran = some b) : Turned w pid h t st (w.goes pid h st) :=
  ⟨rfl, fun s h1 h2 => ⟨hl s h1 h2, fun _ => rfl⟩, fun s h1 b h2 => .inl (hr s h1 b h2), rfl, .inl rfl, fun _ hg => .inl hg⟩

theorem Turned.of_start {st : Option (HelperStage Bytes)}
    {exe : Bytes} {trialEnv : Bool} {s : Startup} (hl : ∀ s, st = some s → s.live → h.stage.live)
    (hr : ∀ s, st = some s → ∀ b, s.ran = some b → w.build h.args.candidate = some b) :
    Turned w pid h t st ((w.startProcess exe trialEnv s).goes pid h st) := by
  obtain ⟨hk, hh, ha⟩ := startProcess_spec w exe trialEnv s
  exact ⟨by funext q; simp [hh], fun s h1 h2 => ⟨hl s h1 h2, fun _ => hk.pending⟩, fun s h1 b h2 => .inr (hr s h1 b h2), hk.slot,
    .inl hk.pending, fun g hg => .inr (ha g hg).1⟩

theorem helperCli_turned
    (hw : w.helper pid = some h) :
    ∃ st, Turned w pid h t st (w.helperCli P pid h t) := by
  unfold World.helperCli
  obtain ⟨exe, trialEnv, parent, args, stage⟩ := h
  cases stage with
  | ready =>
    refine ⟨_, .of_disk rfl (fun _ _ _ => ⟨rfl, fun _ => rfl⟩) (fun s h1 b h2 => ?_) (.inl rfl)⟩
    cases hio : t.io.ok <;> simp [hio] at h1
    simp [← h1, HelperStage.ran] at h2
  | waitParent =>
    dsimp only
    split
    · exact ⟨_, .of_goes (fun _ _ _ => rfl) (by simp [HelperStage.ran])⟩
    · split
      · refine ⟨some .waitParent, ⟨?_, ?_, ?_, rfl, .inl rfl, fun _ hg => .inl hg⟩⟩
        · rw [Option.map_some, ← hw, Function.update_eq_self]
        · exact fun _ _ _ => ⟨rfl, fun _ => rfl⟩
        · simp [HelperStage.ran]
      · exact ⟨_, .of_goes (fun _ _ _ => rfl) (by simp [HelperStage.ran])⟩
  | timeoutPending =>
    exact ⟨_, .of_disk rfl (by simp [HelperStage.live]) (by simp [HelperStage.ran])
      ((clearPending_cases ..).imp_right fun hp => ⟨rfl, hp⟩)⟩
  | timeoutReady => exact ⟨none, .of_disk rfl (by simp) (by simp) (.inl rfl)⟩
  | spawn =>
    dsimp only
    split
    · next ran hran =>
      split
      · refine ⟨_, .of_start (fun _ _ _ => rfl) fun s h1 b h2 => ?_⟩
        obtain rfl := Option.some.inj h1
        obtain rfl := Option.some.inj h2
        exact startable_build hran
      · exact ⟨_, .of_goes (fun _ _ _ => rfl) (by simp [HelperStage.ran])⟩
    · exact ⟨_, .of_goes (fun _ _ _ => rfl) (by simp [HelperStage.ran])⟩
  | trial child ran =>
    dsimp only
    split
    · exact ⟨_, .of_goes (fun _ _ _ => rfl) (by simp [HelperStage.ran])⟩
    · exact ⟨_, .of_goes (fun _ _ _ => rfl) (by simp [HelperStage.ran])⟩
  | commitActive child ran =>
    refine ⟨_, .of_disk rfl (fun _ _ _ => ⟨rfl, fun _ => rfl⟩) (fun s h1 b h2 => ?_) (.inl rfl)⟩
    obtain rfl := Option.some.inj h1
    cases hio : t.io.ok <;> simp [hio, HelperStage.ran] at h2 ⊢
    exact h2
  | commitLink child ran =>
    refine ⟨_, .of_disk rfl (fun _ _ _ => ⟨rfl, fun _ => rfl⟩) (fun s h1 b h2 => ?_) (.inl rfl)⟩
    obtain rfl := Option.some.inj h1
    cases hio : t.io.ok <;> simp [hio, HelperStage.ran] at h2 ⊢
    exact h2
  | commitPending child ran =>
    refine ⟨_, .of_disk rfl (fun s h1 h2 => ⟨rfl, fun hg => ?_⟩) (fun s h1 b h2 => ?_)
      ((clearPending_cases ..).imp_right fun hp => ⟨rfl, hp⟩)⟩
    · -- only a removal that did nothing leaves the helper in charge
      cases hd : w.disk.inTrial
      · simp [hd, Disk.clearIo, Io.ok, Io.error?] at h1
        simp [← h1.2, HelperStage.live] at h2
      · cases hio : t.io with
        | done =>
          simp [hd, hio, Disk.clearIo, Io.ok, Io.error?] at h1
          simp [← h1.2, HelperStage.live] at h2
        | unsynced e => simp [HelperStage.removesAndFails, hio] at hg
        | failed e => simp [Disk.clearIo, Io.effect]
    · split at h1
      · cases h1; cases h2
      · split at h1 <;> cases h1
        cases h2
  | stableBinary =>
    refine ⟨_, .of_disk ?_ (by simp [HelperStage.live]) (by simp [HelperStage.ran]) (.inl ?_)⟩ <;> split <;> rfl
  | stableMeta => refine ⟨none, .of_disk ?_ (by simp) (by simp) (.inl ?_)⟩ <;> split <;> rfl
  | block child =>
    exact ⟨_, .of_disk rfl (fun _ _ _ => ⟨rfl, fun _ => rfl⟩) (by simp [HelperStage.ran]) (.inl rfl)⟩
  | recoverActive child =>
    refine ⟨some .recoverLink, ?_, ?_, by simp [HelperStage.ran], ?_, .inl ?_, ?_⟩
    · cases child <;> rfl
    · cases child <;> simp [HelperStage.live]
    · cases child <;> rfl
    · cases child <;> rfl
    · intro g hg
      cases child with
      | none => exact .inl hg
      | some c => exact .inl (Option.filter_eq_some_iff.mp hg).1
  | recoverLink =>
    exact ⟨_, .of_disk rfl (fun _ _ _ => ⟨rfl, fun _ => rfl⟩) (by simp [HelperStage.ran]) (.inl rfl)⟩
  | recoverPending =>
    exact ⟨_, .of_disk rfl (by simp [HelperStage.live]) (by simp [HelperStage.ran])
      ((clearPending_cases ..).imp_right fun hp => ⟨rfl, hp⟩)⟩
  | recoverStart =>
    dsimp only
    split
    · split
      · exact ⟨none, .of_start (by simp) (by simp)⟩
      · exact ⟨_, .of_goes (by simp [HelperStage.live]) (by simp [HelperStage.ran])⟩
    · exact ⟨_, .of_goes (by simp [HelperStage.live]) (by simp [HelperStage.ran])⟩
  | rescueStart =>
    dsimp only
    split
    · exact ⟨none, .of_goes (by simp) (by simp)⟩
    · split
      · exact ⟨none, .of_goes (by simp) (by simp)⟩
      · split
        · exact ⟨_, .of_start (by simp [HelperStage.live]) (by simp [HelperStage.ran])⟩
        · exact ⟨none, .of_goes (by simp) (by simp)⟩
  | rescueMarker => exact ⟨_, .of_disk rfl (by simp [HelperStage.live]) (by simp [HelperStage.ran]) (.inl rfl)⟩
  | rescueLink => exact ⟨none, .of_disk rfl (by simp) (by simp) (.inl rfl)⟩

/-! ## Stages -/

/-- Which stage may follow which. -/
inductive HelperStage.Next : HelperStage Bytes → HelperStage Bytes → Prop
  | confirmed : Next ready waitParent
  | polls : Next waitParent waitParent
  | parentGone : Next waitParent spawn
  | timesOut : Next waitParent timeoutPending
  | timedOut : Next timeoutPending timeoutReady
  | started (child : Nat) (b : Bytes) : Next spawn (trial child b)
  | notStarted : Next spawn (block none)
  | passed (child : Nat) (b : Bytes) : Next (trial child b) (commitActive child b)
  | failed (child : Nat) (b : Bytes) : Next (trial child b) (block (some child))
  | marked (child : Nat) (b : Bytes) : Next (commitActive child b) (commitLink child b)
  | notMarked (child : Nat) (b : Bytes) : Next (commitActive child b) (recoverActive (some child))
  | linked (child : Nat) (b : Bytes) : Next (commitLink child b) (commitPending child b)
  | notLinked (child : Nat) (b : Bytes) : Next (commitLink child b) (recoverActive (some child))
  | cleared (child : Nat) (b : Bytes) : Next (commitPending child b) stableBinary
  | notCleared (child : Nat) (b : Bytes) : Next (commitPending child b) (recoverActive (some child))
  | copied : Next stableBinary stableMeta
  | blocked (child : Option Nat) : Next (block child) (recoverActive child)
  | restored (child : Option Nat) : Next (recoverActive child) recoverLink
  | relinked : Next recoverLink recoverPending
  | recovered : Next recoverPending recoverStart
  | noPrevious : Next recoverStart rescueStart
  | rescued : Next rescueStart rescueMarker
  | rescueMarked : Next rescueMarker rescueLink

/-- What a stage writes to the active marker. -/
def Helper.marker (h : Helper Bytes) : Option (List Char) :=
  match h.stage with
  | .commitActive _ _ => some (Disk.markerText h.args.candidate)
  | .recoverActive _ => some (Disk.markerText h.args.previous)
  | .rescueMarker => some Disk.rescueText
  | _ => none

def HelperStage.blocks : HelperStage Bytes → Bool
  | block _ => true
  | _ => false

def HelperStage.copies : HelperStage Bytes → Bool
  | stableBinary | stableMeta => true
  | _ => false

theorem helperCli_next {k : Helper Bytes}
    (hw : w.helper pid = some h) (hk : (w.helperCli P pid h t).helper pid = some k) :
    (k.args = h.args ∧ k.parent = h.parent) ∧ h.stage.Next k.stage := by
  have goes : ∀ (v : World Bytes) (st : HelperStage Bytes), (v.goes pid h (some st)).helper pid = some k →
      h.stage.Next st → (k.args = h.args ∧ k.parent = h.parent) ∧ h.stage.Next k.stage := by
    intro v st hv hn
    simp only [World.goes, Function.update_self, Option.map_some, Option.some.injEq] at hv
    subst hv
    exact ⟨⟨rfl, rfl⟩, hn⟩
  have gone : ∀ v : World Bytes, (v.goes pid h none).helper pid = some k →
      (k.args = h.args ∧ k.parent = h.parent) ∧ h.stage.Next k.stage := by
    intro v hv
    simp [World.goes] at hv
  unfold World.helperCli at hk
  obtain ⟨exe, trialEnv, parent, args, stage⟩ := h
  cases stage with
  | ready =>
    cases hio : t.io.ok <;> simp only [hio, if_true, if_false, Bool.false_eq_true] at hk
    · exact gone _ hk
    · exact goes _ _ hk .confirmed
  | waitParent =>
    dsimp only at hk
    split at hk
    · exact goes _ _ hk .parentGone
    · split at hk
      · obtain rfl := Option.some.inj (hw.symm.trans hk)
        exact ⟨⟨rfl, rfl⟩, .polls⟩
      · exact goes _ _ hk .timesOut
  | timeoutPending => exact goes _ _ hk .timedOut
  | timeoutReady => exact gone _ hk
  | spawn =>
    dsimp only at hk
    split at hk
    · split at hk
      · exact goes _ _ hk (.started ..)
      · exact goes _ _ hk .notStarted
    · exact goes _ _ hk .notStarted
  | trial child ran =>
    dsimp only at hk
    split at hk
    · exact goes _ _ hk (.passed ..)
    · exact goes _ _ hk (.failed ..)
  | commitActive child ran =>
    cases hio : t.io.ok <;> simp only [hio, if_true, if_false, Bool.false_eq_true] at hk
    · exact goes _ _ hk (.notMarked ..)
    · exact goes _ _ hk (.marked ..)
  | commitLink child ran =>
    cases hio : t.io.ok <;> simp only [hio, if_true, if_false, Bool.false_eq_true] at hk
    · exact goes _ _ hk (.notLinked ..)
    · exact goes _ _ hk (.linked ..)
  | commitPending child ran =>
    dsimp only at hk
    split at hk
    · exact goes _ _ hk (.notCleared ..)
    · split at hk
      · exact goes _ _ hk (.cleared ..)
      · exact gone _ hk
  | stableBinary => exact goes _ _ hk .copied
  | stableMeta => exact gone _ hk
  | block child => exact goes _ _ hk (.blocked _)
  | recoverActive child => exact goes _ _ hk (.restored _)
  | recoverLink => exact goes _ _ hk .relinked
  | recoverPending => exact goes _ _ hk .recovered
  | recoverStart =>
    dsimp only at hk
    split at hk
    · split at hk
      · exact gone _ hk
      · exact goes _ _ hk .noPrevious
    · exact goes _ _ hk .noPrevious
  | rescueStart =>
    dsimp only at hk
    split at hk
    · exact gone _ hk
    · split at hk
      · exact gone _ hk
      · split at hk
        · exact goes _ _ hk .rescued
        · exact gone _ hk
  | rescueMarker => exact goes _ _ hk .rescueMarked
  | rescueLink => exact gone _ hk

/-- A helper does not start the candidate while the agent that launched it is alive. -/
theorem helperCli_waits {k : Helper Bytes}
    (hw : w.helper pid = some h) (hs : h.stage = .waitParent) (ha : w.alive h.parent)
    (hk : (w.helperCli P pid h t).helper pid = some k) : k.stage ≠ .spawn := by
  simp only [World.helperCli, hs, ha, Bool.not_true, Bool.false_eq_true, if_false] at hk
  split at hk
  · obtain rfl := Option.some.inj (hw.symm.trans hk)
    simp [hs]
  · simp only [World.goes, Function.update_self, Option.map_some, Option.some.injEq] at hk
    simp [← hk]

/-! ## Files -/

/-- Which stages write the active marker, the blocked list and the rescue copy. -/
structure Files (h : Helper Bytes) (t : HelperTurn) (d d' : Disk Bytes) : Prop where
  active : d'.active =
    match h.marker with
    | some text => if t.io.effect then some text else d.active
    | none => d.active
  blocked : d'.blocked = if h.stage.blocks then (World.blockVersion d h.args.version t.io).blocked else d.blocked
  stable : h.stage.copies = false → d'.stable = d.stable

theorem Files.of_keeps {d d' : Disk Bytes} (hm : h.marker = none)
    (hb : h.stage.blocks = false) (hk : d.Keeps d') : Files h t d d' :=
  ⟨by simp [hm, hk.active], by simp [hb, hk.blocked], fun _ => hk.stable⟩

theorem helperCli_files :
    Files h t w.disk (w.helperCli P pid h t).disk := by
  have keep : Disk.Keeps w.disk w.disk := .refl _
  have start : ∀ exe trialEnv, Disk.Keeps w.disk (w.startProcess exe trialEnv t.startup).disk :=
    fun exe trialEnv => (startProcess_spec w exe trialEnv t.startup).1
  obtain ⟨exe, trialEnv, parent, args, stage⟩ := h
  cases stage with
  | waitParent =>
    dsimp only [World.helperCli]
    repeat' split
    all_goals exact .of_keeps rfl rfl keep
  | spawn =>
    dsimp only [World.helperCli]
    split
    · split
      · exact .of_keeps rfl rfl (start ..)
      · exact .of_keeps rfl rfl keep
    · exact .of_keeps rfl rfl keep
  | trial child ran =>
    dsimp only [World.helperCli]
    split <;> exact .of_keeps rfl rfl keep
  | stableBinary =>
    refine ⟨?_, ?_, nofun⟩
    · dsimp only [World.helperCli]
      split <;> rfl
    · dsimp only [World.helperCli]
      split <;> rfl
  | stableMeta =>
    refine ⟨?_, ?_, nofun⟩
    · dsimp only [World.helperCli]
      split <;> rfl
    · dsimp only [World.helperCli]
      split <;> rfl
  | recoverActive child => cases child <;> exact ⟨rfl, rfl, fun _ => rfl⟩
  | recoverStart =>
    dsimp only [World.helperCli]
    split
    · split
      · exact .of_keeps rfl rfl (start ..)
      · exact .of_keeps rfl rfl keep
    · exact .of_keeps rfl rfl keep
  | rescueStart =>
    dsimp only [World.helperCli]
    repeat' split
    · exact .of_keeps rfl rfl keep
    · exact .of_keeps rfl rfl keep
    · exact .of_keeps rfl rfl (start ..)
    · exact .of_keeps rfl rfl keep
  | _ => exact ⟨rfl, rfl, fun _ => rfl⟩

end OpenU60.Ota
