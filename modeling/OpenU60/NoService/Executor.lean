/-
  OpenU60.NoService.Executor — what carries the policy's actions out, and the owner's
  firmware knobs (`zte-agent/src/oos_policy.rs`, `Executor`).

  An action that writes twice is two steps here, so that the agent can be restarted
  between them: `left` is what remains of it. A failed `write_knobs` leaves the knobs as
  they were; `file` is the backup as the next start of the agent would parse it.
  - `knobs_safe`: over any sequence of actions, failures and restarts the device or the
    backup file holds the owner's values, and the file never holds quiet ones.
  - `owner_kept`: and while every start can read the backup, a failed restore stays armed
    for a retry within an hour, until one succeeds or a new cycle starts.
  - `unreadable_backup_disarms`: a start that cannot read the backup takes it for none,
    and the retry is gone.
-/

import OpenU60.Lib.Machine
import OpenU60.NoService.Machine

namespace OpenU60.NoService

open OpenU60.Lib OpenU60.Lib.Machine

def restoreRetry : Nat := secs 60
def restoreRetryMax : Nat := secs (60 * 60)

structure Knobs where
  psNoSrvCheckTimerCfg : String
  absLpmOnlineMaxTimesCfg : String
  absRestartMaxTimesCfg : String
  deriving DecidableEq

def Knobs.quiet : Knobs := ⟨"60", "0", "0"⟩

structure Executor where
  backup : Option Knobs
  knobsQuiet : Bool
  /-- A restore failed: retry at this instant. -/
  retryAt : Option Nat
  retryDelay : Nat
  deriving DecidableEq

/-- How a write of the backup file went. -/
inductive Saved where
  | done
  | failed
  | truncated
  deriving DecidableEq

/-- What the effects answer. -/
structure Env where
  operateMode : Option String
  read : Bool
  saved : Saved
  wrote : Bool
  removed : Bool
  lpm : Bool
  online : Bool
  service : Option Bool
  busy : Bool

/-- Every effect succeeds on a modem that is online and out of service. -/
def Env.fine : Env := ⟨some "ONLINE", true, .done, true, true, true, true, some false, false⟩

/-- What remains of an action. -/
inductive Left where
  | writeQuiet
  | removeBackup
  deriving DecidableEq

/-- The executor with the device it acts on. -/
structure Station where
  exec : Executor
  left : Option Left
  knobs : Knobs
  file : Option Knobs
  lpm : Bool
  /-- Ghost: the modem is in an LPM that the policy set, and the user has not asked for
      LPM since. -/
  parked : Bool
  deriving DecidableEq

namespace Executor

/-- `Executor::new`. -/
def new (backup : Option Knobs) : Executor := ⟨backup, backup.isSome, none, restoreRetry⟩

def restoreFailed (ex : Executor) (now : Nat) : Executor :=
  { ex with retryAt := some (now + ex.retryDelay), retryDelay := min (ex.retryDelay * 2) restoreRetryMax }

end Executor

namespace Station

/-- The agent starts; `readable` says whether the backup file, if any, can be read. -/
def start (s : Station) (readable : Bool) : Station :=
  { s with exec := .new (if readable then s.file else none), left := none }

def setQuietKnobs (s : Station) (e : Env) : Station × Bool :=
  if e.operateMode.any (· != "ONLINE") then (s, true)
  else
    -- a new cycle supersedes any pending restore retry
    let s := { s with exec := { s.exec with retryAt := none, retryDelay := restoreRetry } }
    if !e.read then (s, false)
    else if s.exec.backup.isNone && s.knobs != .quiet then
      match e.saved with
      | .done => ({ s with file := some s.knobs, exec := { s.exec with backup := some s.knobs }, left := some .writeQuiet }, false)
      | .failed => (s, false)
      | .truncated => ({ s with file := none }, false)
    else ({ s with left := some .writeQuiet }, false)

def restoreKnobs (s : Station) (now : Nat) (e : Env) : Station :=
  match s.exec.backup with
  | some saved =>
    if e.wrote then { s with knobs := saved, exec := { s.exec with backup := none }, left := some .removeBackup }
    else { s with exec := s.exec.restoreFailed now }
  | none => s

def setLpm (s : Station) (e : Env) : Station := if e.lpm then { s with lpm := true, parked := s.parked || !s.lpm } else s

def goOnline (s : Station) (e : Env) : Station := if e.online then { s with lpm := false, parked := false } else s

/-- Perform an action, up to its first write; the flag is the `Standby` that aborts the
    rest of the batch. -/
def perform (s : Station) (a : Action) (now : Nat) (e : Env) : Station × Bool :=
  match a with
  | .setQuietKnobs => s.setQuietKnobs e
  | .restoreKnobs => (s.restoreKnobs now e, false)
  | .setLpm => (s.setLpm e, false)
  | .goOnline => (s.goOnline e, false)

/-- The rest of the action under way. -/
def resume (s : Station) (e : Env) : Station :=
  match s.left with
  | some .writeQuiet =>
    if e.wrote then { s with knobs := .quiet, exec := { s.exec with knobsQuiet := true }, left := none }
    else { s with left := none }
  | some .removeBackup =>
    { s with
      file := if e.removed then none else s.file
      exec := { s.exec with knobsQuiet := false, retryAt := none, retryDelay := restoreRetry }
      left := none }
  | none => s

def retryRestore (s : Station) (now : Nat) (e : Env) : Station :=
  if !s.exec.retryAt.any (· ≤ now) then s
  else if s.exec.backup.isNone then { s with exec := { s.exec with retryAt := none } }
  else s.restoreKnobs now e

/-- What comes first after a start: a backup is left from a previous run. -/
def restoreLeftover (s : Station) (now : Nat) (e : Env) : Station :=
  if s.exec.backup.isNone then s else s.restoreKnobs now e

end Station

/-! ## Any sequence of actions -/

inductive Step where
  | act (a : Action) (now : Nat) (e : Env)
  | resume (e : Env)
  | retry (now : Nat) (e : Env)
  | restart (readable : Bool)
  | leftover (now : Nat) (e : Env)

structure Custody where
  s : Station
  starting : Bool
  /-- Ghost: when the last restore failed, if none succeeded and no cycle began since. -/
  owed : Option Nat

namespace Custody

/-- A restore is under way: it has succeeded, failed, or there was nothing to restore. -/
def owedAfter (c : Custody) (s' : Station) (now : Nat) : Option Nat :=
  if c.s.exec.backup.isNone then c.owed else if s'.left = some .removeBackup then none else some now

def step (c : Custody) : Step → Custody
  | .act a now e =>
    if c.starting || c.s.left.isSome then c
    else
      let r := c.s.perform a now e
      { c with
        s := r.1
        owed :=
          match a with
          | .setQuietKnobs => if r.2 then c.owed else none
          | .restoreKnobs => c.owedAfter r.1 now
          | _ => c.owed }
  | .resume e => { c with s := c.s.resume e }
  | .retry now e =>
    if c.starting || c.s.left.isSome then c
    else
      let s := c.s.retryRestore now e
      { c with s := s, owed := if c.s.exec.retryAt.any (· ≤ now) then c.owedAfter s now else c.owed }
  | .restart readable => { c with s := c.s.start readable, starting := true }
  | .leftover now e =>
    if !c.starting then c
    else
      let s := c.s.restoreLeftover now e
      { s := s, starting := false, owed := c.owedAfter s now }

/-- The owner's values are on the device or in the backup, and quiet ones never in it. -/
def Safe (owner : Knobs) (c : Custody) : Prop :=
  (c.s.knobs = owner ∨ c.s.file = some owner) ∧ ∀ k, c.s.file = some k → k = owner ∧ k ≠ .quiet

/-- A failed restore is retried within an hour. -/
def Armed (c : Custody) : Prop :=
  c.starting = false → ∀ t, c.owed = some t → ∃ r, c.s.exec.retryAt = some r ∧ r ≤ t + secs (60 * 60)

/-- A start can read the backup while a restore is owed. -/
def readsBackup (c : Custody) : Step → Bool
  | .restart readable => readable || c.owed.isNone
  | _ => true

/-- The device as its owner left it. -/
structure Start (owner : Knobs) (c : Custody) : Prop where
  knobs : c.s.knobs = owner
  file : c.s.file = none
  exec : c.s.exec = .new none
  left : c.s.left = none
  owed : c.owed = none

end Custody

/-! ## The invariant -/

namespace Station

structure Held (owner : Knobs) (s : Station) : Prop where
  safe : (s.knobs = owner ∨ s.file = some owner) ∧ ∀ k, s.file = some k → k = owner ∧ k ≠ .quiet
  device : s.knobs = owner ∨ s.knobs = .quiet
  backup : ∀ k, s.exec.backup = some k → k = owner ∧ s.file = some owner
  quieting : s.left = some .writeQuiet → s.file = some owner ∨ owner = .quiet
  restored : s.left = some .removeBackup → s.knobs = owner ∧ s.exec.backup = none

variable {owner : Knobs}

/-- Only the knobs, the file, the backup and what is left of an action count. -/
theorem Held.of_same {s s' : Station} (h : Held owner s) (hk : s'.knobs = s.knobs) (hf : s'.file = s.file)
    (hb : s'.exec.backup = s.exec.backup) (hl : s'.left = s.left) : Held owner s' :=
  ⟨by rw [hk, hf]; exact h.safe, by rw [hk]; exact h.device, by rw [hb, hf]; exact h.backup,
    by rw [hl, hf]; exact h.quieting, by rw [hl, hk, hb]; exact h.restored⟩

/-- A restore gives the device the owner's values, or leaves everything but the retry. -/
theorem restoreKnobs_cases (s : Station) (now : Nat) (e : Env) :
    s.exec.backup = none ∧ s.restoreKnobs now e = s ∨
    (∃ k, s.exec.backup = some k ∧
      (s.restoreKnobs now e = { s with knobs := k, exec := { s.exec with backup := none }, left := some .removeBackup } ∨
        s.restoreKnobs now e = { s with exec := s.exec.restoreFailed now })) := by
  unfold Station.restoreKnobs
  cases hb : s.exec.backup with
  | none => exact .inl ⟨rfl, rfl⟩
  | some k =>
    right
    refine ⟨k, rfl, ?_⟩
    cases e.wrote with
    | true => exact .inl rfl
    | false => exact .inr rfl

theorem restoreLeftover_eq (s : Station) (now : Nat) (e : Env) : s.restoreLeftover now e = s.restoreKnobs now e := by
  unfold restoreLeftover
  cases hb : s.exec.backup with
  | none => simp [restoreKnobs, hb]
  | some k => rfl

/-- A new cycle begins, or the modem is not online and nothing is done. -/
theorem setQuietKnobs_cases (s : Station) (e : Env) :
    s.setQuietKnobs e = (s, true) ∨ (s.setQuietKnobs e).2 = false ∧ (s.setQuietKnobs e).1.exec.retryDelay = restoreRetry := by
  unfold Station.setQuietKnobs
  split
  · exact .inl rfl
  · right
    dsimp only
    split
    · exact ⟨rfl, rfl⟩
    · split
      · cases e.saved <;> exact ⟨rfl, rfl⟩
      · exact ⟨rfl, rfl⟩

variable {s : Station}

theorem Held.restores (h : Held owner s) (now : Nat) (e : Env) :
    Held owner (s.restoreKnobs now e) := by
  rcases restoreKnobs_cases s now e with ⟨-, hs⟩ | ⟨k, hb, hs | hs⟩
  · rw [hs]
    exact h
  · obtain ⟨rfl, -⟩ := h.backup k hb
    rw [hs]
    exact ⟨⟨.inl rfl, h.safe.2⟩, .inl rfl, by simp, by simp, fun _ => ⟨rfl, rfl⟩⟩
  · rw [hs]
    exact h.of_same rfl rfl rfl rfl

theorem Held.quiets (h : Held owner s) (hl : s.left = none) (e : Env) :
    Held owner (s.setQuietKnobs e).1 := by
  unfold Station.setQuietKnobs
  split
  · exact h
  · dsimp only
    split
    · exact h.of_same rfl rfl rfl rfl
    · split
      · next hnew =>
        -- the device holds values that are not quiet: the owner's
        simp only [Bool.and_eq_true, Option.isNone_iff_eq_none, bne_iff_ne, ne_eq] at hnew
        have howner : s.knobs = owner := h.device.resolve_right hnew.2
        cases e.saved with
        | done =>
          refine ⟨⟨.inl howner, fun k hk => ?_⟩, h.device, fun k hk => ?_, fun _ => .inl (by rw [← howner]), by simp⟩
          · obtain rfl := Option.some.inj hk
            exact ⟨howner, hnew.2⟩
          · obtain rfl := Option.some.inj hk
            exact ⟨howner, by rw [← howner]⟩
        | failed => exact h.of_same rfl rfl rfl rfl
        | truncated => exact ⟨⟨.inl howner, by simp⟩, h.device, by simp [hnew.1], by simp [hl], by simp [hl]⟩
      · next hold =>
        refine ⟨h.safe, h.device, h.backup, fun _ => ?_, by simp⟩
        cases hb : s.exec.backup with
        | some k => exact .inl (h.backup k hb).2
        | none =>
          have hq : s.knobs = .quiet := by simpa [hb] using hold
          rcases h.safe.1 with ho | hf
          · exact .inr (ho ▸ hq)
          · exact .inl hf

theorem perform_modem (s : Station) (e : Env) :
    ((s.setLpm e).knobs = s.knobs ∧ (s.setLpm e).file = s.file ∧ (s.setLpm e).exec = s.exec ∧ (s.setLpm e).left = s.left) ∧
      (s.goOnline e).knobs = s.knobs ∧ (s.goOnline e).file = s.file ∧ (s.goOnline e).exec = s.exec ∧
        (s.goOnline e).left = s.left := by
  unfold Station.setLpm Station.goOnline
  refine ⟨?_, ?_⟩ <;> split <;> exact ⟨rfl, rfl, rfl, rfl⟩

theorem Held.performs (h : Held owner s) (hl : s.left = none) (a : Action) (now : Nat)
    (e : Env) : Held owner (s.perform a now e).1 := by
  obtain ⟨⟨h1, h2, h3, h4⟩, h5, h6, h7, h8⟩ := perform_modem s e
  cases a with
  | setQuietKnobs => exact h.quiets hl e
  | restoreKnobs => exact h.restores now e
  | setLpm => exact h.of_same h1 h2 (by rw [show (s.perform .setLpm now e).1 = s.setLpm e from rfl, h3]) h4
  | goOnline => exact h.of_same h5 h6 (by rw [show (s.perform .goOnline now e).1 = s.goOnline e from rfl, h7]) h8

/-- The rest of an action leaves the retry alone, unless it ends a restore. -/
theorem resume_cases (s : Station) (e : Env) :
    (s.resume e).exec.backup = s.exec.backup ∧
      ((s.resume e).exec.retryAt = s.exec.retryAt ∧ (s.resume e).exec.retryDelay = s.exec.retryDelay ∨
        s.left = some .removeBackup ∧ (s.resume e).exec.retryDelay = restoreRetry) := by
  unfold Station.resume
  cases s.left with
  | none => exact ⟨rfl, .inl ⟨rfl, rfl⟩⟩
  | some l =>
    cases l with
    | writeQuiet => cases e.wrote <;> exact ⟨rfl, .inl ⟨rfl, rfl⟩⟩
    | removeBackup => exact ⟨rfl, .inr ⟨rfl, rfl⟩⟩

theorem Held.resumes (h : Held owner s) (e : Env) : Held owner (s.resume e) := by
  unfold Station.resume
  cases hl : s.left with
  | none => exact h
  | some l =>
    cases l with
    | writeQuiet =>
      cases e.wrote with
      | true =>
        refine ⟨⟨?_, h.safe.2⟩, .inr rfl, h.backup, by simp, by simp⟩
        rcases h.quieting hl with hf | ho
        · exact .inr hf
        · exact .inl ho.symm
      | false => exact ⟨h.safe, h.device, h.backup, by simp, by simp⟩
    | removeBackup =>
      obtain ⟨hk, hb⟩ := h.restored hl
      refine ⟨⟨.inl hk, fun k hf => ?_⟩, .inl hk, by simp [hb], by simp, by simp⟩
      dsimp only at hf
      split at hf
      · cases hf
      · exact h.safe.2 k hf

theorem Held.retries (h : Held owner s) (now : Nat) (e : Env) :
    Held owner (s.retryRestore now e) := by
  unfold Station.retryRestore
  split
  · exact h
  · split
    · exact h.of_same rfl rfl rfl rfl
    · exact h.restores now e

theorem Held.starts (h : Held owner s) (readable : Bool) : Held owner (s.start readable) := by
  refine ⟨h.safe, h.device, fun k hk => ?_, by simp [Station.start], by simp [Station.start]⟩
  cases readable with
  | false => cases hk
  | true =>
    obtain ⟨rfl, -⟩ := h.safe.2 k hk
    exact ⟨rfl, hk⟩

end Station

namespace Custody

variable {owner : Knobs} {c : Custody}

theorem held_of_start (h : c.Start owner) : c.s.Held owner :=
  ⟨⟨.inl h.knobs, by simp [h.file]⟩, .inl h.knobs, by simp [h.exec, Executor.new], by simp [h.left], by simp [h.left]⟩

theorem held_step (h : c.s.Held owner) (m : Step) : (c.step m).s.Held owner := by
  cases m with
  | act a now e =>
    simp only [step]
    split
    · exact h
    · next hl =>
      simp only [Bool.or_eq_true, not_or, Bool.not_eq_true, Option.isSome_eq_false_iff, Option.isNone_iff_eq_none] at hl
      exact h.performs hl.2 a now e
  | resume e => exact h.resumes e
  | retry now e =>
    simp only [step]
    split
    · exact h
    · exact h.retries now e
  | restart readable => exact h.starts readable
  | leftover now e =>
    simp only [step]
    split
    · exact h
    · simp only [Station.restoreLeftover_eq]
      exact h.restores now e

/-- Whatever fails and whenever the agent is restarted, the owner's values are kept. -/
theorem knobs_safe {ms : List Step} (hs : c.Start owner) : Safe owner (exec step c ms) :=
  (invariant (I := fun c : Custody => c.s.Held owner) (fun _ m h => held_step h m) (held_of_start hs)).safe

/-! ## Retries -/

/-- A restore is owed as long as there is a backup to restore, and armed once the agent runs. -/
structure Owes (owner : Knobs) (c : Custody) : Prop where
  held : c.s.Held owner
  delay : c.s.exec.retryDelay ≤ restoreRetryMax
  backup : ∀ t, c.owed = some t → c.s.exec.backup.isSome
  armed : Armed c

theorem owes_of_start (h : c.Start owner) : Owes owner c :=
  ⟨held_of_start h, by rw [h.exec]; decide, by simp [h.owed], fun _ t ht => by simp [h.owed] at ht⟩

/-- Nothing is owed without a backup. -/
theorem Owes.nothing (h : Owes owner c) (hb : c.s.exec.backup = none) : c.owed = none := by
  cases ho : c.owed with
  | none => rfl
  | some t => simpa [hb] using h.backup t ho

/-- An attempt to restore: it succeeds and nothing is owed, or the retry is armed anew. -/
theorem Owes.restores (h : Owes owner c) (now : Nat) (e : Env) (b : Bool) :
    Owes owner ⟨c.s.restoreKnobs now e, b, c.owedAfter (c.s.restoreKnobs now e) now⟩ := by
  have hheld := h.held.restores now e
  rcases Station.restoreKnobs_cases c.s now e with ⟨hb, hs⟩ | ⟨k, hb, hs | hs⟩
  · have ho : c.owedAfter c.s now = none := by simp [owedAfter, hb, h.nothing hb]
    rw [hs, ho]
    exact ⟨h.held, h.delay, by simp, by simp [Armed]⟩
  · rw [hs] at hheld ⊢
    simp only [owedAfter, hb, Option.isNone_some, Bool.false_eq_true, if_false]
    exact ⟨hheld, h.delay, by simp, by simp [Armed]⟩
  · rw [hs] at hheld ⊢
    refine ⟨hheld, Nat.min_le_right _ _, fun _ _ => by simp [Executor.restoreFailed, hb], fun _ t ht => ?_⟩
    -- the attempt failed at `now`
    have hl : c.s.left ≠ some .removeBackup := fun hl => by simp [(h.held.restored hl).2] at hb
    obtain rfl : now = t := by simpa [owedAfter, hb, hl] using ht
    exact ⟨_, rfl, Nat.add_le_add_left h.delay now⟩

theorem Owes.step (h : Owes owner c) (m : Step) (hm : readsBackup c m) :
    Owes owner (c.step m) := by
  have hheld := held_step h.held m
  cases m with
  | act a now e =>
    by_cases hbusy : c.starting || c.s.left.isSome
    · simpa only [Custody.step, hbusy, if_true] using h
    · simp only [Custody.step, hbusy, Bool.false_eq_true, if_false] at hheld ⊢
      obtain ⟨⟨-, -, h3, -⟩, -, -, h7, -⟩ := Station.perform_modem c.s e
      cases a with
      | setQuietKnobs =>
        rcases Station.setQuietKnobs_cases c.s e with hs | ⟨hs, hd⟩
        · simpa only [Station.perform, hs, if_true] using h
        · refine ⟨hheld, ?_, ?_, ?_⟩
          · show (c.s.setQuietKnobs e).1.exec.retryDelay ≤ _
            rw [hd]
            decide
          · simp [Station.perform, hs]
          · simp [Armed, Station.perform, hs]
      | restoreKnobs => exact h.restores now e c.starting
      | setLpm =>
        have he : (c.s.perform .setLpm now e).1.exec = c.s.exec := h3
        exact ⟨hheld, he ▸ h.delay, he ▸ h.backup, fun hst t ht => he ▸ h.armed hst t ht⟩
      | goOnline =>
        have he : (c.s.perform .goOnline now e).1.exec = c.s.exec := h7
        exact ⟨hheld, he ▸ h.delay, he ▸ h.backup, fun hst t ht => he ▸ h.armed hst t ht⟩
  | resume e =>
    obtain ⟨hb, ⟨ha, hd⟩ | ⟨hl, hd⟩⟩ := Station.resume_cases c.s e
    · exact ⟨hheld, hd ▸ h.delay, hb ▸ h.backup, fun hst t ht => ha ▸ h.armed hst t ht⟩
    · -- the restore has succeeded: nothing is owed
      have ho : c.owed = none := h.nothing (h.held.restored hl).2
      refine ⟨hheld, ?_, by simp [Custody.step, ho], fun _ t ht => by simp [Custody.step, ho] at ht⟩
      show (c.s.resume e).exec.retryDelay ≤ _
      rw [hd]
      decide
  | retry now e =>
    by_cases hbusy : c.starting || c.s.left.isSome
    · simpa only [Custody.step, hbusy, if_true] using h
    · simp only [Custody.step, hbusy, Bool.false_eq_true, if_false, Station.retryRestore] at hheld ⊢
      by_cases hdue : c.s.exec.retryAt.any (· ≤ now)
      · simp only [hdue, Bool.not_true, Bool.false_eq_true, if_false, if_true] at hheld ⊢
        by_cases hb : c.s.exec.backup.isNone
        · have hnone := Option.isNone_iff_eq_none.mp hb
          have ho := h.nothing hnone
          simp only [hb, if_true] at hheld ⊢
          exact ⟨hheld, h.delay, by simp [owedAfter, hb, ho], by simp [Armed, owedAfter, hb, ho]⟩
        · simp only [hb, Bool.false_eq_true, if_false]
          exact h.restores now e c.starting
      · simpa only [hdue, Bool.not_false, Bool.false_eq_true, if_true, if_false] using h
  | restart readable =>
    refine ⟨hheld, show restoreRetry ≤ restoreRetryMax by decide, fun t ht => ?_, fun hst => by cases hst⟩
    have ho : c.owed = some t := ht
    obtain ⟨k, hk⟩ := Option.isSome_iff_exists.mp (h.backup t ho)
    have hr : readable = true := by simpa [readsBackup, ho] using hm
    show (Executor.new (if readable then c.s.file else none)).backup.isSome
    simp [hr, (h.held.backup k hk).2, Executor.new]
  | leftover now e =>
    by_cases hst : c.starting
    · simp only [Custody.step, hst, Bool.not_true, Bool.false_eq_true, if_false, Station.restoreLeftover_eq]
      exact h.restores now e false
    · simpa only [Custody.step, hst, Bool.not_false, if_true] using h

/-- While every start can read the backup of a restore that is owed, the owner's values
    are kept and the retry stays armed. -/
theorem owner_kept {owner : Knobs} {c : Custody} {ms : List Step} (hs : c.Start owner)
    (hm : Along step (fun c m => readsBackup c m = true) c ms) :
    Safe owner (exec step c ms) ∧ Armed (exec step c ms) :=
  have h := invariant_along (fun _ m h hm => h.step m hm) (owes_of_start hs) hm
  ⟨h.held.safe, h.armed⟩

def firmwareKnobs : Knobs := ⟨"5", "3", "3"⟩

/-- A device that was never quieted, its agent idle. -/
def untouched : Custody := ⟨⟨.new none, none, firmwareKnobs, none, false, false⟩, false, none⟩

/-- uci breaks after the quiet write: the restore fails, and again after a restart. -/
def brokenUci (readable : Bool) : List Step :=
  let broken : Env := { Env.fine with wrote := false }
  [.act .setQuietKnobs (secs 600) .fine, .resume .fine, .act .setLpm (secs 600) .fine, .act .restoreKnobs (secs 1800) broken,
    .retry (secs 1860) broken, .restart readable, .leftover (secs 1900) broken]

theorem broken_uci_retries :
    (Safe firmwareKnobs (exec step untouched (brokenUci true)) ∧ Armed (exec step untouched (brokenUci true))) ∧
      (exec step untouched (brokenUci true)).owed = some (secs 1900) :=
  ⟨owner_kept ⟨rfl, rfl, rfl, rfl, rfl⟩ (by decide +kernel), by decide +kernel⟩

/-- A backup file that is there but cannot be read is taken for none: the knobs stay
    quiet, and nothing retries the restore. -/
theorem unreadable_backup_disarms :
    ¬ ∀ (owner : Knobs) (c : Custody) (ms : List Step), c.Start owner →
      Safe owner (exec step c ms) ∧ Armed (exec step c ms) := by
  intro h
  obtain ⟨r, hr, -⟩ := (h firmwareKnobs untouched (brokenUci false) ⟨rfl, rfl, rfl, rfl, rfl⟩).2 (by decide +kernel)
    (secs 1860) (by decide +kernel)
  have hnone : (exec step untouched (brokenUci false)).s.exec.retryAt = none := by decide +kernel
  rw [hnone] at hr
  cases hr

end Custody

end OpenU60.NoService
