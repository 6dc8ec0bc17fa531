/-
  OpenU60.ConnWatchdog.Restart — the watchdog's thread and its state file across agent
  restarts and reboots (`zte-agent/src/conn_watchdog.rs`, `Executor`, `ConnWatchdog::run`).

  `now` is real time, which instants follow; `unix` is whatever the wall clock reads at a
  step. The thread goes one effect or write at a time (`next`), and a restart or a loss of
  power can fall between any two; `torn` is a write that leaves a file no one can parse.
  A rung is taken when the machine runs it, and counts once its command has been sent,
  whatever the answer.

  - `watchdog_safe`: at most three modem resets and one reboot in any 24 h of real time,
    and a set restore flag whenever fast boot is left off, in every run whose steps are
    `sound`.
  - `pending_restore_cleared`: a rung that runs while the restore is pending records
    itself with the flag cleared.
-/

import OpenU60.ConnWatchdog.Machine
import OpenU60.Lib.Machine

namespace OpenU60.ConnWatchdog

open OpenU60.Lib OpenU60.Lib.Machine OpenU60.Lib.Window

structure ActionRecord where
  rung : Rung
  /-- Wall-clock seconds. -/
  at' : Nat
  /-- Ghost: when the machine ran the rung. -/
  real : Int
  deriving DecidableEq

/-- Not older than a day, nor from the future after a clock step. -/
def ActionRecord.fresh (unix : Nat) (r : ActionRecord) : Bool := r.at' ≤ unix && unix - r.at' < 24 * 3600

structure Persisted where
  restoreFastBoot : Bool
  actions : List ActionRecord
  deriving DecidableEq

namespace Persisted

def default : Persisted := ⟨false, []⟩

def prune (p : Persisted) (unix : Nat) : Persisted := { p with actions := p.actions.filter (ActionRecord.fresh unix) }

end Persisted

/-- How a write of the state file went. -/
inductive Wrote where
  | done
  | failed
  | torn
  deriving DecidableEq

/-- What a step of the thread meets. -/
structure Env where
  read : Bool
  wrote : Wrote
  /-- The effect succeeds. -/
  ok : Bool
  unix : Nat

/-- An event with what the machine is told besides. -/
structure Woken where
  event : Event
  userActivity : Option Int
  busy : Bool

inductive Stage where
  | starting (start : Int)
  | restoring (start : Int) (saved : Persisted)
  | seeding (start : Int) (saved before : Persisted) (pending : Bool)
  | ready
  | retry (i : Woken)
  | retryFlag (i : Woken)
  | apply (i : Woken)
  /-- The machine ran `rung` at `t`; nothing is done yet. -/
  | act (rung : Rung) (t : Int)
  | effect (rung : Rung) (t : Int)
  | recordReboot (t : Int)
  | reboot (t : Int)
  | undo
  | undoFlag (restoreFastBoot : Bool)

structure World where
  m : Machine
  now : Int
  file : Option Persisted
  pending : Bool
  stage : Stage
  /-- Ghost: the watchdog has turned fast boot off and not on again. -/
  fastBootOff : Bool
  /-- Ghost: the rungs carried out. -/
  taken : List (Rung × Int)

inductive Move where
  | wait (elapsed : Nat)
  | wake (i : Woken)
  | next (e : Env)
  | restart (config : Config)

namespace World

def load (w : World) (e : Env) : Option Persisted := if e.read then w.file else none

def save (w : World) (p : Persisted) (e : Env) : World :=
  match e.wrote with
  | .done => { w with file := some p }
  | .failed => w
  | .torn => { w with file := none }

/-- `record`, with the flag in the same write. -/
def record (w : World) (rung : Rung) (t : Int) (restoreFastBoot : Bool) (e : Env) : World :=
  let saved := ((w.load e).getD .default).prune e.unix
  w.save ⟨restoreFastBoot, saved.actions ++ [⟨rung, e.unix, t⟩]⟩ e

def setRestoreFlag (w : World) (restoreFastBoot : Bool) (e : Env) : World :=
  w.save { (w.load e).getD .default with restoreFastBoot := restoreFastBoot } e

/-- The instant a record is seeded at: its age by the wall clock before the start. -/
def seed (start : Int) (unix : Nat) (r : ActionRecord) : Rung × Int := (r.rung, start - secs (unix - r.at'))

/-- The rest of `restore_state`: prune, seed the machine, save. -/
def seedMachine (w : World) (start : Int) (saved before : Persisted) (pending : Bool) (e : Env) : World :=
  let saved := saved.prune e.unix
  let m := (saved.actions.map (seed start e.unix)).foldl (fun m x => m.recordAction x.1 x.2) w.m
  let w := { w with m := m, pending := pending, stage := .ready }
  if saved = before then w else w.save saved e

/-- What the machine asks for, handled by the executor. -/
def applyEvent (w : World) (i : Woken) : World :=
  let r := { w.m with userActivity := i.userActivity }.step i.event i.busy w.now
  { w with m := r.1, stage := match r.2 with | some rung => .act rung w.now | none => .ready }

def next (w : World) (e : Env) : World :=
  match w.stage with
  | .starting start =>
    match w.load e with
    | none => { w with pending := false, stage := .ready }
    | some saved =>
      { w with stage := if saved.restoreFastBoot then .restoring start saved else .seeding start saved saved false }
  | .restoring start saved =>
    -- one of the attempts went through, or none
    if e.ok then { w with fastBootOff := false, stage := .seeding start { saved with restoreFastBoot := false } saved false }
    else { w with stage := .seeding start saved saved true }
  | .seeding start saved before pending => w.seedMachine start saved before pending e
  | .ready => w
  | .retry i =>
    if e.ok then { w with fastBootOff := false, stage := .retryFlag i } else { w with stage := .apply i }
  | .retryFlag i => { w.setRestoreFlag false e with pending := false, stage := .apply i }
  | .apply i => w.applyEvent i
  | .act .reboot t => if e.ok then { w with fastBootOff := true, stage := .recordReboot t } else { w with stage := .ready }
  | .act rung t => { w.record rung t false e with stage := .effect rung t }
  | .effect rung t => { w with taken := w.taken ++ [(rung, t)], stage := .ready }
  | .recordReboot t => { w.record .reboot t true e with stage := if e.wrote = .done then .reboot t else .undo }
  | .reboot t => { w with taken := w.taken ++ [(.reboot, t)], stage := if e.ok then .ready else .undo }
  | .undo =>
    if e.ok then { w with fastBootOff := false, stage := .undoFlag false } else { w with stage := .undoFlag true }
  | .undoFlag b => { w.setRestoreFlag b e with stage := .ready }

def step (w : World) : Move → World
  | .wait elapsed => { w with now := w.now + elapsed }
  | .wake i =>
    match w.stage with
    | .ready => { w with stage := if w.pending then .retry i else .apply i }
    | _ => w
  | .next e => w.next e
  | .restart config => { w with m := .new config, pending := false, stage := .starting w.now }

/-! ## The properties -/

/-- The rungs with a daily cap. -/
def limited (rung : Rung) : Prop := rung.dailyCap.isSome

/-- The reboot rung is under way between turning fast boot off and settling the flag. -/
def midReboot (w : World) : Bool :=
  match w.stage with
  | .recordReboot _ | .undo | .undoFlag _ => true
  | _ => false

def flagSet (w : World) : Bool := w.file.any (·.restoreFastBoot)

structure Safe (w : World) : Prop where
  capped : ∀ rung cap, rung.dailyCap = some cap → Capped rung day cap w.taken
  flag : w.midReboot = false → w.fastBootOff → w.flagSet

/-- A device whose watchdog has not run yet. -/
structure Start (w : World) : Prop where
  stage : w.stage = .starting w.now
  on : w.fastBootOff = false
  taken : w.taken = []

/-! ## What can go wrong -/

instance (rung : Rung) : Decidable (limited rung) := inferInstanceAs (Decidable (_ = _))

/-- A modem reset or reboot was carried out in the last day. -/
def young (w : World) : Bool := w.taken.any fun x => decide (limited x.1) && w.now - day < x.2

/-- A record that still counts. -/
def counts (w : World) (r : ActionRecord) : Bool := decide (limited r.rung) && w.now - day < r.real

/-- Pruning drops no record that counts. -/
def keepsRecords (w : World) (p : Persisted) (unix : Nat) : Bool :=
  p.actions.all fun r => !w.counts r || ActionRecord.fresh unix r

/-- The wall clock gives no record that counts more than its real age. -/
def honest (w : World) (start : Int) (p : Persisted) (unix : Nat) : Bool :=
  p.actions.all fun r => !w.counts r || r.at' ≤ unix && secs (unix - r.at') ≤ start - r.real

/-- A write of the whole file keeps the records that count. -/
def keepsHistory (w : World) (e : Env) (pruned : Bool) : Bool :=
  !w.young ||
    match e.wrote with
    | .done => e.read && (!pruned || w.file.all (w.keepsRecords · e.unix))
    | .failed => true
    | .torn => false

/-- What the daily caps and the restore flag rest on:
    - the state file is read at a start, and before each write that is to keep its records;
    - the wall clock makes no record that counts look older than it is, nor as if it came
      from the future;
    - no write of the file is torn while a record counts or fast boot is off, and a modem
      reset is recorded;
    - a rung other than the reboot that runs while fast boot is off does not get to record
      itself, and the flag is written, or was set, when turning fast boot on again fails;
    - no restart falls between turning fast boot off and settling the flag. -/
def sound (w : World) : Move → Bool
  | .restart _ => !w.midReboot || !w.fastBootOff || w.flagSet
  | .next e =>
    match w.stage with
    | .starting _ => e.read || !w.young
    | .seeding start saved before _ =>
      (!w.young || w.honest start saved e.unix) &&
        (saved.prune e.unix = before || e.wrote != .torn || !w.young && !w.fastBootOff)
    | .retryFlag _ => w.keepsHistory e false
    | .act .reboot _ => true
    | .act rung _ => w.keepsHistory e true && (!decide (limited rung) || e.wrote = .done) && (!w.fastBootOff || e.wrote = .failed)
    | .recordReboot _ => w.keepsHistory e true
    | .undoFlag _ => w.keepsHistory e false && (!w.fastBootOff || e.wrote = .done || e.wrote = .failed && w.flagSet)
    | _ => true
  | _ => true

/-! ## Writes of the file -/

variable {w : World}

@[simp] theorem save_m (w : World) (p : Persisted) (e : Env) : (w.save p e).m = w.m := by unfold save; cases e.wrote <;> rfl

@[simp] theorem save_now (w : World) (p : Persisted) (e : Env) : (w.save p e).now = w.now := by unfold save; cases e.wrote <;> rfl

@[simp] theorem save_stage (w : World) (p : Persisted) (e : Env) : (w.save p e).stage = w.stage := by
  unfold save; cases e.wrote <;> rfl

@[simp] theorem save_off (w : World) (p : Persisted) (e : Env) : (w.save p e).fastBootOff = w.fastBootOff := by
  unfold save; cases e.wrote <;> rfl

@[simp] theorem save_taken (w : World) (p : Persisted) (e : Env) : (w.save p e).taken = w.taken := by
  unfold save; cases e.wrote <;> rfl

theorem save_file (w : World) (p : Persisted) (e : Env) :
    (w.save p e).file = match e.wrote with | .done => some p | .failed => w.file | .torn => none := by
  unfold save; cases e.wrote <;> rfl

/-- The records with their real times. -/
def reals (p : Persisted) : List (Rung × Int) := p.actions.map fun r => (r.rung, r.real)

def fileReals (file : Option Persisted) : List (Rung × Int) := (file.map reals).getD []

/-- The rungs of `xs` with a cap that still count are all in `ys`. -/
def Kept (now : Int) (xs ys : List (Rung × Int)) : Prop := Covers limited (now - day) xs ys

theorem kept_of_old (h : w.young = false) (ys : List (Rung × Int)) : Kept w.now w.taken ys := by
  refine Covers.of_old (fun x hx hl => ?_) ys
  have := List.any_eq_false.mp h x hx
  simp only [hl, decide_true, Bool.true_and, decide_eq_true_eq] at this
  omega

theorem young_cases (w : World) : w.young = false ∨ w.young = true := by cases w.young <;> simp

/-- Pruning a file that holds what was carried out. -/
theorem prune_kept {p : Persisted} {unix : Nat} (h : Kept w.now w.taken (reals p)) (hk : w.keepsRecords p unix) :
    Kept w.now w.taken (reals (p.prune unix)) := by
  refine h.trans (Covers.filter fun r hr hl ht => ?_)
  have := List.all_eq_true.mp hk r hr
  simpa [counts, hl, ht] using this

/-- What `record` and `set_restore_flag` read: all that counts, where the write keeps it. -/
theorem load_kept {e : Env} (h : Kept w.now w.taken (fileReals w.file)) (hr : e.read) : Kept w.now w.taken (reals ((w.load e).getD .default)) := by
  unfold load fileReals at *
  rw [if_pos hr]
  cases hf : w.file with
  | none => rw [hf] at h; exact h
  | some p => rw [hf] at h; exact h

theorem record_kept {e : Env} (h : Kept w.now w.taken (fileReals w.file)) (hk : w.keepsHistory e true) (rung : Rung) (t : Int) (b : Bool) :
    Kept w.now w.taken (fileReals (w.record rung t b e).file) ∧
      (e.wrote = .done → Kept w.now (w.taken ++ [(rung, t)]) (fileReals (w.record rung t b e).file)) := by
  have hfile : fileReals (w.record rung t b e).file = match e.wrote with
      | .done => reals (((w.load e).getD .default).prune e.unix) ++ [(rung, t)]
      | .failed => fileReals w.file
      | .torn => [] := by
    unfold record fileReals
    rw [save_file]
    cases e.wrote <;> simp [reals]
  rw [hfile]
  rcases young_cases w with hy | hy
  · refine ⟨kept_of_old hy _, fun hd => ?_⟩
    rw [hd]
    exact (kept_of_old hy _).append (.refl _ _ _)
  · simp only [keepsHistory, hy, Bool.not_true, Bool.false_or] at hk
    cases hw : e.wrote with
    | done =>
      simp only [hw, Bool.and_eq_true] at hk
      have hprune : Kept w.now w.taken (reals (((w.load e).getD .default).prune e.unix)) := by
        refine prune_kept (load_kept h hk.1) ?_
        unfold load
        rw [if_pos hk.1]
        cases hf : w.file with
        | none => rfl
        | some p => simpa [hf] using hk.2
      have happ : Kept w.now (w.taken ++ [(rung, t)]) _ := hprune.append (.refl _ _ [(rung, t)])
      refine ⟨?_, fun _ => happ⟩
      intro k hl a ha
      refine le_trans ?_ (happ k hl a ha)
      rw [since_append]
      omega
    | failed => exact ⟨h, fun hd => by cases hd⟩
    | torn => simp [hw] at hk

theorem setRestoreFlag_kept {e : Env} (h : Kept w.now w.taken (fileReals w.file)) (hk : w.keepsHistory e false) (b : Bool) :
    Kept w.now w.taken (fileReals (w.setRestoreFlag b e).file) := by
  have hfile : fileReals (w.setRestoreFlag b e).file = match e.wrote with
      | .done => reals ((w.load e).getD .default)
      | .failed => fileReals w.file
      | .torn => [] := by
    unfold setRestoreFlag fileReals
    rw [save_file]
    cases e.wrote <;> rfl
  rw [hfile]
  rcases young_cases w with hy | hy
  · exact kept_of_old hy _
  · simp only [keepsHistory, hy, Bool.not_true, Bool.false_or] at hk
    cases hw : e.wrote with
    | done =>
      simp only [hw, Bool.and_eq_true] at hk
      exact load_kept h hk.1
    | failed => exact h
    | torn => simp [hw] at hk

theorem foldl_recordAction (m : Machine) (xs : List (Rung × Int)) :
    (xs.foldl (fun m x => m.recordAction x.1 x.2) m).history = m.history ++ xs := by
  induction xs generalizing m with
  | nil => simp
  | cons x xs ih =>
    rw [List.foldl_cons, ih]
    simp [Machine.recordAction]

theorem honest_keeps {p : Persisted} {start : Int} {unix : Nat} (hs : start ≤ w.now) (h : w.honest start p unix) :
    w.keepsRecords p unix := by
  refine List.all_eq_true.mpr fun r hr => ?_
  have hr := List.all_eq_true.mp h r hr
  cases hc : w.counts r with
  | false => simp
  | true =>
    simp only [hc, Bool.not_true, Bool.false_or, Bool.and_eq_true, decide_eq_true_eq] at hr
    simp only [counts, Bool.and_eq_true, decide_eq_true_eq] at hc
    simp only [Bool.not_true, Bool.false_or, ActionRecord.fresh, Bool.and_eq_true, decide_eq_true_eq]
    refine ⟨hr.1, ?_⟩
    have hage := hr.2
    have hyoung := hc.2
    unfold day secs at *
    omega

/-- An honest clock seeds the machine with all that counts, none of it earlier. -/
theorem seeds_kept {p : Persisted} {start : Int} {unix : Nat} (hs : start ≤ w.now) (h : Kept w.now w.taken (reals p))
    (hk : w.honest start p unix) : Kept w.now w.taken ((p.prune unix).actions.map (seed start unix)) := by
  refine (prune_kept h (honest_keeps hs hk)).trans (Covers.map (fun _ _ => rfl) fun r hr hl ht => ?_)
  have hr := List.all_eq_true.mp hk r (List.mem_filter.mp hr).1
  have hc : w.counts r = true := by simp [counts, hl, ht]
  simp only [hc, Bool.not_true, Bool.false_or, Bool.and_eq_true, decide_eq_true_eq] at hr
  have hage := hr.2
  unfold seed
  omega

/-! ## The caps -/

/-- The rung under way, not carried out yet. -/
def running : Stage → List (Rung × Int)
  | .act rung t | .effect rung t => [(rung, t)]
  | .recordReboot t | .reboot t => [(.reboot, t)]
  | _ => []

/-- The same, once it is in the file. -/
def recorded : Stage → List (Rung × Int)
  | .effect rung t => [(rung, t)]
  | .reboot t => [(.reboot, t)]
  | _ => []

/-- What the process knows of what was carried out. -/
def Knows (w : World) : Prop :=
  match w.stage with
  | .starting start => start ≤ w.now
  | .restoring start saved | .seeding start saved _ _ => start ≤ w.now ∧ Kept w.now w.taken (reals saved)
  | _ => Kept w.now (w.taken ++ running w.stage) w.m.history

structure Counted (w : World) : Prop where
  capped : ∀ rung cap, rung.dailyCap = some cap → Capped rung day cap w.taken
  file : Kept w.now (w.taken ++ recorded w.stage) (fileReals w.file)
  knows : w.Knows
  free : ∀ x ∈ running w.stage, ∀ cap, x.1.dailyCap = some cap → ∀ a, x.2 - day < a → since x.1 a w.taken < cap

theorem Kept.taken {now : Int} {zs xs ys : List (Rung × Int)} (h : Kept now (zs ++ xs) ys) : Kept now zs ys := by
  intro k hl a ha
  refine le_trans ?_ (h k hl a ha)
  rw [since_append]
  omega

/-- Running a rung leaves everything in the machine's history. -/
theorem step_history (m : Machine) (e : Event) (busy : Bool) (now : Int) :
    (m.step e busy now).2 = none ∧ (m.step e busy now).1.history = m.history ∨
      ∃ rung, (m.step e busy now).2 = some rung ∧ (m.step e busy now).1.history = m.history ++ [(rung, now)] ∧
        ∀ cap, rung.dailyCap = some cap → ∀ a, now - day < a → since rung a m.history < cap := by
  have hd := Machine.step_does m e busy now
  generalize m.step e busy now = r at hd
  cases hd with
  | stays m' hst => exact .inl ⟨rfl, by cases hst <;> assumption⟩
  | asks m' rung ha hm =>
    rcases Machine.tryAct_cases m' rung busy now with ⟨u, htry⟩ | ⟨hb, htry⟩
    · rw [htry]
      exact .inl ⟨rfl, hm.history⟩
    · rw [htry]
      rw [hm.blockedUntil] at hb
      exact .inr ⟨rung, rfl, by rw [← hm.history], (Machine.free_of_unblocked hb).cap⟩

theorem counted_of_start (h : w.Start) : Counted w := by
  refine ⟨fun _ _ _ => ?_, ?_, ?_, ?_⟩
  · rw [h.taken]
    exact .nil _ _ _
  · rw [h.taken]
    simp only [recorded, h.stage, List.append_nil]
    exact Covers.of_old (by simp) _
  · simp [Knows, h.stage]
  · simp [running, h.stage]

theorem Kept.to_nil {now : Int} {xs ys : List (Rung × Int)} (h : Kept now xs []) : Kept now xs ys :=
  h.trans (Covers.of_old (by simp) ys)

/-- A step that carries nothing out. -/
theorem Counted.of_kept {w' : World} (h : Counted w) (ht : w'.taken = w.taken) (hn : w'.now = w.now)
    (hf : Kept w.now (w.taken ++ recorded w'.stage) (fileReals w'.file)) (hk : w'.Knows) (hr : ∀ x ∈ running w'.stage, x ∈ running w.stage) : Counted w' := by
  refine ⟨ht ▸ h.capped, ?_, hk, ht ▸ fun x hx => h.free x (hr x hx)⟩
  unfold Kept at hf ⊢
  rwa [ht, hn]

/-- Nothing is under way at `st`, which comes after the seeding. -/
theorem Counted.known (h : Counted w) {st : Stage} (hst : w.stage = st) (hrun : running st = [])
    (hkn : Knows { w with stage := st } = Kept w.now (w.taken ++ running st) w.m.history) :
    Kept w.now w.taken w.m.history := by
  have hk : Knows { w with stage := st } := hst ▸ h.knows
  rwa [hkn, hrun, List.append_nil] at hk

theorem Counted.idles {w' : World} (h : Counted w) (hf : Kept w.now w.taken (fileReals w'.file))
    (hk : Kept w.now w.taken w'.m.history) (ht : w'.taken = w.taken) (hn : w'.now = w.now)
    (hrun : running w'.stage = []) (hrec : recorded w'.stage = [])
    (hkn : w'.Knows = Kept w'.now (w'.taken ++ running w'.stage) w'.m.history) : Counted w' := by
  refine h.of_kept ht hn ?_ ?_ (by simp [hrun])
  · rwa [hrec, List.append_nil]
  · rwa [hkn, hrun, List.append_nil, hn, ht]

theorem counted_starting {e : Env} {start : Int} (h : Counted w) (hst : w.stage = .starting start)
    (hm : w.young = false ∨ e.read = true) : Counted (w.next e) := by
  have hknow : start ≤ w.now := by simpa [Knows, hst] using h.knows
  have hfile : Kept w.now w.taken (fileReals w.file) := h.file.taken
  unfold next
  simp only [hst]
  cases hl : w.load e with
  | none =>
    refine h.idles hfile ?_ rfl rfl rfl rfl rfl
    · rcases hm with hy | hr
      · exact kept_of_old hy _
      · -- there is no file: nothing counts
        have hnone : w.file = none := by simpa [load, hr] using hl
        exact Kept.to_nil (by simpa [fileReals, hnone] using hfile)
  | some saved =>
    have hsaved : w.file = some saved := by
      unfold load at hl
      split at hl
      · exact hl
      · cases hl
    have hreals : Kept w.now w.taken (reals saved) := by simpa [fileReals, hsaved] using hfile
    dsimp only
    split
    · exact h.of_kept rfl rfl (by simpa [recorded] using hfile) ⟨hknow, hreals⟩ (by simp [running])
    · exact h.of_kept rfl rfl (by simpa [recorded] using hfile) ⟨hknow, hreals⟩ (by simp [running])

theorem counted_seeding {e : Env} {start : Int} {saved before : Persisted} {pending : Bool} (h : Counted w)
    (hst : w.stage = .seeding start saved before pending) (hc : w.young = false ∨ w.honest start saved e.unix = true)
    (hw : saved.prune e.unix = before ∨ e.wrote ≠ .torn ∨ w.young = false) : Counted (w.seedMachine start saved before pending e) := by
  obtain ⟨hs, hreals⟩ : start ≤ w.now ∧ Kept w.now w.taken (reals saved) := by simpa [Knows, hst] using h.knows
  have hfile : Kept w.now w.taken (fileReals w.file) := h.file.taken
  have hprune : Kept w.now w.taken (reals (saved.prune e.unix)) := by
    rcases hc with hy | hh
    · exact kept_of_old hy _
    · exact prune_kept hreals (honest_keeps hs hh)
  have hseeds : Kept w.now w.taken (w.m.history ++ (saved.prune e.unix).actions.map (seed start e.unix)) := by
    rcases hc with hy | hh
    · exact kept_of_old hy _
    · refine (seeds_kept hs hreals hh).trans ?_
      have hnone : ∀ x ∈ ([] : List (Rung × Int)), limited x.1 → x.2 ≤ w.now - day := by simp
      exact (Covers.of_old hnone w.m.history).append (.refl _ _ _)
  unfold seedMachine
  dsimp only
  split
  · exact h.idles hfile (by simpa [foldl_recordAction] using hseeds) rfl rfl rfl rfl rfl
  · refine h.idles ?_ (by simpa [foldl_recordAction] using hseeds) (by simp) (by simp) (by simp [running])
      (by simp [recorded]) (by simp [Knows])
    · rw [save_file]
      cases hwr : e.wrote with
      | done => exact hprune
      | failed => exact hfile
      | torn =>
        refine kept_of_old ?_ _
        rcases hw with hb | hb | hy
        · contradiction
        · exact absurd hwr hb
        · exact hy

theorem counted_apply {i : Woken} (h : Counted w) (hst : w.stage = .apply i) : Counted (w.applyEvent i) := by
  have hfile : Kept w.now w.taken (fileReals w.file) := h.file.taken
  have hknow := h.known hst rfl rfl
  have hstep := step_history { w.m with userActivity := i.userActivity } i.event i.busy w.now
  unfold applyEvent
  dsimp only at hstep ⊢
  generalize Machine.step _ i.event i.busy w.now = r at hstep ⊢
  obtain ⟨m, act⟩ := r
  rcases hstep with ⟨rfl, hh⟩ | ⟨rung, rfl, hh, hcap⟩
  · exact h.idles hfile (hh ▸ hknow) rfl rfl rfl rfl rfl
  · refine ⟨h.capped, by simpa [recorded] using hfile, ?_, fun x hx cap hc a ha => ?_⟩
    · -- the run is in the history
      have happ : Kept w.now (w.taken ++ [(rung, w.now)]) (w.m.history ++ [(rung, w.now)]) := hknow.append (.refl _ _ _)
      have hh : m.history = w.m.history ++ [(rung, w.now)] := hh
      simpa [Knows, running, hh] using happ
    · obtain rfl : x = (rung, w.now) := by simpa [running] using hx
      have hl : limited rung := by simp [limited, show rung.dailyCap = some cap from hc]
      exact hknow.since_lt hl ha (hcap cap hc a ha)

/-- The command is sent: one more rung is carried out. -/
theorem Counted.takes {rung : Rung} {t : Int} {st : Stage} (h : Counted w) (hr : running w.stage = [(rung, t)])
    (hrec : recorded w.stage = [(rung, t)]) (hk : w.Knows → Kept w.now (w.taken ++ [(rung, t)]) w.m.history)
    (hst : running st = []) (hst' : recorded st = [])
    (hkn : ∀ w' : World, w'.stage = st → Kept w'.now w'.taken w'.m.history → w'.Knows) :
    Counted { w with taken := w.taken ++ [(rung, t)], stage := st } := by
  refine ⟨fun r cap hc => (h.capped r cap hc).snoc _ fun hrr a ha => ?_, ?_, hkn _ rfl (hk h.knows), by simp [hst]⟩
  · obtain rfl : rung = r := hrr
    exact h.free (rung, t) (by simp [hr]) cap hc a ha
  · have hf := h.file
    rw [hrec] at hf
    simpa [hst'] using hf

theorem Counted.next {e : Env} (h : Counted w) (hm : w.sound (.next e)) : Counted (w.next e) := by
  have hfile : Kept w.now w.taken (fileReals w.file) := h.file.taken
  cases hst : w.stage with
  | starting start => exact counted_starting h hst (by simpa [sound, hst, or_comm] using hm)
  | restoring start saved =>
    have hknow : start ≤ w.now ∧ Kept w.now w.taken (reals saved) := by simpa [Knows, hst] using h.knows
    simp only [World.next, hst]
    split
    · exact h.of_kept rfl rfl (by simpa [recorded] using hfile) hknow (by simp [running])
    · exact h.of_kept rfl rfl (by simpa [recorded] using hfile) hknow (by simp [running])
  | seeding start saved before pending =>
    simp only [sound, hst, Bool.and_eq_true, Bool.or_eq_true, Bool.not_eq_true', decide_eq_true_eq, bne_iff_ne] at hm
    simp only [World.next, hst]
    refine counted_seeding h hst hm.1 ?_
    tauto
  | ready => simpa only [World.next, hst] using h
  | retry i =>
    have hknow := h.known hst rfl rfl
    simp only [World.next, hst]
    split
    · exact h.idles hfile hknow rfl rfl rfl rfl rfl
    · exact h.idles hfile hknow rfl rfl rfl rfl rfl
  | retryFlag i =>
    have hknow := h.known hst rfl rfl
    have hkept := setRestoreFlag_kept hfile (by simpa only [sound, hst] using hm) false
    simp only [World.next, hst]
    exact h.idles hkept (by simpa [setRestoreFlag] using hknow) (by simp [setRestoreFlag]) (by simp [setRestoreFlag]) rfl rfl rfl
  | apply i =>
    simp only [World.next, hst]
    exact counted_apply h hst
  | act rung t =>
    have hknow : Kept w.now (w.taken ++ [(rung, t)]) w.m.history := by simpa [Knows, hst, running] using h.knows
    by_cases hreb : rung = .reboot
    · subst hreb
      simp only [World.next, hst]
      split
      · exact h.of_kept rfl rfl (by simpa [recorded] using hfile) (by simpa [Knows, running] using hknow) (by simp [running, hst])
      · exact h.idles hfile hknow.taken rfl rfl rfl rfl rfl
    · have hsound : w.keepsHistory e true = true ∧ (decide (limited rung) = false ∨ e.wrote = .done) := by
        cases rung <;> simp_all [sound]
      obtain ⟨hold, hnew⟩ := record_kept hfile hsound.1 rung t false
      have hnext : w.next e = { w.record rung t false e with stage := .effect rung t } := by
        cases rung <;> simp_all [World.next]
      rw [hnext]
      refine h.of_kept (by simp [record]) (by simp [record]) ?_ ?_ (by simp [running, hst])
      · rcases hsound.2 with hl | hd
        · -- a rung without a cap need not be in the file
          have hnone : Covers limited (w.now - day) [(rung, t)] [] := .of_old (by simpa using fun h => absurd h (by simpa using hl)) []
          have happ := Covers.append hold hnone
          rw [List.append_nil] at happ
          exact happ
        · exact hnew hd
      · simpa [Knows, running, record] using hknow
  | effect rung t =>
    simp only [World.next, hst]
    refine h.takes (by simp [running, hst]) (by simp [recorded, hst]) (fun hk => ?_) rfl rfl fun w' hw' hk => ?_
    · simpa [Knows, hst, running] using hk
    · simpa [Knows, hw', running] using hk
  | recordReboot t =>
    have hknow : Kept w.now (w.taken ++ [(.reboot, t)]) w.m.history := by simpa [Knows, hst, running] using h.knows
    obtain ⟨hold, hnew⟩ := record_kept hfile (by simpa only [sound, hst] using hm) .reboot t true
    simp only [World.next, hst]
    split
    · next hd =>
      refine h.of_kept (by simp [record]) (by simp [record]) (hnew hd) ?_ (by simp [running, hst])
      simpa [Knows, running, record] using hknow
    · refine h.of_kept (by simp [record]) (by simp [record]) (by simpa [recorded] using hold) ?_ (by simp [running])
      simpa [Knows, running, record] using hknow.taken
  | reboot t =>
    simp only [World.next, hst]
    refine h.takes (by simp [running, hst]) (by simp [recorded, hst]) (fun hk => ?_) ?_ ?_ fun w' hw' hk => ?_
    · simpa [Knows, hst, running] using hk
    · split <;> rfl
    · split <;> rfl
    · cases he : e.ok <;> simpa [Knows, hw', running, he] using hk
  | undo =>
    have hknow := h.known hst rfl rfl
    simp only [World.next, hst]
    split
    · exact h.idles hfile hknow rfl rfl rfl rfl rfl
    · exact h.idles hfile hknow rfl rfl rfl rfl rfl
  | undoFlag b =>
    have hknow := h.known hst rfl rfl
    simp only [sound, hst, Bool.and_eq_true] at hm
    have hkept := setRestoreFlag_kept hfile hm.1 b
    simp only [World.next, hst]
    exact h.idles hkept (by simpa [setRestoreFlag] using hknow) (by simp [setRestoreFlag]) (by simp [setRestoreFlag]) rfl rfl rfl

theorem Counted.step (h : Counted w) (mv : Move) (hm : w.sound mv) : Counted (w.step mv) := by
  cases mv with
  | wait elapsed =>
    -- less counts as time goes by
    have hle : w.now - day ≤ w.now + elapsed - day := by omega
    refine ⟨h.capped, Covers.later h.file hle, ?_, h.free⟩
    have hk := h.knows
    unfold Knows at hk ⊢
    simp only [World.step]
    split at hk
    · omega
    · exact ⟨by omega, Covers.later hk.2 hle⟩
    · exact ⟨by omega, Covers.later hk.2 hle⟩
    · exact Covers.later hk hle
  | wake i =>
    simp only [World.step]
    split
    · next hst =>
      have hfile : Kept w.now w.taken (fileReals w.file) := h.file.taken
      have hknow := h.known hst rfl rfl
      cases hp : w.pending with
      | true =>
        exact h.idles hfile hknow rfl rfl rfl rfl rfl
      | false =>
        exact h.idles hfile hknow rfl rfl rfl rfl rfl
    · exact h
  | next e => exact h.next hm
  | restart config =>
    exact h.of_kept rfl rfl (by simpa [recorded, World.step] using h.file.taken) (by simp [Knows, World.step]) (by simp [running, World.step])

/-! ## The restore flag -/

/-- What stands for the flag at each point of the thread's way. -/
def Flagged (w : World) : Prop :=
  match w.stage with
  | .restoring _ saved => saved.restoreFastBoot ∧ (w.fastBootOff → w.flagSet)
  | .seeding _ saved _ _ => w.fastBootOff → saved.restoreFastBoot ∧ w.flagSet
  | .retryFlag _ => w.fastBootOff = false
  | .recordReboot _ | .undo => True
  | .undoFlag b => w.fastBootOff → b
  | _ => w.fastBootOff → w.flagSet

theorem flagged_of_start (h : w.Start) : Flagged w := by
  simp [Flagged, h.stage, h.on]

theorem Flagged.set (h : Flagged w) (hm : w.midReboot = false) (ho : w.fastBootOff) : w.flagSet := by
  unfold Flagged at h
  unfold midReboot at hm
  split at h
  · exact h.2 ho
  · exact (h ho).2
  · simp [h] at ho
  · simp_all
  · simp_all
  · simp_all
  · exact h ho

theorem flagSet_save (w : World) (p : Persisted) (e : Env) :
    (w.save p e).flagSet = match e.wrote with | .done => p.restoreFastBoot | .failed => w.flagSet | .torn => false := by
  unfold flagSet
  rw [save_file]
  cases e.wrote <;> rfl

theorem Flagged.next {e : Env} (h : Flagged w) (hm : w.sound (.next e)) : Flagged (w.next e) := by
  cases hst : w.stage with
  | starting start =>
    simp only [Flagged, hst] at h
    simp only [World.next, hst]
    cases hl : w.load e with
    | none => exact h
    | some saved =>
      have hsaved : w.file = some saved := by
        unfold load at hl
        split at hl
        · exact hl
        · cases hl
      cases hf : saved.restoreFastBoot with
      | true =>
        simp only [hf, if_true]
        exact ⟨hf, h⟩
      | false =>
        simp only [hf, Bool.false_eq_true, if_false]
        -- fast boot is not off: the flag is not set
        intro ho
        have := h ho
        simp [flagSet, hsaved, hf] at this
  | restoring start saved =>
    simp only [Flagged, hst] at h
    simp only [World.next, hst]
    split
    · simp [Flagged]
    · exact fun ho => ⟨h.1, h.2 ho⟩
  | seeding start saved before pending =>
    simp only [Flagged, hst] at h
    simp only [sound, hst, Bool.and_eq_true, Bool.or_eq_true, Bool.not_eq_true', decide_eq_true_eq, bne_iff_ne] at hm
    simp only [World.next, hst, seedMachine]
    split
    · exact fun ho => (h ho).2
    · next hne =>
      simp only [Flagged, save_stage, save_off, flagSet_save]
      intro ho
      cases hw : e.wrote with
      | done => exact (h ho).1
      | failed => exact (h ho).2
      | torn =>
        rcases hm.2 with (hb | hb) | hb
        · contradiction
        · exact absurd hw hb
        · simp [hb.2] at ho
  | ready => simpa only [World.next, hst] using h
  | retry i =>
    simp only [Flagged, hst] at h
    simp only [World.next, hst]
    split
    · simp [Flagged]
    · exact h
  | retryFlag i =>
    simp only [Flagged, hst] at h
    simp [World.next, hst, Flagged, setRestoreFlag, h]
  | apply i =>
    simp only [Flagged, hst] at h
    simp only [World.next, hst, applyEvent]
    split
    · exact h
    · exact h
  | act rung t =>
    simp only [Flagged, hst] at h
    by_cases hreb : rung = .reboot
    · subst hreb
      simp only [World.next, hst]
      split
      · trivial
      · exact h
    · have hoff : w.fastBootOff = false ∨ e.wrote = .failed := by cases rung <;> simp_all [sound]
      have hnext : w.next e = { w.record rung t false e with stage := .effect rung t } := by
        cases rung <;> simp_all [World.next]
      rw [hnext]
      simp only [Flagged, record, save_off]
      intro ho
      rcases hoff with hno | hw
      · simp [hno] at ho
      · -- the record is not written, and the flag stays
        have hs := flagSet_save w ⟨false, (((w.load e).getD .default).prune e.unix).actions ++ [⟨rung, e.unix, t⟩]⟩ e
        rw [hw] at hs
        exact hs.trans (h ho)
  | effect rung t =>
    simp only [Flagged, hst] at h
    simp only [World.next, hst]
    exact h
  | recordReboot t =>
    simp only [World.next, hst]
    split
    · next hd =>
      intro _
      have hs := flagSet_save w ⟨true, (((w.load e).getD .default).prune e.unix).actions ++ [⟨.reboot, e.unix, t⟩]⟩ e
      rw [hd] at hs
      exact hs
    · trivial
  | reboot t =>
    simp only [Flagged, hst] at h
    simp only [World.next, hst]
    split
    · exact h
    · trivial
  | undo =>
    simp only [World.next, hst]
    split
    · simp [Flagged]
    · exact fun _ => rfl
  | undoFlag b =>
    simp only [Flagged, hst] at h
    simp only [sound, hst, Bool.and_eq_true, Bool.or_eq_true, Bool.not_eq_true', decide_eq_true_eq] at hm
    simp only [World.next, hst, Flagged, setRestoreFlag, save_off]
    intro ho
    have hs := flagSet_save w { (w.load e).getD .default with restoreFastBoot := b } e
    refine hs.trans ?_
    rcases hm.2 with (hno | hd) | hd
    · simp [hno] at ho
    · rw [hd]
      exact h ho
    · rw [hd.1]
      exact hd.2

theorem Flagged.step (h : Flagged w) (mv : Move) (hm : w.sound mv) : Flagged (w.step mv) := by
  cases mv with
  | wait elapsed => exact h
  | wake i =>
    simp only [World.step]
    split
    · next hst =>
      simp only [Flagged, hst] at h
      cases hp : w.pending <;> exact h
    · exact h
  | next e => exact h.next hm
  | restart config =>
    intro ho
    have ho : w.fastBootOff = true := ho
    show w.flagSet = true
    simp only [sound, ho, Bool.not_true, Bool.or_false, Bool.or_eq_true, Bool.not_eq_true'] at hm
    rcases hm with hmid | hs
    · exact h.set hmid ho
    · exact hs

/-- The caps hold in real time and the flag stands for a fast boot left off, in every run
    whose steps are sound. -/
theorem watchdog_safe {ms : List Move} (hs : w.Start) (hm : Along step (fun w mv => w.sound mv = true) w ms) :
    Safe (exec step w ms) := by
  have hc := invariant_along (I := Counted) (fun _ mv h hm => h.step mv hm) (counted_of_start hs) hm
  have hf := invariant_along (I := Flagged) (fun _ mv h hm => h.step mv hm) (flagged_of_start hs) hm
  exact ⟨hc.capped, hf.set⟩

def unused : World := ⟨.new ⟨true, true⟩, 0, none, false, .starting 0, false, []⟩

/-- An event `secs'` seconds on, and the thread's way through it, every effect going well. -/
def handled (secs' : Nat) (e : Event) (steps : Nat) (unix : Nat) : List Move :=
  [.wait (secs' * 10 ^ 9), .wake ⟨e, none, false⟩] ++ List.replicate steps (.next ⟨true, .done, true, unix⟩)

/-- The ladder up to the reboot; the wall clock reads `100000` at the start. -/
def upToReboot : List Move :=
  [.next ⟨true, .done, true, 100000⟩] ++ handled 0 (.wan true) 1 100000 ++ handled 0 (.probe false) 1 100000 ++
    handled 300 (.probe false) 1 100300 ++ handled 300 (.probe false) 3 100600 ++ handled 300 (.probe false) 3 100900 ++
    handled 300 (.probe false) 3 101200 ++ handled 300 (.probe false) 4 101500

/-- The router comes up again with the right time, and fast boot can be turned on. -/
def rebooted : List Move :=
  upToReboot ++ [.wait (60 * 10 ^ 9), .restart ⟨true, true⟩] ++ List.replicate 3 (.next ⟨true, .done, true, 101560⟩)

theorem reboot_survived :
    Safe (exec step unused rebooted) ∧
      (exec step unused rebooted).m.history.map (·.1) = [.pdnReconnect, .lpmOnline, .modemReset, .reboot] ∧
      (exec step unused upToReboot).fastBootOff ∧ (exec step unused rebooted).fastBootOff = false :=
  ⟨watchdog_safe ⟨rfl, rfl, rfl⟩ (by decide +kernel), by decide +kernel⟩

/-- ubus is not up after the reboot, so the restore stays pending, and the next outage
    runs rung 1 before it goes through. -/
def stillPending : List Move :=
  let ubusDown (unix : Nat) : Move := .next ⟨true, .done, false, unix⟩
  let failing (secs' unix : Nat) : List Move := [.wait (secs' * 10 ^ 9), .wake ⟨.probe false, none, false⟩] ++ List.replicate 2 (ubusDown unix)
  upToReboot ++ [.wait (60 * 10 ^ 9), .restart ⟨true, true⟩] ++ List.replicate 3 (ubusDown 101560) ++
    [.wake ⟨.wan true, none, false⟩, ubusDown 101560, ubusDown 101560] ++
    failing 0 101560 ++ failing 300 101860 ++ failing 300 102160 ++ [ubusDown 102160, ubusDown 102160]

theorem pending_restore_cleared : ¬ ∀ (w : World) (ms : List Move), w.Start → Safe (exec step w ms) := by
  intro h
  have hset := (h unused stillPending ⟨rfl, rfl, rfl⟩).flag
  exact absurd (hset (by decide +kernel) (by decide +kernel)) (by decide +kernel)

end World

end OpenU60.ConnWatchdog
