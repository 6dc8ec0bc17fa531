/-
  OpenU60.Tailscale.Handshake — the thread that keeps tailscaled running, and those who stop, pause and wake it
  (`zte-agent/src/tailscale/mod.rs`: `supervise`, `monitor_until_exit`, `park_while_active`, `wake_supervisor`,
  `quiesce_supervisor`, `resume_supervisor`, `do_enable`, `do_disable`, `ensure_daemon_ready`, `kill_child`).

  The supervisor stands at a `Spot`, a caller before the rest of its script; each reads or stores one flag a step, and
  takes, holds and gives back the wake lock. What a step finds outside (is the daemon installed, has the
  child ended, is it late) is in the event. What touches no flag, lock, pid or child is one step: the probes, the
  cleaning, the preferences, a status poll.

  `epoch`, `saw` and `quiesced` of a caller and the number of `clears` are ghosts: which pause a quiesce
  has set, what it has found since, and whether a quiesce of that pause has returned true.
-/

import Mathlib
import OpenU60.Lib.Machine

namespace OpenU60.Tailscale.Handshake

open OpenU60.Lib

/-- Where the supervisor reads `running` and, if that is set, `paused`. -/
inductive Check where
  | head
  /-- In `wait_for_clock_and_wan`, and after it. -/
  | wan
  | gate
  /-- The last one before the spawn. -/
  | last
  | monitor
  /-- In the wait for the next poll. -/
  | poll
  deriving DecidableEq

/-- Where it parks. -/
inductive Park where
  | idle
  | backoff
  | wan
  | poll
  deriving DecidableEq

inductive Spot where
  | unborn
  | reads (c : Check)
  | readsPaused (c : Check)
  | setsIdle
  /-- On its way into a park: for the lock, with the lock at the two reads of the predicate, about to wait. -/
  | locks (p : Park)
  | evaluates (p : Park)
  | evaluatesPaused (p : Park)
  | waits (p : Park)
  | parked (p : Park)
  | woken (p : Park)
  | leaves (p : Park)
  | looks
  | setsIdleUninstalled
  | sleeps
  | clearsIdle
  | probes
  | cleans
  | spawns
  | records
  | applies
  | tries
  | polls
  | triesAgain
  | clocks
  | stops
  | forgets
  | ends
  deriving DecidableEq

/-- What a step of the supervisor finds. -/
structure Outside where
  installed : Bool := true
  /-- The clock and the WAN are there. -/
  ready : Bool := true
  spawned : Bool := true
  /-- A poll decides to restart the daemon. -/
  restarts : Bool := false
  /-- The time of a wait is up. -/
  late : Bool := false
  deriving DecidableEq

inductive Stmt where
  | running (b : Bool)
  | paused (b : Bool)
  /-- `ensure_supervisor`. -/
  | ensure
  /-- `wake_supervisor` takes the lock, notifies and gives it back. -/
  | lock
  | notify
  /-- `kill_child` reads the pid and sends the signal. -/
  | signal
  | seesIdle
  | seesNoChild
  deriving DecidableEq

inductive Op where
  | quiesce
  | resume
  | enable
  | disable
  | ensureDaemonReady
  | killChild
  deriving DecidableEq

def wakeSupervisor : List Stmt := [.lock, .notify]

def killChild : List Stmt := .signal :: wakeSupervisor

/-- A second of `quiesce_supervisor`'s wait; every fifth signals the child again. -/
def quiesceRound (i : Nat) : List Stmt := (if i % 5 = 0 then killChild else []) ++ [.seesIdle, .seesNoChild]

def quiesceTimeout : Nat := 60

def Op.script : Op → List Stmt
  | quiesce => .paused true :: (wakeSupervisor ++ (List.range quiesceTimeout).flatMap quiesceRound)
  | resume => .paused false :: wakeSupervisor
  | enable => .running true :: .ensure :: wakeSupervisor
  | disable => .running false :: (wakeSupervisor ++ Handshake.killChild)
  | ensureDaemonReady => .running true :: .ensure :: wakeSupervisor
  | killChild => Handshake.killChild

structure Caller where
  script : List Stmt := []
  epoch : Option Nat := none
  saw : Bool := false
  quiesced : Bool := false

inductive Holder where
  | supervisor
  | caller (i : Nat)
  deriving DecidableEq

structure World where
  running : Bool := false
  paused : Bool := false
  started : Bool := false
  idle : Bool := true
  childPid : Option Nat := none
  lock : Option Holder := none
  spot : Spot := .unborn
  /-- The child the supervisor waits for, those that live, and how many it has spawned. -/
  child : Option Nat := none
  alive : List Nat := []
  spawned : Nat := 0
  /-- How often `paused` has been cleared. -/
  clears : Nat := 0
  callers : Nat → Caller := fun _ => {}

inductive Event where
  | calls (i : Nat) (op : Op)
  | moves (i : Nat)
  | supervises (x : Outside)
  /-- A child ends, by a signal or on its own. -/
  | dies (pid : Nat)

namespace World

/-- Where a check leads that finds the daemon unwanted or paused. -/
def stopped : Check → Spot
  | .head => .setsIdle
  | .wan => .reads .gate
  | .gate | .last => .reads .head
  | .monitor => .stops
  | .poll => .reads .monitor

def wanted : Check → Spot
  | .head => .looks
  | .wan => .probes
  | .gate => .cleans
  | .last => .spawns
  | .monitor => .tries
  | .poll => .triesAgain

/-- Where a park leads; the wait for the WAN ends after ninety seconds. -/
def after (late : Bool) : Park → Spot
  | .idle | .backoff => .reads .head
  | .wan => if late then .reads .gate else .reads .wan
  | .poll => .reads .poll

/-- What the predicate of a park says to `running`, and then to `paused`: wait on, go, or read on. -/
def onRunning (p : Park) (running : Bool) : Spot :=
  match p with
  | .idle => if running then .evaluatesPaused .idle else .waits .idle
  | p => if running then .evaluatesPaused p else .leaves p

def onPaused (p : Park) (paused : Bool) : Spot :=
  match p with
  | .idle => if paused then .waits .idle else .leaves .idle
  | p => if paused then .leaves p else .waits p

/-- The wait for a poll has no predicate. -/
def locked : Park → Spot
  | .poll => .waits .poll
  | p => .evaluates p

def relocked : Park → Spot
  | .poll => .leaves .poll
  | p => .evaluates p

def take (w : World) (h : Holder) (spot : Spot) : World :=
  if w.lock = none then { w with lock := some h, spot } else w

/-- `try_wait`: the child has ended. It does not fail for a child of one's own. -/
def gone (w : World) : Bool := w.child.all (· ∉ w.alive)

def supervise (w : World) (x : Outside) : World :=
  match w.spot with
  | .unborn => w
  | .reads c => { w with spot := if w.running then .readsPaused c else stopped c }
  | .readsPaused c => { w with spot := if w.paused then stopped c else wanted c }
  | .setsIdle => { w with idle := true, spot := .locks .idle }
  | .locks p => w.take .supervisor (locked p)
  | .evaluates p => { w with spot := onRunning p w.running }
  | .evaluatesPaused p => { w with spot := onPaused p w.paused }
  | .waits p => if x.late then { w with spot := .leaves p } else { w with lock := none, spot := .parked p }
  | .parked p => { w with spot := .woken p }
  | .woken p => w.take .supervisor (relocked p)
  | .leaves p => { w with lock := none, spot := after x.late p }
  | .looks => { w with spot := if x.installed then .clearsIdle else .setsIdleUninstalled }
  | .setsIdleUninstalled => { w with idle := true, spot := .sleeps }
  | .sleeps => { w with spot := .reads .head }
  | .clearsIdle => { w with idle := false, spot := .reads .wan }
  | .probes => { w with spot := if x.ready then .reads .gate else .locks .wan }
  | .cleans => { w with spot := .reads .last }
  | .spawns =>
    if x.spawned then
      { w with child := some w.spawned, alive := w.spawned :: w.alive, spawned := w.spawned + 1, spot := .records }
    else { w with spot := .ends }
  | .records => { w with childPid := w.child, spot := .applies }
  | .applies => { w with spot := .reads .monitor }
  | .tries => { w with spot := if w.gone then .forgets else .polls }
  | .polls => { w with spot := if x.restarts then .stops else .reads .poll }
  | .triesAgain => { w with spot := if w.gone then .reads .monitor else .clocks }
  | .clocks => { w with spot := if x.late then .reads .monitor else .locks .poll }
  | .stops => { w with alive := w.alive.filter (w.child ≠ some ·), spot := .forgets }
  | .forgets => { w with childPid := none, child := none, spot := .ends }
  | .ends => { w with spot := if w.running then .locks .backoff else .reads .head }

def setCaller (w : World) (i : Nat) (c : Caller) : World := { w with callers := Function.update w.callers i c }

/-- A caller's next statement. -/
def move (w : World) (i : Nat) : World :=
  let c := w.callers i
  match c.script with
  | [] => w
  | .running b :: rest => { w with running := b }.setCaller i { c with script := rest }
  | .paused true :: rest =>
    { w with paused := true }.setCaller i
      { script := rest, epoch := some w.clears, saw := false, quiesced := c.quiesced && c.epoch = some w.clears }
  | .paused false :: rest => { w with paused := false, clears := w.clears + 1 }.setCaller i { c with script := rest }
  | .ensure :: rest =>
    (if w.started then w else { w with started := true, spot := .reads .head }).setCaller i { c with script := rest }
  | .lock :: rest => if w.lock = none then { w with lock := some (.caller i) }.setCaller i { c with script := rest } else w
  | .notify :: rest =>
    { w with lock := none, spot := match w.spot with | .parked p => .woken p | s => s }.setCaller i { c with script := rest }
  | .signal :: rest => w.setCaller i { c with script := rest }
  | .seesIdle :: rest =>
    w.setCaller i (if w.idle then { c with script := rest, saw := true } else { c with script := rest.drop 1, saw := false })
  | .seesNoChild :: rest =>
    w.setCaller i (if w.childPid = none then { c with script := [], quiesced := true } else { c with script := rest, saw := false })

def step (w : World) : Event → World
  | .calls i op => if (w.callers i).script = [] then w.setCaller i { w.callers i with script := op.script } else w
  | .moves i => w.move i
  | .supervises x => w.supervise x
  | .dies pid => { w with alive := w.alive.filter (· ≠ pid) }

def start : World := {}

end World

/-! ## What the handshake is for -/

/-- The flags a park waits to see. -/
def Park.awaits (p : Park) (running paused : Bool) : Bool :=
  match p with
  | idle => running && !paused
  | _ => !running || paused

/-- Between a store and the end of its notification. -/
def owes : List Stmt → Bool
  | .ensure :: _ | .lock :: _ | .notify :: _ => true
  | _ => false

namespace World

/-- The binaries are free: no child, and the next step spawns none. -/
def Free (w : World) : Prop := w.alive = [] ∧ ∀ e, (w.step e).spawned = w.spawned

/-- Quiesced, and not yet resumed. -/
def Quiesced (w : World) (i : Nat) : Prop := (w.callers i).quiesced = true ∧ (w.callers i).epoch = some w.clears

def Owed (w : World) : Prop := ∃ i, owes (w.callers i).script = true

/-- It is parked though the flags are there and every wake is over. -/
def Lost (w : World) : Prop := ∃ p, w.spot = .parked p ∧ p.awaits w.running w.paused = true ∧ ¬ w.Owed

end World

/-! ## Where the supervisor may stand -/

namespace Spot

/-- It has the lock. -/
def holds : Spot → Bool
  | evaluates _ | evaluatesPaused _ | waits _ | leaves _ => true
  | _ => false

/-- It waits for a child. -/
def withChild : Spot → Bool
  | records | applies | reads .monitor | readsPaused .monitor | tries | polls | reads .poll | readsPaused .poll | triesAgain | clocks |
    stops => true
  | locks p | evaluates p | evaluatesPaused p | waits p | parked p | woken p | leaves p => p = .poll
  | _ => false

/-- It may have declared itself idle. -/
def resting : Spot → Bool
  | unborn | reads .head | readsPaused .head | setsIdle | looks | setsIdleUninstalled | sleeps | clearsIdle => true
  | locks p | evaluates p | evaluatesPaused p | waits p | parked p | woken p | leaves p => p = .idle
  | _ => false

/-- It looks at `paused` once more before it spawns. -/
def safe : Spot → Bool
  | reads .wan | readsPaused .wan | probes | reads .gate | readsPaused .gate | cleans | reads .last | readsPaused .last => true
  | locks p | evaluates p | evaluatesPaused p | waits p | parked p | woken p | leaves p => p = .idle ∨ p = .wan
  | s => s.resting

/-- Where it is about to wait, or waits, the flags are as it has read them. -/
def sees (s : Spot) (running paused : Bool) : Bool :=
  match s with
  | evaluatesPaused .idle => true
  | evaluatesPaused _ | readsPaused .poll => running
  | waits p | parked p => !p.awaits running paused
  | triesAgain | clocks | locks .poll => running && !paused
  | _ => true

/-- It has begun its look at the flags before a wait for the next poll, and has no lock yet. -/
def unguarded : Spot → Bool
  | readsPaused .poll | triesAgain | clocks | locks .poll => true
  | _ => false

theorem safe_of_resting {s : Spot} (h : s.resting = true) : s.safe = true := by
  cases s with
  | reads c | readsPaused c => cases c <;> first | rfl | cases h
  | locks p | evaluates p | evaluatesPaused p | waits p | parked p | woken p | leaves p => exact decide_eq_true (.inl (of_decide_eq_true h))
  | _ => first | rfl | cases h

theorem not_withChild_of_safe {s : Spot} (h : s.safe = true) : s.withChild = false := by
  cases s with
  | reads c | readsPaused c => cases c <;> first | rfl | cases h
  | locks p | evaluates p | evaluatesPaused p | waits p | parked p | woken p | leaves p =>
    cases p <;> first | rfl | cases h
  | _ => first | rfl | cases h

end Spot

/-! ## The scripts -/

/-- A statement that need not follow another. -/
def leads (o : Option Stmt) : Bool := o ≠ some .notify && o ≠ some .seesNoChild

/-- What may come after a statement: a store, a start and a signal are followed by a wake, and each wake is whole. -/
def follows : Stmt → Option Stmt → Bool
  | .lock, o => o = some .notify
  | .seesIdle, o => o = some .seesNoChild
  | .notify, o | .seesNoChild, o => leads o
  | .running _, o | .paused _, o | .ensure, o | .signal, o => o = some .ensure || o = some .lock

def Sound : List Stmt → Bool
  | s :: rest => follows s rest.head? && Sound rest
  | [] => true

theorem Sound.tail {s : Stmt} {rest : List Stmt} (h : Sound (s :: rest) = true) : Sound rest = true := (Bool.and_eq_true_iff.mp h).2

theorem Sound.follows {s : Stmt} {rest : List Stmt} (h : Sound (s :: rest) = true) : follows s rest.head? = true :=
  (Bool.and_eq_true_iff.mp h).1

theorem leads_of_wake {o : Option Stmt} (h : (o = some .ensure || o = some .lock) = true) : leads o = true := by
  rcases Bool.or_eq_true_iff.mp h with h | h
  · rw [of_decide_eq_true h]
    rfl
  · rw [of_decide_eq_true h]
    rfl

theorem owes_of_wake {rest : List Stmt} (h : (rest.head? = some .ensure || rest.head? = some .lock) = true) : owes rest = true := by
  cases rest with
  | nil => cases h
  | cons s rest => cases s <;> first | rfl | cases h

theorem script_sound (op : Op) : Sound op.script = true := by
  cases op <;> decide

theorem script_leads (op : Op) : leads op.script.head? = true := by
  cases op <;> rfl

/-! ## The invariant -/

/-- No child but the one it waits for. -/
def World.OneChild (w : World) : Prop := w.alive = [] ∨ w.spot.withChild = true ∧ ∃ pid, w.child = some pid ∧ w.alive = [pid]

structure Inv (w : World) : Prop where
  held : w.lock = some .supervisor ↔ w.spot.holds = true
  heldBy : ∀ i, w.lock = some (.caller i) ↔ (w.callers i).script.head? = some .notify
  sound : ∀ i, Sound (w.callers i).script = true
  seen : ∀ i, (w.callers i).script.head? = some .seesNoChild → (w.callers i).saw = true
  unborn : w.started = false → w.spot = .unborn
  children : w.OneChild
  idle : w.idle = true → w.spot.resting = true
  past : ∀ i e, (w.callers i).epoch = some e → e ≤ w.clears
  pausing : ∀ i, (w.callers i).epoch = some w.clears → w.paused = true
  /-- A quiesce has seen it idle, and the pause is still on. -/
  quiet : ∀ i, (w.callers i).epoch = some w.clears → (w.callers i).saw = true ∨ (w.callers i).quiesced = true → w.spot.safe = true

end OpenU60.Tailscale.Handshake
