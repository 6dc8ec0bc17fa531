/-
  OpenU60.NoService.Machine — the no-service policy's state machine
  (`zte-agent/src/oos_policy.rs`, `Machine::step`).

  Instants and durations are nanoseconds. What the machine asks when a timer is due (is a
  call, USSD session or speed test going on) is an argument of `step`. The `Log` actions
  are left out: a line on the console.
-/

import Mathlib

namespace OpenU60.NoService

def secs (n : Nat) : Nat := n * 10 ^ 9

def probeEveryMax : Nat := secs (60 * 60)
def userActivityGuard : Nat := secs 120
def guardRetry : Nat := secs 60

structure Config where
  enabled : Bool
  graceMin : Nat
  probeEveryMin : Nat
  probeWindowMin : Nat
  deriving DecidableEq

namespace Config

def default : Config := ⟨false, 10, 20, 3⟩

def grace (c : Config) : Nat := secs (c.graceMin * 60)

def probeWindow (c : Config) : Nat := secs (c.probeWindowMin * 60)

/-- The wait before probe number `probes + 1`. -/
def probeInterval (c : Config) (probes : Nat) : Nat :=
  let base := secs (c.probeEveryMin * 60)
  min (base * 2 ^ min probes 16) (max probeEveryMax base)

end Config

inductive Event where
  | service (has : Bool)
  | userMode (online : Bool)
  | standby
  | timer
  | config (c : Config)
  deriving DecidableEq

inductive Action where
  | setQuietKnobs
  | restoreKnobs
  | setLpm
  | goOnline
  deriving DecidableEq

inductive State where
  | idle
  | grace (since : Nat)
  | quiet (probes : Nat)
  | probing (probes : Nat)
  deriving DecidableEq

/-- In the Quiet/Probing cycle. -/
def State.inCycle : State → Bool
  | quiet _ | probing _ => true
  | _ => false

def State.isProbing : State → Bool
  | probing _ => true
  | _ => false

/-- The events that end the cycle without a `GoOnline`. -/
def Event.abandons (s : State) : Event → Bool
  | service has => has && s.isProbing
  | config c => !c.enabled && s.isProbing
  | userMode _ | standby => s.inCycle
  | timer => false

structure Machine where
  config : Config
  state : State
  deadline : Option Nat
  hasService : Option Bool
  noServiceSince : Option Nat
  knobsQuiet : Bool
  suspended : Bool
  userActivity : Option Nat
  deriving DecidableEq

namespace Machine

def new (config : Config) : Machine := ⟨config, .idle, none, none, none, false, false, none⟩

def startGrace (m : Machine) (now : Nat) : Machine :=
  { m with state := .grace now, deadline := some (now + m.config.grace) }

/-- Back to idle, undoing what the cycle has done; `goOnline` is false when the modem must
    stay in LPM or the caller brings it online itself. -/
def standDown (m : Machine) (goOnline : Bool) : Machine × List Action :=
  let rest : Machine := { m with state := .idle, deadline := none, knobsQuiet := false }
  match m.state with
  | .idle => (m, [])
  | .grace _ => (rest, [])
  | .quiet _ => (rest, if goOnline then [.restoreKnobs, .goOnline] else [.restoreKnobs])
  | .probing _ => (rest, [.restoreKnobs])

def recover (m : Machine) : Machine × List Action := { m with noServiceSince := none }.standDown true

def onService (m : Machine) (has : Bool) (now : Nat) : Machine × List Action :=
  let m := { m with hasService := some has }
  if has then { m with suspended := false }.recover
  else
    let m := { m with noServiceSince := some (m.noServiceSince.getD now) }
    if m.config.enabled && !m.suspended && m.state = .idle then (m.startGrace now, []) else (m, [])

def onUserMode (m : Machine) (online : Bool) (now : Nat) : Machine × List Action :=
  let m := { m with userActivity := some now }
  if !online then { m with suspended := true }.standDown false
  else
    let m := { m with suspended := false }
    -- the airplane handler sends AT+CFUN=1 itself
    let r := if m.state.inCycle then m.standDown false else (m, [])
    if r.1.config.enabled && r.1.hasService = some false then
      ({ r.1 with noServiceSince := some (r.1.noServiceSince.getD now) }.startGrace now, r.2)
    else r

def onStandby (m : Machine) : Machine × List Action := m.standDown false

def blockedUntil (m : Machine) (busy : Bool) (now : Nat) : Option Nat :=
  if busy then some (now + guardRetry)
  else
    match m.userActivity with
    | some t => if now < t + userActivityGuard then some (t + userActivityGuard) else none
    | none => none

def onTimer (m : Machine) (busy : Bool) (now : Nat) : Machine × List Action :=
  -- early or spurious wakeup
  if !m.deadline.any (· ≤ now) then (m, [])
  else if m.state = .idle then ({ m with deadline := none }, [])
  else
    match m.blockedUntil busy now with
    | some until' => ({ m with deadline := some until' }, [])
    | none =>
      match m.state with
      | .idle => (m, [])
      | .grace _ =>
        ({ m with state := .quiet 0, knobsQuiet := true, deadline := some (now + m.config.probeInterval 0) },
          [.setQuietKnobs, .setLpm])
      | .quiet probes =>
        ({ m with state := .probing (probes + 1), deadline := some (now + m.config.probeWindow) }, [.goOnline])
      | .probing probes =>
        ({ m with state := .quiet probes, deadline := some (now + m.config.probeInterval probes) }, [.setLpm])

def onConfig (m : Machine) (config : Config) (now : Nat) : Machine × List Action :=
  let m := { m with config := config }
  if !config.enabled then m.standDown true
  else
    match m.state with
    | .grace since => ({ m with deadline := some (max (since + config.grace) now) }, [])
    | .idle =>
      if !m.suspended && m.hasService = some false then
        ({ m with noServiceSince := some (m.noServiceSince.getD now) }.startGrace now, [])
      else (m, [])
    | _ => (m, [])

def step (m : Machine) (e : Event) (busy : Bool) (now : Nat) : Machine × List Action :=
  match e with
  | .service has => m.onService has now
  | .userMode online => m.onUserMode online now
  | .standby => m.onStandby
  | .timer => m.onTimer busy now
  | .config config => m.onConfig config now

/-! ## What a step does -/

/-- All a step emits, and where it leaves the machine in or out of its cycle. -/
inductive Emits (m : Machine) (e : Event) : State → List Action → Prop
  /-- Nothing to do; the cycle neither begins nor ends. -/
  | quiet (s : State) (h : s.inCycle = m.state.inCycle) : Emits m e s []
  | begins (since : Nat) (he : e = .timer) (hs : m.state = .grace since) : Emits m e (.quiet 0) [.setQuietKnobs, .setLpm]
  | probes (p : Nat) (he : e = .timer) (hs : m.state = .quiet p) : Emits m e (.probing (p + 1)) [.goOnline]
  | parks (p : Nat) (he : e = .timer) (hs : m.state = .probing p) : Emits m e (.quiet p) [.setLpm]
  | leaves (p : Nat) (hs : m.state = .quiet p) : Emits m e .idle [.restoreKnobs, .goOnline]
  /-- The cycle ends without a `GoOnline`. -/
  | ends (s : State) (hs : s.inCycle = false) (he : e.abandons m.state) : Emits m e s [.restoreKnobs]

theorem standDown_emits {m m' : Machine} (hm : m'.state = m.state) {e : Event} {goOnline : Bool}
    (hp : m.state.isProbing → e.abandons m.state) (hc : goOnline = false → m.state.inCycle → e.abandons m.state) :
    Emits m e (m'.standDown goOnline).1.state (m'.standDown goOnline).2 := by
  unfold standDown
  rw [hm]
  cases hs : m.state with
  | idle => exact .quiet _ (by simp [hm, hs])
  | grace since => exact .quiet _ (by simp [hs, State.inCycle])
  | quiet p =>
    cases goOnline with
    | true => exact .leaves p hs
    | false => exact .ends _ rfl (hc rfl (by rw [hs]; rfl))
  | probing p => exact .ends _ rfl (hp (by rw [hs]; rfl))

theorem isProbing_inCycle {s : State} (h : s.isProbing) : s.inCycle := by
  cases s <;> first | rfl | cases h

theorem onUserMode_emits (m : Machine) (online : Bool) (now : Nat) :
    Emits m (.userMode online) (m.onUserMode online now).1.state (m.onUserMode online now).2 := by
  unfold onUserMode
  cases online with
  | false =>
    simp only [Bool.not_false, if_true]
    refine standDown_emits (m := m) (e := .userMode false) ?_ isProbing_inCycle fun _ h => h
    rfl
  | true =>
    simp only [Bool.not_true, Bool.false_eq_true, if_false]
    by_cases hc : m.state.inCycle
    · -- out of the cycle, and into a grace period if there is no service
      have hends : ∀ s : State, s.inCycle = false → Emits m (.userMode true) s [.restoreKnobs] := fun s hs => .ends s hs hc
      cases hs : m.state with
      | idle => simp [hs, State.inCycle] at hc
      | grace since => simp [hs, State.inCycle] at hc
      | quiet p =>
        simp only [State.inCycle, if_true, standDown]
        split
        · exact hends _ rfl
        · exact hends _ rfl
      | probing p =>
        simp only [State.inCycle, if_true, standDown]
        split
        · exact hends _ rfl
        · exact hends _ rfl
    · have hc' : m.state.inCycle = false := by simpa using hc
      simp only [hc', Bool.false_eq_true, if_false]
      split
      · exact .quiet _ (by rw [hc']; rfl)
      · exact .quiet _ rfl

theorem onTimer_emits (m : Machine) (busy : Bool) (now : Nat) :
    Emits m .timer (m.onTimer busy now).1.state (m.onTimer busy now).2 := by
  unfold onTimer
  split
  · exact .quiet _ rfl
  · split
    · exact .quiet _ rfl
    · split
      · exact .quiet _ rfl
      · split
        · next hs => exact .quiet _ rfl
        · next since hs => exact .begins since rfl hs
        · next p hs => exact .probes p rfl hs
        · next p hs => exact .parks p rfl hs

theorem onConfig_emits (m : Machine) (config : Config) (now : Nat) :
    Emits m (.config config) (m.onConfig config now).1.state (m.onConfig config now).2 := by
  unfold onConfig
  dsimp only
  split
  · next he =>
    refine standDown_emits (m := m) (e := .config config) ?_ (fun hp => ?_) (fun h => by cases h)
    · rfl
    · simpa [Event.abandons, hp] using he
  · split
    · next since hs => exact .quiet _ rfl
    · next hs =>
      split
      · exact .quiet _ (by simp [startGrace, State.inCycle, hs])
      · exact .quiet _ rfl
    · exact .quiet _ rfl

theorem step_emits (m : Machine) (e : Event) (busy : Bool) (now : Nat) :
    Emits m e (m.step e busy now).1.state (m.step e busy now).2 := by
  cases e with
  | service has =>
    simp only [step, onService]
    cases has with
    | true =>
      refine standDown_emits (m := m) (e := .service true) ?_ (fun hp => ?_) (fun h => by cases h)
      · rfl
      · simpa [Event.abandons] using hp
    | false =>
      rw [if_neg Bool.false_ne_true]
      split
      · next h =>
        have hs : m.state = .idle := by simpa using (Bool.and_eq_true_iff.mp h).2
        exact .quiet _ (by simp [startGrace, State.inCycle, hs])
      · exact .quiet _ rfl
  | userMode online => exact onUserMode_emits m online now
  | standby => exact standDown_emits rfl isProbing_inCycle fun _ h => h
  | timer => exact onTimer_emits m busy now
  | config config => exact onConfig_emits m config now

end Machine

end OpenU60.NoService
