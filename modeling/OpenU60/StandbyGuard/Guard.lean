/-
  OpenU60.StandbyGuard.Guard — the standby Wi-Fi guard's state machine
  (`zte-agent/src/standby_guard.rs`: `classify_mode`, `entering_standby`, `Guard`).

  Instants and durations are nanoseconds since boot. Answers to what the guard has asked
  come back as events like any other; nothing says which question they answer.
-/

import Mathlib

namespace OpenU60.StandbyGuard

def secs (n : Nat) : Nat := n * 10 ^ 9

def maxActions : Nat := 3
def confirmWithin : Nat := secs 30
def restoreAfter : Nat := secs 90
def bootSettle : Nat := secs 600

inductive Power where
  | on
  | standby
  deriving DecidableEq

/-- The power class of a firmware mode name. -/
def classifyMode (mode : String) : Option Power :=
  if mode.startsWith "mode_power_off" then some .standby
  else if mode = "mode_startup" ∨ mode = "mode_initial" ∨ mode.startsWith "mode_power_on" then some .on
  else none

def enteringStandby (mode : String) : Bool := mode = "mode_power_off" || mode.endsWith "_quickening"

inductive WifiLine where
  | powerOn
  | powerOff
  | other
  deriving DecidableEq

inductive Event where
  | power (action : String)
  | wifi (line : WifiLine)
  | keyLog (mode : Option String)
  | userSwitch (on : Option Bool)
  | timer
  deriving DecidableEq

inductive Note where
  | mode (power : Power) (action : String) (dropped checkBack : Bool)
  | assumedOn
  | learnedOn (mode : Option String)
  | missedPowerOn (mode : String)
  | act (mode : String) (n : Nat) (fromKeyLog again : Bool)
  | entering (mode : String)
  | notOffBefore (mode : String)
  | keyLogDisagrees (mode : Option String) (standbyEvent : Bool)
  | inFlight
  | limit
  | confirmed (after : Nat)
  | unconfirmed (retrying : Bool)
  | notBack (userOn : Option Bool)
  deriving DecidableEq

inductive Action where
  | readKeyLog
  | readUserSwitch
  | wifiOff
  | wifiOn
  | log (n : Note)
  deriving DecidableEq

structure Check where
  again : Bool
  wasOff : Bool
  deriving DecidableEq

structure Waiting where
  since : Nat
  until' : Nat
  again : Bool
  deriving DecidableEq

structure Guard where
  power : Option Power := none
  /-- Turn-offs since the last power-on. -/
  acted : Nat := 0
  checking : Option Check := none
  waiting : Option Waiting := none
  /-- The firmware's newest report. -/
  wifi : Option WifiLine := none
  restoreAt : Option Nat := none
  asking : Bool := false
  deriving DecidableEq

namespace Guard

def start (now : Nat) (last : Option WifiLine) : Guard × List Action :=
  let guard : Guard := { wifi := last.filter (· ≠ .other) }
  if now < bootSettle then ({ guard with power := some .on }, [.log .assumedOn]) else (guard, [])

def nextDeadline (g : Guard) : Option Nat :=
  match g.waiting.map (·.until'), g.restoreAt with
  | some a, some b => some (min a b)
  | some a, none => some a
  | none, b => b

def onPower (g : Guard) (action : String) (now : Nat) : Guard × List Action :=
  match classifyMode action with
  | none => (g, [])
  | some power =>
    if g.power = some power then (g, [])
    else
      let g := { g with power := some power, asking := false }
      match power with
      | .on =>
        let checkBack := 0 < g.acted
        ({ g with waiting := none, restoreAt := if checkBack then some (now + restoreAfter) else none,
                  acted := 0, checking := none },
          [.log (.mode power action g.waiting.isSome checkBack)])
      | .standby => ({ g with restoreAt := none }, [.log (.mode power action false false)])

def onWifiOn (g : Guard) (wasOff : Bool) : Guard × List Action :=
  if g.power = some .on then (g, [])
  else if g.waiting.isSome then (g, [.log .inFlight])
  else ({ g with checking := some ⟨false, wasOff⟩ }, [.readKeyLog])

def onWifi (g : Guard) (line : WifiLine) (now : Nat) : Guard × List Action :=
  match line with
  | .other => (g, [])
  | .powerOff =>
    let g := { g with wifi := some .powerOff }
    match g.waiting with
    | some w => ({ g with waiting := none }, [.log (.confirmed (now - w.since))])
    | none => (g, [])
  | .powerOn =>
    let wasOff := g.wifi = some .powerOff
    { g with wifi := some .powerOn, restoreAt := none }.onWifiOn wasOff

def onKeyLog (g : Guard) (mode : Option String) (now : Nat) : Guard × List Action :=
  match g.checking with
  | none => (g, [])
  | some check =>
    let g := { g with checking := none }
    if g.power = some .on then (g, [])
    else
      let unknown := g.power.isNone
      match mode.bind classifyMode, mode with
      | some .standby, some mode =>
        if enteringStandby mode then (g, [.log (.entering mode)])
        else if unknown && !check.wasOff then (g, [.log (.notOffBefore mode)])
        else if maxActions ≤ g.acted then (g, [.log .limit])
        else
          ({ g with power := some .standby, acted := g.acted + 1,
                    waiting := some ⟨now, now + confirmWithin, check.again⟩ },
            [.log (.act mode (g.acted + 1) unknown check.again), .wifiOff])
      | some .on, some mode =>
        if unknown then ({ g with power := some .on }, [.log (.learnedOn (some mode))])
        else ({ g with power := some .on, acted := 0, waiting := none, restoreAt := none }, [.log (.missedPowerOn mode)])
      | none, none =>
        if unknown then ({ g with power := some .on }, [.log (.learnedOn none)])
        else (g, [.log (.keyLogDisagrees none true)])
      | _, mode => (g, [.log (.keyLogDisagrees mode (!unknown))])

def onUserSwitch (g : Guard) (on : Option Bool) : Guard × List Action :=
  let asked := g.asking
  let g := { g with asking := false }
  if !asked || g.power ≠ some .on || g.wifi ≠ some .powerOff then (g, [])
  else (g, .log (.notBack on) :: if on = some true then [.wifiOn] else [])

/-- The first half of `on_timer`: a turn-off not reported in time. -/
def unconfirm (g : Guard) (now : Nat) : Guard × List Action :=
  match g.waiting with
  | none => (g, [])
  | some w =>
    if now < w.until' then (g, [])
    else
      let g := { g with waiting := none }
      -- one more try (counted), still in standby
      if !w.again && g.power = some .standby && g.acted < maxActions then
        ({ g with checking := some ⟨true, true⟩ }, [.log (.unconfirmed true), .readKeyLog])
      else (g, [.log (.unconfirmed false)])

/-- Its second half: Wi-Fi not back after a power-on. -/
def checkBack (g : Guard) (now : Nat) : Guard × List Action :=
  match g.restoreAt with
  | none => (g, [])
  | some t =>
    if now < t then (g, [])
    else
      let g := { g with restoreAt := none }
      if g.power = some .on && g.wifi = some .powerOff then ({ g with asking := true }, [.readUserSwitch]) else (g, [])

def onTimer (g : Guard) (now : Nat) : Guard × List Action :=
  let r := g.unconfirm now
  let s := r.1.checkBack now
  (s.1, r.2 ++ s.2)

def step (g : Guard) (e : Event) (now : Nat) : Guard × List Action :=
  match e with
  | .power action => g.onPower action now
  | .wifi line => g.onWifi line now
  | .keyLog mode => g.onKeyLog mode now
  | .userSwitch on => g.onUserSwitch on
  | .timer => g.onTimer now

end Guard

end OpenU60.StandbyGuard
