/-
  OpenU60.LiveActivity.Workers — the shared state of the Live Activity service and its two
  worker threads (`zte-agent/src/live_activity.rs`, `zte-agent/src/live_activity_recovery.rs`).

  Instants are milliseconds of the monotonic clock. What a thread does between locking the
  state and unlocking it, or parking on it, is one step, at one clock reading. Without a
  provider no thread is started and no registration is taken, so there is one here.
-/

import Mathlib
import OpenU60.Lib.Json

namespace OpenU60.LiveActivity

open OpenU60.Lib

def secs (n : Nat) : Nat := n * 1000

def saturatingAdd (a b : Nat) : Nat := min (a + b) Text.u64Max

structure Config where
  intervalSeconds : Nat
  staleAfterSeconds : Nat
  deriving DecidableEq

structure Registration where
  pushToken : String
  expiresAt : Nat
  deriving DecidableEq

def isHexdigit (c : Char) : Bool :=
  ('0' ≤ c && c ≤ '9') || ('a' ≤ c && c ≤ 'f') || ('A' ≤ c && c ≤ 'F')

def Registration.validate (r : Registration) (now : Nat) : Except String Unit :=
  let len := Text.byteLen r.pushToken.toList
  if len < 32 ∨ 1024 < len ∨ len % 2 ≠ 0 ∨ !r.pushToken.toList.all isHexdigit then
    .error "push_token must be hexadecimal ActivityKit update token"
  else if r.expiresAt ≤ now ∨ saturatingAdd now (8 * 3600) < r.expiresAt then
    .error "expires_at must be Unix seconds within the next 8 hours"
  else .ok ()

/-! ## The state -/

inductive Label where
  | simRemoved
  | simReady
  | wanDown
  | wanUp
  | simLeaving
  | simOnline
  deriving DecidableEq

structure Recovery where
  /-- UTC as last verified, and the instant it was. -/
  anchor : Option (Nat × Nat) := none
  paused : Bool := false
  error : Option String := none
  lastSync : Option Nat := none
  lastEvent : Option Label := none
  revision : UInt64 := 0
  deriving DecidableEq

namespace Recovery

def utc (r : Recovery) (now : Nat) : Option Nat :=
  r.anchor.bind fun a => if now - a.2 < secs (6 * 3600) then some (saturatingAdd a.1 ((now - a.2) / 1000)) else none

def reprobe (r : Recovery) : Recovery := { r with revision := r.revision + 1 }

end Recovery

structure State where
  activity : Option Registration := none
  generation : UInt64 := 0
  lastAcceptedAt : Option Nat := none
  lastError : Option String := none
  recovery : Recovery := {}
  deriving DecidableEq

namespace State

def registered (s : State) (now : Nat) : Bool :=
  s.activity.any fun a => (s.recovery.utc now).all (a.expiresAt > ·)

def bump (s : State) : State := { s with generation := s.generation + 1 }

/-- The token is the one held. -/
def holds (s : State) (r : Registration) : Bool := s.activity.any (·.pushToken = r.pushToken)

/-- `register`, once the registration has been found valid. -/
def register (s : State) (r : Registration) : State :=
  if s.holds r then { s with activity := s.activity.map fun a => { a with expiresAt := r.expiresAt } }
  else
    { s.bump with
      activity := some r
      lastAcceptedAt := none
      lastError := none
      recovery := if s.recovery.paused then s.recovery.reprobe else s.recovery }

def unregister (s : State) : State := { s.bump with activity := none }

/-- `recovery_event`, for a label that differs from the last. -/
def recoveryEvent (s : State) (label : Label) : State :=
  { s.bump with recovery := { s.recovery.reprobe with lastEvent := some label, paused := true } }

end State

def wanStatusLabel (status : String) : Option Label :=
  if status = "disconnected" then some .wanDown
  else if status = "ipv4_connected" ∨ status = "ipv6_connected" ∨ status = "connected" ∨ status = "ipv4_ipv6_connected" then
    some .wanUp
  else none

def phaseLabel (phase : String) : Option Label :=
  if phase = "leaving" then some .simLeaving else if phase = "online" then some .simOnline else none

def actionLabel (action : String) : Option Label :=
  if action = "ifup" then some .wanUp else if action = "ifdown" then some .wanDown else none

def eventLabel (name : String) (value : Json) : Option Label :=
  let text (key : String) := (value.get key).asStr
  if name = "zwrt_card_state_event" then
    if text "sim_hotswap" = some "sim hot remove" then some .simRemoved
    else if text "sim_states" = some "sim ready" then some .simReady
    else none
  else if name = "router_event_wan_connect_status" then (text "wan_status").bind wanStatusLabel
  else if name = "zte_agent.sim_identity" then (text "phase").bind phaseLabel
  else if name = "network.interface" ∧ (text "interface" = some "zte_wan" ∨ text "interface" = some "zte_wan6") then
    (text "action").bind actionLabel
  else none

/-! ## The recovery thread -/

def probeIntervalActive : Nat := secs 300
def probeIntervalIdle : Nat := secs 3600
def eventProbeDelay : Nat := secs 3

def probeInterval (registered : Bool) : Nat := if registered then probeIntervalActive else probeIntervalIdle

def probeRetryDelay (failures : Nat) : Nat := secs (min (30 * 2 ^ min failures 4) 300)

/-- `failures.saturating_add(1)` -/
def countFailure (failures : Nat) : Nat := min (failures + 1) (2 ^ 32 - 1)

/-- What `parse_server_time` makes of a Date, in Unix seconds. -/
def parseServerTime (epoch : Nat) : Except String Nat :=
  if 1700000000 ≤ epoch ∧ epoch < 4102444800 then .ok epoch else .error "time response outside supported range"

inductive ProberPhase where
  | starting
  | looking
  /-- The request is under way; the network revision it was made at. -/
  | probing (revision : UInt64)
  /-- No client could be built. -/
  | stopped
  deriving DecidableEq

structure Prober where
  phase : ProberPhase := .starting
  nextProbe : Nat := 0
  lastOk : Option Nat := none
  failures : Nat := 0
  observed : UInt64 := 0
  deriving DecidableEq

/-- What a step of the recovery thread finds: the wall clock, what setting it answers, the
    probe's Date or error, whether the HTTP client could be built. -/
structure ProbeEnv where
  wall : Nat := 0
  setClock : Option String := none
  date : Except String Nat := .error ""
  built : Bool := true

def absDiff (a b : Nat) : Nat := (a - b) + (b - a)

namespace Prober

def observe (p : Prober) (s : State) (now : Nat) : Prober :=
  if s.recovery.revision ≠ p.observed then
    { p with observed := s.recovery.revision, lastOk := none, failures := 0, nextProbe := now + eventProbeDelay }
  else p

def cadence (p : Prober) (s : State) (now : Nat) : Prober :=
  match p.lastOk with
  | some ok => { p with nextProbe := ok + probeInterval (s.registered now) }
  | none => p

/-- The next probe backs off. -/
def failed (p : Prober) (now : Nat) : Prober :=
  { p with lastOk := none, nextProbe := now + probeRetryDelay p.failures, failures := countFailure p.failures }

end Prober

/-- Carrier time is repaired from the anchor. -/
def State.repairClock (s : State) (now : Nat) (x : ProbeEnv) : State :=
  match s.recovery.utc now with
  | some utc => if absDiff x.wall utc > 5 then { s with recovery := { s.recovery with error := x.setClock } } else s
  | none => s

/-- UTC has been verified; pushes go on. -/
def State.verified (s : State) (epoch now : Nat) (x : ProbeEnv) : State :=
  { s with
    recovery :=
      { s.recovery with
        anchor := some (epoch, now)
        lastSync := some epoch
        error := if absDiff x.wall epoch > 5 then x.setClock else none
        paused := false } }

def State.unverified (s : State) (message : String) : State :=
  { s with recovery := { s.recovery with error := some message, paused := true } }

/-- `recovering`: pushes were held back. -/
def State.heldBack (s : State) (now : Nat) : Bool := s.recovery.paused || (s.recovery.utc now).isNone

/-! ## The push thread -/

def retryDelay (interval failures : Nat) : Nat := secs (min (interval * 2 ^ min failures 12) 3600)

inductive Outcome where
  | accepted
  | stop (message : String)
  | retry (message : String)
  deriving DecidableEq

/-- What the push thread waits for. -/
inductive Why where
  | noUtc
  | noActivity
  | paused
  | clock
  | backoff
  deriving DecidableEq

/-- What `wait_for_attempt` gives. -/
structure Attempt where
  activity : Registration
  generation : UInt64
  clock : Nat
  deriving DecidableEq

inductive PushPhase where
  | starting
  /-- `wait_for_attempt` is to lock the state. -/
  | looking
  /-- It waits to be notified, at most until a deadline. -/
  | parked (why : Why) (deadline : Option Nat)
  | taken (a : Attempt)
  /-- The signal is read; the sample's age is to be checked. -/
  | sampling (a : Attempt)
  /-- The generation is to be checked again. -/
  | checking (a : Attempt)
  | sending (a : Attempt)
  /-- The attempt ends in a retry with nothing sent. -/
  | unsent (a : Attempt) (message : String)
  | stopped
  deriving DecidableEq

structure Pusher where
  phase : PushPhase := .starting
  next : Nat := 0
  failures : Nat := 0
  observed : UInt64 := 0
  /-- The network revision the connection in use was made under. -/
  clientRevision : UInt64 := 0
  reconnect : Bool := false
  deriving DecidableEq

/-- What a step of the push thread finds: whether a client could be built, whether the
    signal could be read, what APNs answered. -/
structure PushEnv where
  built : Bool := true
  signal : Bool := true
  outcome : Outcome := .accepted
  deriving DecidableEq

namespace Pusher

/-- `changed.notify_all` -/
def notified (p : Pusher) : Pusher :=
  match p.phase with
  | .parked _ _ => { p with phase := .looking }
  | _ => p

def park (p : Pusher) (why : Why) (deadline : Option Nat) : Pusher := { p with phase := .parked why deadline }

def observe (p : Pusher) (s : State) (now : Nat) : Pusher :=
  if s.generation ≠ p.observed then { p with observed := s.generation, failures := 0, next := now } else p

end Pusher

def State.dropExpired (s : State) (clock : Nat) : State :=
  if s.activity.any (·.expiresAt ≤ clock) then { s with activity := none } else s

/-- What `wait_for_attempt` does with an activity and a verified clock, once it has
    observed the generation. -/
def Pusher.attempt (p : Pusher) (s : State) (a : Registration) (clock now : Nat) : Pusher :=
  if s.recovery.paused then p.park .paused (some (now + secs (a.expiresAt - clock)))
  else if 1700000000 ≤ clock ∧ p.next ≤ now then { p with phase := .taken ⟨a, s.generation, clock⟩ }
  else if clock < 1700000000 then p.park .clock (some (now + secs 60))
  else p.park .backoff (some (now + min (p.next - now) (secs (a.expiresAt - clock))))

/-- The result of an attempt that nothing has overtaken. -/
def State.record (s : State) (o : Outcome) (now : Nat) : State :=
  match o with
  | .accepted => { s with lastAcceptedAt := s.recovery.utc now, lastError := none }
  | .stop message => { s with activity := none, lastError := some message }
  | .retry message => { s with lastError := some message }

def Pusher.record (p : Pusher) (cfg : Config) (o : Outcome) (now : Nat) : Pusher :=
  let failures := match o with
    | .retry _ => countFailure p.failures
    | _ => 0
  { p with failures, next := now + retryDelay cfg.intervalSeconds failures }

/-! ## The service -/

/-- A `register` call; `storing` has found the registration valid. -/
inductive Call where
  | idle
  | storing (r : Registration)
  | done (reply : Except (Nat × String) Unit)

/-- What has happened, in order. -/
inductive Note where
  /-- A SIM/WAN event whose label differs from the last. -/
  | event
  | registered (reprobed : Bool)
  | unregistered
  /-- A probe was started. -/
  | started
  | succeeded
  /-- With it pushes that were held back go on. -/
  | resumed
  /-- A failed probe stopped pushes that were going on. -/
  | lost
  /-- `wait_for_attempt` has observed the generation. -/
  | looked
  /-- An attempt was taken. -/
  | took
  /-- Its result was recorded. -/
  | recorded
  deriving DecidableEq

structure World where
  now : Nat := 0
  state : State := {}
  prober : Prober := {}
  pusher : Pusher := {}
  calls : Nat → Call := fun _ => .idle
  /-- The probe outcomes the connectivity watchdog was told. -/
  watchdog : List Bool := []
  log : List Note := []

inductive Event where
  | pass (d : Nat)
  | occur (name : String) (value : Json)
  /-- A call's body as parsed, if it is a registration. -/
  | register (i : Nat) (body : Option Registration)
  /-- The call goes on. -/
  | store (i : Nat)
  | unregister
  | probe (x : ProbeEnv)
  | push (x : PushEnv)
  /-- A wait of the push thread times out or ends on its own. -/
  | wake

namespace World

def notify (w : World) : World := { w with pusher := w.pusher.notified }

def noted (w : World) (l : List Note) : World := { w with log := w.log ++ l }

def called (w : World) (i : Nat) (c : Call) : World := { w with calls := Function.update w.calls i c }

def recoveryEvent (w : World) (name : String) (value : Json) : World :=
  match eventLabel name value with
  | none => w
  | some label =>
    if w.state.recovery.lastEvent = some label then w
    else ({ w with state := w.state.recoveryEvent label }.notify).noted [.event]

/-- `register` up to the lock. -/
def register (w : World) (i : Nat) (body : Option Registration) : World :=
  match body with
  | none => w.called i (.done (.error (400, "invalid registration JSON")))
  | some r =>
    match w.state.recovery.utc w.now with
    | none => w.called i (.done (.error (503, "waiting for verified UTC; registration will need retry")))
    | some clock =>
      match r.validate clock with
      | .error e => w.called i (.done (.error (400, e)))
      | .ok () => w.called i (.storing r)

def store (w : World) (i : Nat) (r : Registration) : World :=
  let note := if w.state.holds r then [] else [Note.registered w.state.recovery.paused]
  ({ w with state := w.state.register r }.notify.called i (.done (.ok ()))).noted note

def unregister (w : World) : World := ({ w with state := w.state.unregister }.notify).noted [.unregistered]

/-- A probe's result that has not been overtaken. -/
def probed (w : World) (x : ProbeEnv) : Except String Nat → World
  | .ok epoch =>
    let v := { w with
      state := w.state.verified epoch w.now x
      prober := { w.prober with failures := 0, lastOk := some w.now } }
    if w.state.heldBack w.now then ({ v with state := v.state.bump }.notify).noted [.succeeded, .resumed]
    else v.noted [.succeeded]
  | .error message =>
    let v := { w with prober := w.prober.failed w.now }
    if w.state.recovery.paused then { v with state := w.state.unverified message }.notify
    else ({ v with state := w.state.bump.unverified message }.notify).noted [.lost]

/-- A step of `recovery_loop`. -/
def probe (w : World) (x : ProbeEnv) : World :=
  match w.prober.phase with
  | .starting =>
    if x.built then { w with prober := { w.prober with phase := .looking, nextProbe := w.now } }
    else { w with prober := { w.prober with phase := .stopped } }
  | .stopped => w
  | .looking =>
    let p := (w.prober.observe w.state w.now).cadence w.state w.now
    let s := w.state.repairClock w.now x
    if w.now < p.nextProbe then { w with state := s, prober := p }
    else { w with state := s, prober := { p with phase := .probing s.recovery.revision } }.noted [.started]
  | .probing revision =>
    let result := x.date.bind parseServerTime
    let v := { w with watchdog := w.watchdog ++ [result.isOk], prober := { w.prober with phase := .looking } }
    if w.state.recovery.revision ≠ revision then v else v.probed x result

/-- One pass of `wait_for_attempt`. -/
def look (w : World) : World :=
  match w.state.recovery.utc w.now with
  | none => { w with pusher := w.pusher.park .noUtc none }
  | some clock =>
    let s := w.state.dropExpired clock
    let p := w.pusher.observe s w.now
    match s.activity with
    | none => { w with state := s, pusher := p.park .noActivity none }.noted [.looked]
    | some a =>
      let p := p.attempt s a clock w.now
      let note := match p.phase with
        | .taken _ => [Note.looked, .took]
        | _ => [.looked]
      { w with state := s, pusher := p }.noted note

def finish (w : World) (cfg : Config) (a : Attempt) (o : Outcome) : World :=
  let p := { w.pusher with phase := .looking, reconnect := o = .retry "APNs transport failed" }
  if w.state.generation ≠ a.generation then { w with pusher := p }
  else { w with state := w.state.record o w.now, pusher := p.record cfg o w.now }.noted [.recorded]

/-- The phase a statement of an attempt leads to. -/
def going (w : World) (phase : PushPhase) : World := { w with pusher := { w.pusher with phase } }

/-- A step of `run`. -/
def push (w : World) (cfg : Config) (x : PushEnv) : World :=
  match w.pusher.phase with
  | .starting =>
    if x.built then
      { w with
        pusher := { w.pusher with phase := .looking, next := w.now, clientRevision := w.state.recovery.revision } }
    else { w with state := { w.state with lastError := some "APNs client initialization failed" } }.going .stopped
  | .stopped => w
  | .looking => w.look
  | .parked _ _ => w
  | .taken a =>
    let revision := w.state.recovery.revision
    if w.pusher.reconnect ∨ revision ≠ w.pusher.clientRevision then
      { w with pusher := { w.pusher with clientRevision := revision, reconnect := false } }.going (.sampling a)
    else w.going (.sampling a)
  | .sampling a =>
    if !x.signal then w.going (.unsent a "signal read failed")
    else if (w.state.recovery.utc w.now).all fun t =>
        saturatingAdd a.clock cfg.staleAfterSeconds ≤ t ∨ a.activity.expiresAt ≤ t then
      w.going (.unsent a "signal sample expired before send")
    else w.going (.checking a)
  | .checking a => if w.state.generation = a.generation then w.going (.sending a) else w.going .looking
  | .sending a => w.finish cfg a x.outcome
  | .unsent a message => w.finish cfg a (.retry message)

def step (cfg : Config) (w : World) : Event → World
  | .pass d => { w with now := w.now + d }
  | .occur name value => w.recoveryEvent name value
  | .register i body =>
    match w.calls i with
    | .idle => w.register i body
    | _ => w
  | .store i =>
    match w.calls i with
    | .storing r => w.store i r
    | _ => w
  | .unregister => w.unregister
  | .probe x => w.probe x
  | .push x => w.push cfg x
  | .wake => w.notify

end World

end OpenU60.LiveActivity
