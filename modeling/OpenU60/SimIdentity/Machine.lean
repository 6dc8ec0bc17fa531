/-
  OpenU60.SimIdentity.Machine — which SIM is in the device, and the phases apps follow it
  by (`zte-agent/src/sim_identity.rs`, `Machine`).

  Instants are nanoseconds, and `now - t` stops at zero as `saturating_duration_since`
  does. Every handler returns what it puts out; the identity in a payload is masked to
  PLMN, operator and the last four digits.
-/

import OpenU60.Lib.Json
import OpenU60.SmsForward.Fetch

namespace OpenU60.SimIdentity

open OpenU60.Lib

def secs (n : Nat) : Nat := n * 10 ^ 9

def armWindow : Nat := secs 60
def poll : Nat := secs 3
def sameSettle : Nat := secs 10
def quiet : Nat := secs 8
def gateCap : Nat := secs 30
def stallAfter : Nat := secs 150
def seedRetry : Nat := secs 30
def seedTries : Nat := 10

/-- `trim`, less the filler at the end. -/
def digits (iccid : String) : List Char :=
  ((Text.trim iccid.toList).reverse.dropWhile fun c => c == 'F' || c == 'f').reverse

/-- `same_iccid`: the firmware and the card may differ in a trailing filler. -/
def sameIccid (a b : String) : Bool := !(Text.trim a.toList).isEmpty && digits a == digits b

structure Identity where
  iccid : String
  plmn : Option String
  operator : Option String
  deriving DecidableEq

def Identity.tail (id : Identity) : String := String.ofList ((digits id.iccid).drop ((digits id.iccid).length - 4))

/-- What the router's network looks like. -/
structure Gate where
  route : Bool
  dns : Bool
  rmnetBusy : Bool

inductive Input where
  | card (payload : Json)
  | wan (up : Option Bool)
  | sim (id : Option Identity)
  | gate (gate : Gate)
  | agentArm
  | agentDisarm
  | agentStarted (generation : Nat) (previous : Option String)
  | timer

inductive Source where
  | agent
  | card
  | hotswap
  | unknown
  deriving DecidableEq

inductive Reason where
  | simNotReady
  | noWan
  deriving DecidableEq

inductive Phase where
  | leaving
  | changed
  | online (identityChanged settled : Bool)
  | stalled (reason : Reason)
  deriving DecidableEq

structure Payload where
  phase : Phase
  epoch : Nat
  source : Source
  generation : Option Nat
  plmn : Option String
  operator : Option String
  iccidTail : Option String
  sinceLeaving : Nat
  deriving DecidableEq

inductive Output where
  | seeded (id : Identity)
  | event (p : Payload)
  deriving DecidableEq

structure Transition where
  started : Nat
  source : Source
  generation : Option Nat
  /-- Set when the new identity is known: changed, or the same SIM again. -/
  resolved : Option Bool
  stalled : Bool
  wanUpSeen : Bool
  lastWan : Option Nat
  routeSince : Option Nat
  nextRead : Nat
  nextGate : Nat
  deriving DecidableEq

structure Machine where
  known : Option Identity
  epoch : Nat
  armedAt : Option Nat
  claimedAt : Option Nat
  transition : Option Transition
  seedTries : Nat
  nextSeed : Option Nat
  readRequested : Bool
  deriving DecidableEq

/-- `identity_from`: the identity in a "sim ready" event or a `get_sim_info` reply. -/
def identityFrom (info : Json) : Option Identity :=
  let nonEmpty (cs : List Char) : Option String := if cs.isEmpty then none else some (String.ofList cs)
  let field (k : String) : Option String :=
    match info.get k with
    | .str s => nonEmpty (Text.trim s.toList)
    | .int n => some (toString n)
    | .float text => some text
    | _ => none
  ((info.get "sim_iccid").asStr.bind fun s => nonEmpty (Text.trim s.toList)).map fun iccid =>
    { iccid := iccid
      plmn := (field "mdm_mcc").bind fun mcc => (field "mdm_mnc").map fun mnc => mcc ++ "-" ++ mnc
      operator := (info.get "spn_name_data").asStr.bind fun hex =>
        nonEmpty (Text.trim ((SmsForward.decodeUcs2Hex hex).toList.filter fun c => c.toNat != 0 && c.toNat != 0xFFFF)) }

def Transition.begin (now : Nat) (source : Source) (generation : Option Nat) (nextRead : Nat) : Transition :=
  ⟨now, source, generation, none, false, false, none, none, nextRead, now⟩

namespace Machine

def new (now : Nat) : Machine := ⟨none, 0, none, none, none, 0, some now, false⟩

def unresolved (m : Machine) : Bool := m.transition.any (·.resolved.isNone)

def armed (m : Machine) (now : Nat) : Bool := m.armedAt.any (now - · < armWindow)

def seedDue (m : Machine) (now : Nat) : Bool := m.known.isNone && m.nextSeed.any (· ≤ now)

/-- Network checks run while the new identity waits for `online`; after `stalled`, only
    for a while after WAN activity. -/
def gating (t : Transition) (now : Nat) : Bool :=
  t.resolved.isSome && (!t.stalled || t.lastWan.any (now - · < quiet + gateCap))

def wantsRead (m : Machine) (now : Nat) : Bool :=
  m.readRequested || m.seedDue now || m.transition.any fun t => t.resolved.isNone && !t.stalled && t.nextRead ≤ now

def wantsGate (m : Machine) (now : Nat) : Bool := m.transition.any fun t => gating t now && t.nextGate ≤ now

/-- The instants `next_wake` is the first of. -/
def wakes (m : Machine) (now : Nat) : List Nat :=
  (if m.known.isNone then m.nextSeed.toList else []) ++
    match m.transition with
    | some t =>
      (if t.stalled then [] else (t.started + stallAfter) :: if t.resolved.isNone then [t.nextRead] else []) ++
        if gating t now then [t.nextGate] else []
    | none => []

def nextWake (m : Machine) (now : Nat) : Option Nat := (m.wakes now).min?

def payload (m : Machine) (phase : Phase) (now : Nat) : Output :=
  let source := (m.transition.map (·.source)).getD .unknown
  .event
    { phase := phase
      epoch := m.epoch
      source := source
      generation := if source = .agent then m.transition.bind (·.generation) else none
      plmn := m.known.bind (·.plmn)
      operator := m.known.bind (·.operator)
      iccidTail := (m.known.map (·.tail)).filter (· ≠ "")
      sinceLeaving := (m.transition.map (now - ·.started)).getD 0 }

/-- The outgoing identity is leaving. A second signal for the same, still unresolved
    transition only refines who started it. -/
def leave (m : Machine) (source : Source) (generation : Option Nat) (now : Nat) : Machine × List Output :=
  if m.unresolved then
    if source = .agent then
      ({ m with transition := m.transition.map fun t => { t with source := .agent, generation := generation <|> t.generation } }, [])
    else (m, [])
  else
    let m :=
      { m with
        transition := some (.begin now source generation (now + poll))
        claimedAt := if source = .agent && generation.isNone then some now else m.claimedAt
        armedAt := none }
    (m, [m.payload .leaving now])

def change (m : Machine) (id : Identity) (now : Nat) : Machine × List Output :=
  let agent := m.armed now
  -- without an unresolved one the leaving was missed, or a second change came before online
  let t := (m.transition.filter (·.resolved.isNone)).getD (.begin now (if agent then .agent else .unknown) none now)
  let m :=
    { m with
      epoch := m.epoch + 1
      known := some id
      claimedAt := if agent then some now else m.claimedAt
      armedAt := if agent then none else m.armedAt
      transition := some { t with resolved := some true, nextGate := now } }
  (m, [m.payload .changed now])

def identity (m : Machine) (id : Identity) (now : Nat) : Machine × List Output :=
  match m.known with
  | none => if !m.unresolved then ({ m with known := some id }, [.seeded id]) else m.change id now
  | some known =>
    if sameIccid known.iccid id.iccid then
      ({ m with
          known := some { known with plmn := id.plmn <|> known.plmn, operator := id.operator <|> known.operator }
          transition := m.transition.map fun t =>
            if t.resolved.isNone && now - t.started ≥ sameSettle then { t with resolved := some false, nextGate := now } else t },
        [])
    else m.change id now

def onCard (m : Machine) (payload : Json) (now : Nat) : Machine × List Output :=
  if (payload.get "slot_state").asStr = some "switch_slot_begin" then m.leave (if m.armed now then .agent else .card) none now
  else if (payload.get "sim_hotswap").asStr = some "sim hot remove" then m.leave .hotswap none now
  else if (payload.get "sim_states").asStr = some "sim ready" then
    match identityFrom payload with
    | some id => m.identity id now
    | none => ({ m with readRequested := true }, [])
  else if m.known.isNone || m.transition.any (·.stalled) then ({ m with readRequested := true }, [])
  else (m, [])

def onGate (m : Machine) (g : Gate) (now : Nat) : Machine × List Output :=
  match m.transition with
  | none => (m, [])
  | some t =>
    match t.resolved with
    | none => (m, [])
    | some changed =>
      let t := { t with nextGate := now + poll }
      if !g.route then ({ m with transition := some { t with routeSince := none } }, [])
      else
        let routeSince := t.routeSince.getD now
        let t := { t with routeSince := some routeSince }
        let isQuiet := t.lastWan.all (now - · ≥ quiet)
        let settled := (t.wanUpSeen || !changed) && g.dns && !g.rmnetBusy && isQuiet
        let m := { m with transition := some t }
        if !settled && now - routeSince < gateCap then (m, [])
        else ({ m with transition := none }, [m.payload (.online changed settled) now])

def checkStall (m : Machine) (now : Nat) : Machine × List Output :=
  match m.transition with
  | none => (m, [])
  | some t =>
    if t.stalled || now - t.started < stallAfter then (m, [])
    else
      let m := { m with transition := some { t with stalled := true } }
      (m, [m.payload (.stalled (if t.resolved.isNone then .simNotReady else .noWan)) now])

/-- Only a seeding retry counts against the seeding budget, not a transition's poll. -/
def afterRead (m : Machine) (now : Nat) : Machine :=
  let due := m.seedDue now
  { m with
    readRequested := false
    seedTries := if due then m.seedTries + 1 else m.seedTries
    nextSeed := if due then (if m.seedTries + 1 < SimIdentity.seedTries then some (now + seedRetry) else none) else m.nextSeed
    transition := m.transition.map fun t => { t with nextRead := now + poll } }

/-- The card's previous profile: an agent switch before the first read counts. -/
def previousIdentity (previous : Option String) : Option Identity :=
  (previous.filter fun s => !(Text.trim s.toList).isEmpty).map fun iccid => ⟨iccid, none, none⟩

def onAgentStarted (m : Machine) (generation : Nat) (previous : Option String) (now : Nat) : Machine × List Output :=
  let claimed := m.claimedAt.any (now - · < armWindow)
  let m :=
    { m with
      armedAt := none
      claimedAt := none
      known := m.known <|> previousIdentity previous }
  match m.transition with
  | some t =>
    if t.source = .agent && t.generation.isNone then ({ m with transition := some { t with generation := some generation } }, [])
    else if t.resolved.isNone then
      ({ m with transition := some { t with source := .agent, generation := some generation } }, [])
    else if claimed then (m, [])
    else m.leave .agent (some generation) now
  | none => if claimed then (m, []) else m.leave .agent (some generation) now

def onWan (m : Machine) (up : Option Bool) (now : Nat) : Machine :=
  match m.transition with
  | none => m
  | some t =>
    { m with
      transition := some { t with lastWan := some now, wanUpSeen := t.wanUpSeen || up = some true }
      readRequested := m.readRequested || t.stalled && t.resolved.isNone }

def handle (m : Machine) (input : Input) (now : Nat) : Machine × List Output :=
  match input with
  | .agentArm => ({ m with armedAt := some now, claimedAt := none }, [])
  | .agentDisarm => ({ m with armedAt := none }, [])
  | .agentStarted generation previous => m.onAgentStarted generation previous now
  | .card payload => m.onCard payload now
  | .sim (some id) => (m.afterRead now).identity id now
  | .sim none => (m.afterRead now, [])
  | .wan up => (m.onWan up now, [])
  | .gate gate => m.onGate gate now
  | .timer => (m, [])

def step (m : Machine) (input : Input) (now : Nat) : Machine × List Output :=
  let r := m.handle input now
  let r' := r.1.checkStall now
  (r'.1, r.2 ++ r'.2)

end Machine

end OpenU60.SimIdentity
