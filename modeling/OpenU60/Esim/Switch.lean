/-
  OpenU60.Esim.Switch — profile switches and the workers that follow them
  (`zte-agent/src/esim.rs`: `enable`, `retry_while_busy`, `retry_enable`, `verify_switch`,
  `profiles`).

  Every request is an actor; when its handler answers, the worker it started goes on as the
  same actor. An actor stands at the statement it runs next, and each statement that touches
  the card's flag, the card, the inventory or the switch record is an event of its own, so
  the actors interleave as the locks let them. The clock, the modem, the other holders of the
  card and what the card answers are in the event.

  `last` and `owner` are not in the agent: whose enable command the card carried out last,
  and whose switch is on record. The handover check's part of the record (the network policy
  and its outcome) is left out: no other part of it depends on these.
-/

import Mathlib
import OpenU60.Lib.Text

namespace OpenU60.Esim.Switching

open OpenU60.Lib

structure Profile where
  iccid : String
  state : String
  kind : String
  deriving DecidableEq

def enabledIccid (list : List Profile) : Option String := (list.find? (·.state == "enabled")).map (·.iccid)

/-- The profile must exist, be disabled and be an ordinary operator profile. -/
def checkEnableTarget (list : List Profile) (iccid : String) : Except (Nat × String) Unit :=
  match list.find? (·.iccid == iccid) with
  | none => .error (404, "no profile with this ICCID on the eSIM")
  | some target =>
    if target.state ≠ "disabled" then .error (409, "this profile is already enabled")
    else if target.kind ≠ "operational" then .error (400, "only operational profiles can be enabled here")
    else .ok ()

inductive CardError where
  | config (m : String)
  | failed (m : String)
  | notStarted (m : String)
  deriving DecidableEq

namespace CardError

def message : CardError → String
  | .config m => m
  | .failed m => m
  | .notStarted m => m

def status : CardError → Nat
  | .config _ => 503
  | .failed _ => 502
  | .notStarted _ => 409

end CardError

/-- What an enable command comes to. The configuration does not change and the card has
    answered before, so this command does not fail on it. -/
inductive Answer where
  | ok
  | failed (m : String)
  | notStarted (m : String)
  deriving DecidableEq

/-- The card answered with a refusal that passes. -/
def cardBusy (message : String) : Bool :=
  Text.contains "es10c_enable_profile".toList message.toList &&
    ["catBusy", "undefinedError", "unknown result"].any fun r => Text.contains r.toList message.toList

structure ReadError where
  kind : String
  message : String
  at_ : Nat
  deriving DecidableEq

/-- A failure to open the channel is expected while a switch reloads the SIM. -/
def classify (message : String) (recentlySwitched : Bool) : String :=
  if ["euicc_init", "open logical channel", "SimFileNotFound"].any fun r => Text.contains r.toList message.toList then
    if recentlySwitched then "sim_reloading" else "management_unavailable"
  else "read_failed"

/-- The last good profile list. -/
structure Inventory where
  profiles : Option (List Profile) := none
  observedAt : Nat := 0
  observedSeq : Nat := 0
  generation : Nat := 0
  /-- A switch is reloading the SIM: reads are answered from the list. -/
  reloading : Bool := false
  error : Option ReadError := none
  eid : Option String := none

namespace Inventory

/-- Another EID is another card: the list belongs to the old one and is dropped. -/
def noteCard (inv : Inventory) (eid : String) : Inventory × Bool :=
  if eid = "" then (inv, false)
  else
    match inv.eid with
    | some known => if known ≠ eid then ({ eid := some eid, generation := inv.generation + 1 }, true) else (inv, false)
    | none => ({ inv with eid := some eid }, false)

def record (inv : Inventory) (profiles : List Profile) (now : Nat) : Inventory :=
  { inv with profiles := some profiles, observedAt := now, observedSeq := inv.observedSeq + 1, error := none }

end Inventory

inductive SwitchState where
  | idle
  | reloading
  | cardConfirmed
  | modemConfirmed
  | connected
  | noData
  | modemUnconfirmed
  | cardUnconfirmed
  | notApplied
  | cardBusy
  deriving DecidableEq

/-- The last profile switch. -/
structure Switch where
  state : SwitchState := .idle
  target : String := ""
  previous : Option String := none
  generation : Nat := 0
  startedAt : Nat := 0
  cardConfirmedAt : Nat := 0
  modemConfirmedAt : Nat := 0
  connectedAt : Nat := 0
  finishedAt : Nat := 0
  note : Option String := none
  reason : Option String := none

def Switch.finish (sw : Switch) (state : SwitchState) (now : Nat) : Switch := { sw with state, finishedAt := now }

/-! ## Where an actor stands -/

inductive EnableStep where
  | asked
  | unblocked
  | calm
  | holding
  | known
  | ran (list : List Profile) (note : Option String)
  | listed (previous : Option String) (generation : Nat) (note : Option String)
  | recorded (generation : Nat)
  | unspawned

inductive DeferStep where
  | refused (list : List Profile) (m : String)
  | listed (previous : Option String) (generation : Nat) (m : String)
  | recorded (generation : Nat)
  | unspawned (generation : Nat)

inductive RetryStep where
  | sleeping (attempt : Nat) (last : String)
  | holding (attempt : Nat)
  | ran (attempt : Nat) (result : Answer)
  | accepted (note : String)
  | flagged (note : String)

inductive VerifyStep where
  | checking (last : String)
  | waiting (last : String)
  | holding
  | listed (list : List Profile)
  | judging (enabled : Option String)
  | unreadable (last : String)
  | unread
  | following

inductive ReadStep where
  | asked
  | calm
  | holding
  | ran (result : Except CardError (List Profile))

inductive Actor where
  | idle
  | refused (status : Nat) (text : String)
  | done
  | enabling (target : String) (s : EnableStep)
  | deferring (target : String) (s : DeferStep)
  | retrying (target : String) (generation : Nat) (s : RetryStep)
  | verifying (target : String) (generation : Nat) (s : VerifyStep)
  | reading (s : ReadStep)

/-- What a step finds outside: the time, the modem, the card and its other holders. -/
structure Outside where
  now : Nat := 0
  /-- The modem is in airplane or low-power mode. -/
  offline : Bool := false
  /-- Another process, or a request of another kind, holds the card. -/
  locked : Bool := false
  chip : Except CardError String := .ok ""
  /-- The failure of a list command. -/
  listing : Option CardError := none
  answer : Answer := .ok
  /-- A failed enable switched the card all the same. -/
  applied : Bool := false
  spawned : Bool := true
  /-- The worker's time is over. -/
  late : Bool := false
  simReady : Bool := true
  /-- The modem has loaded the target. -/
  loaded : Bool := false
  connected : Bool := false
  blocker : Option String := none
  recent : Bool := false

/-- An enable command the card carried out. -/
structure Command where
  actor : Nat
  target : String
  ok : Bool
  deriving DecidableEq

structure World where
  card : List Profile
  /-- A command holds the card. -/
  busy : Bool := false
  inventory : Inventory := {}
  switch : Switch := {}
  actors : Nat → Actor := fun _ => .idle
  last : Option Command := none
  owner : Option Nat := none

inductive Event where
  | enable (i : Nat) (target : String)
  | read (i : Nat)
  | run (i : Nat) (x : Outside)

namespace World

def moved (w : World) (i : Nat) (a : Actor) : World := { w with actors := Function.update w.actors i a }

def refuse (w : World) (i : Nat) (status : Nat) (text : String) : World := w.moved i (.refused status text)

/-- `acquire`: the flag, and the lock other processes share. -/
def free (w : World) (x : Outside) : Bool := !w.busy && !x.locked

def acquire (w : World) : World := { w with busy := true }

def release (w : World) : World := { w with busy := false }

def fail (w : World) (i : Nat) (e : CardError) : World := w.release.refuse i e.status e.message

/-! ## The card -/

/-- One profile is enabled at a time. -/
def switched (card : List Profile) (t : String) : List Profile :=
  card.map fun p => { p with state := if p.iccid = t then "enabled" else "disabled" }

/-- A card answers with success only for a profile it has. -/
def answered (w : World) (t : String) (x : Outside) : Answer :=
  match x.answer with
  | .ok => if w.card.any (·.iccid == t) then .ok else .failed "es10c_enable_profile: result iccidOrAidNotFound"
  | r => r

/-- A refusal that passes changes nothing; after any other failure the card may have
    switched. -/
def switches (r : Answer) (applied : Bool) : Bool :=
  match r with
  | .ok => true
  | .failed m => !cardBusy m && applied
  | .notStarted _ => false

/-- `profile enable` on the card, which is let go afterwards. -/
def commanded (w : World) (i : Nat) (t : String) (x : Outside) : World :=
  let r := w.answered t x
  { w.release with
    card := if switches r x.applied then switched w.card t else w.card
    last := match r with
      | .ok => some ⟨i, t, true⟩
      | .failed _ => some ⟨i, t, false⟩
      | .notStarted _ => w.last }

/-! ## The requests and their workers -/

def errorNote (m : String) : String := "enable error: " ++ m

def enable (w : World) (i : Nat) (x : Outside) (t : String) : EnableStep → World
  | .asked =>
    if w.inventory.reloading then
      w.refuse i 409 "the SIM is still reloading after the last switch; try again in a moment"
    else w.moved i (.enabling t .unblocked)
  | .unblocked =>
    if w.switch.state = .cardBusy then
      w.refuse i 409 "the router is still retrying the last switch while the eSIM is busy"
    else w.moved i (.enabling t .calm)
  | .calm =>
    if x.offline then
      w.refuse i 409 "the modem is in airplane / low-power mode; turn it back on before switching profiles"
    else if w.free x then w.acquire.moved i (.enabling t .holding)
    else w.refuse i 409 "eSIM manager busy; retry shortly"
  | .holding =>
    match x.chip with
    | .error e => w.fail i e
    | .ok eid =>
      let noted := w.inventory.noteCard eid
      if noted.2 then
        { w.release with inventory := noted.1 }.refuse i 409 "a different eSIM card is in the slot; reload the profile list"
      else { w with inventory := noted.1 }.moved i (.enabling t .known)
  | .known =>
    match x.listing with
    | some e => w.fail i e
    | none =>
      match checkEnableTarget w.card t with
      | .error (status, text) => w.release.refuse i status text
      | .ok () =>
        let ran := w.commanded i t x
        match w.answered t x with
        | .ok => ran.moved i (.enabling t (.ran w.card none))
        | .failed m =>
          if cardBusy m then ran.moved i (.deferring t (.refused w.card m))
          else ran.moved i (.enabling t (.ran w.card (some (errorNote m))))
        | .notStarted m => ran.refuse i 409 m
  | .ran list note =>
    let generation := w.inventory.generation + 1
    { w with inventory := { w.inventory.record list x.now with generation, reloading := true } }.moved i
      (.enabling t (.listed (enabledIccid list) generation note))
  | .listed previous generation note =>
    { w with switch := { state := .reloading, target := t, previous, generation, startedAt := x.now, note },
             owner := some i }.moved i (.enabling t (.recorded generation))
  | .recorded generation =>
    if x.spawned then w.moved i (.verifying t generation (.checking "the SIM did not report ready"))
    else w.moved i (.enabling t .unspawned)
  -- both locks are held here
  | .unspawned =>
    { w with inventory := { w.inventory with reloading := false },
             switch := w.switch.finish .cardUnconfirmed x.now }.moved i .done

def retryWhileBusy (w : World) (i : Nat) (x : Outside) (t : String) : DeferStep → World
  | .refused list m =>
    let generation := w.inventory.generation + 1
    { w with inventory := { w.inventory.record list x.now with generation } }.moved i
      (.deferring t (.listed (enabledIccid list) generation m))
  | .listed previous generation m =>
    { w with switch := { state := .cardBusy, target := t, previous, generation, startedAt := x.now,
                         note := some ("the eSIM refused while busy (" ++ m ++ "); retrying") },
             owner := some i }.moved i (.deferring t (.recorded generation))
  | .recorded generation =>
    if x.spawned then w.moved i (.retrying t generation (.sleeping 1 "")) else w.moved i (.deferring t (.unspawned generation))
  -- the generation is not looked at
  | .unspawned _ => { w with switch := { w.switch with reason := some "card_busy" }.finish .notApplied x.now }.moved i .done

def retryEnable (w : World) (i : Nat) (x : Outside) (t : String) (generation : Nat) : RetryStep → World
  | .sleeping attempt last =>
    if x.late then
      if w.switch.generation ≠ generation then w.moved i .done
      else
        { w with switch := { w.switch with reason := some "card_busy",
                                           note := some ("the eSIM stayed busy for 240 s (" ++ last ++ ")") }.finish
                   .notApplied x.now }.moved i .done
    else if w.free x then w.acquire.moved i (.retrying t generation (.holding (attempt + 1)))
    else w.moved i (.retrying t generation (.sleeping (attempt + 1) last))
  | .holding attempt => (w.commanded i t x).moved i (.retrying t generation (.ran attempt (w.answered t x)))
  | .ran attempt result =>
    if w.switch.generation ≠ generation then w.moved i .done
    else
      match result with
      | .ok =>
        w.moved i (.retrying t generation (.accepted ("the eSIM was busy; switched on attempt " ++ toString attempt)))
      | .notStarted m => w.moved i (.retrying t generation (.sleeping attempt m))
      | .failed m =>
        if cardBusy m then w.moved i (.retrying t generation (.sleeping attempt m))
        else w.moved i (.retrying t generation (.accepted (errorNote m)))
  | .accepted note =>
    { w with inventory := { w.inventory with reloading := true } }.moved i (.retrying t generation (.flagged note))
  | .flagged note =>
    { w with switch := { w.switch with state := .reloading, note := some note } }.moved i
      (.verifying t generation (.checking "the SIM did not report ready"))

def verifySwitch (w : World) (i : Nat) (x : Outside) (t : String) (generation : Nat) : VerifyStep → World
  | .checking last =>
    if x.late then w.moved i (.verifying t generation (.unreadable last))
    else if w.switch.generation ≠ generation then w.moved i .done
    else w.moved i (.verifying t generation (.waiting last))
  | .waiting last =>
    if x.simReady && w.free x then w.acquire.moved i (.verifying t generation .holding)
    else w.moved i (.verifying t generation (.checking last))
  | .holding =>
    match x.listing with
    | some e => w.release.moved i (.verifying t generation (.checking e.message))
    | none => w.release.moved i (.verifying t generation (.listed w.card))
  | .listed list =>
    { w with inventory := { w.inventory.record list x.now with reloading := false } }.moved i
      (.verifying t generation (.judging (enabledIccid list)))
  | .judging enabled =>
    if enabled ≠ some t then
      (if w.switch.generation = generation then { w with switch := w.switch.finish .notApplied x.now } else w).moved i .done
    else if w.switch.generation ≠ generation then w.moved i .done
    else
      { w with switch := { w.switch with cardConfirmedAt := x.now, state := .cardConfirmed } }.moved i
        (.verifying t generation .following)
  | .unreadable last =>
    { w with inventory := { w.inventory with reloading := false, error := some ⟨"management_unavailable", last, x.now⟩ } }.moved
      i (.verifying t generation .unread)
  | .unread =>
    if x.loaded then w.moved i (.verifying t generation .following)
    else if w.switch.generation ≠ generation then w.moved i .done
    else { w with switch := w.switch.finish .cardUnconfirmed x.now }.moved i .done
  | .following =>
    if w.switch.generation ≠ generation then w.moved i .done
    else
      let sw := if w.switch.modemConfirmedAt = 0 ∧ x.loaded then
          { w.switch with modemConfirmedAt := x.now, state := .modemConfirmed }
        else w.switch
      if x.loaded && x.connected then
        { w with switch := { sw with connectedAt := x.now }.finish .connected x.now }.moved i .done
      else if x.late then
        if x.loaded then
          { w with switch := { sw with reason := some (x.blocker.getD "network_unavailable") }.finish .noData x.now }.moved i
            .done
        else { w with switch := sw.finish .modemUnconfirmed x.now }.moved i .done
      else { w with switch := sw }.moved i (.verifying t generation .following)

/-- Without the card a read is answered from the list. -/
def profiles (w : World) (i : Nat) (x : Outside) : ReadStep → World
  | .asked => if w.inventory.reloading then w.moved i .done else w.moved i (.reading .calm)
  | .calm => if w.free x then w.acquire.moved i (.reading .holding) else w.moved i .done
  | .holding =>
    match x.listing with
    | some e => w.moved i (.reading (.ran (.error e)))
    | none => w.moved i (.reading (.ran (.ok w.card)))
  | .ran (.ok list) => { w.release with inventory := w.inventory.record list x.now }.moved i .done
  | .ran (.error e) =>
    let kind := match e with
      | .config _ => "not_configured"
      | .notStarted _ => "busy"
      | .failed m => classify m x.recent
    { w.release with inventory := { w.inventory with error := some ⟨kind, e.message, x.now⟩ } }.moved i .done

/-- The next statement of an actor. -/
def run (w : World) (i : Nat) (x : Outside) : World :=
  match w.actors i with
  | .idle => w
  | .refused _ _ => w
  | .done => w
  | .enabling t s => w.enable i x t s
  | .deferring t s => w.retryWhileBusy i x t s
  | .retrying t g s => w.retryEnable i x t g s
  | .verifying t g s => w.verifySwitch i x t g s
  | .reading s => w.profiles i x s

/-- An idle actor takes a new request. -/
def arrives (w : World) (i : Nat) (a : Actor) : World :=
  match w.actors i with
  | .idle => w.moved i a
  | _ => w

def step (w : World) : Event → World
  | .enable i t => w.arrives i (.enabling t .asked)
  | .read i => w.arrives i (.reading .asked)
  | .run i x => w.run i x

end World

end OpenU60.Esim.Switching
