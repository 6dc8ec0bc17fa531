/-
  OpenU60.Events.Hub — the event hub (`zte-agent/src/events/hub.rs`, `mod.rs`).

  Instants and durations are milliseconds. The type of a topic's value is left open: `Reading` is
  what is read of an eSIM download's. Notifying the sampler's lanes, the signal history and the
  wake channel are left out: nothing here reads them.
-/

import OpenU60.Lib.FirstMatch
import OpenU60.Lib.Vec

namespace OpenU60.Events

open OpenU60.Lib OpenU60.Lib.FirstMatch

inductive Topic where
  | signal
  | traffic
  | battery
  | health
  | clients
  | wan
  | sim
  | modem
  | charger
  | batteryInfo
  | simIdentity
  | service
  | powerState
  | sms
  | esimSwitch
  | esimDownload
  | processes
  | usb
  | speedtest
  | netscan
  | signalDetect
  | stk
  deriving DecidableEq

inductive Lane where
  | fast
  | ubus
  | none
  deriving DecidableEq

structure TopicSpec where
  lane : Lane
  cadence : Option Nat
  alwaysBump : Bool
  maxAgeOnSubscribe : Option Nat

def specOf (lane : Lane) (cadenceMs maxAgeS : Nat) : TopicSpec :=
  ⟨lane, if 0 < cadenceMs then some cadenceMs else none, false, if 0 < maxAgeS then some (maxAgeS * 1000) else none⟩

namespace Topic

def all : List Topic :=
  [signal, traffic, battery, health, clients, wan, sim, modem, charger, batteryInfo, simIdentity, service, powerState, sms, esimSwitch,
    esimDownload, processes, usb, speedtest, netscan, signalDetect, stk]

def spec : Topic → TopicSpec
  | signal => { specOf .ubus 2000 0 with alwaysBump := true }
  | traffic => specOf .ubus 1000 0
  | battery => specOf .fast 5000 0
  | health => specOf .fast 2000 0
  | clients => specOf .ubus 10000 0
  | wan => specOf .ubus 0 30
  | sim => specOf .ubus 0 30
  | modem => specOf .ubus 0 30
  | charger => specOf .ubus 10000 10
  | batteryInfo => specOf .ubus 30000 10
  | simIdentity => specOf .fast 0 0
  | service => specOf .ubus 0 30
  | powerState => specOf .none 0 0
  | sms => specOf .none 0 0
  | esimSwitch => specOf .fast 0 0
  | esimDownload => specOf .fast 0 0
  | processes => specOf .fast 3000 0
  | usb => specOf .ubus 10000 10
  | speedtest => specOf .fast 0 0
  | netscan => specOf .ubus 2000 0
  | signalDetect => specOf .ubus 2000 0
  | stk => specOf .fast 0 0

end Topic

/-- A bit per topic. -/
structure TopicSet where
  bits : BitVec 32
  deriving DecidableEq

namespace TopicSet

def contains (s : TopicSet) (t : Topic) : Bool := s.bits.getLsbD (Topic.all.idxOf t)

def iter (s : TopicSet) : List Topic := Topic.all.filter s.contains

def insert (s : TopicSet) (t : Topic) : TopicSet := ⟨s.bits ||| 1 <<< Topic.all.idxOf t⟩

def of (ts : List Topic) : TopicSet := ts.foldl insert ⟨0⟩

end TopicSet

def maxStreams : Nat := 8
def maxPerOwner : Nat := 3
def entryTable : Nat := 64
def signalCadence : Nat := 2000
def signalHintMin : Nat := 1000
def signalHintMax : Nat := 10000
def touchCoalesce : Nat := 500
def errBackoffMin : Nat := 5000
def errBackoffMax : Nat := 60000
def resultKeepSecs : Nat := 600

def clamp (lo hi n : Nat) : Nat := min (max n lo) hi

variable {V : Type}

structure SlotView (V : Type) where
  version : Nat
  at_ : Nat
  valueAt : Nat
  value : Option V
  error : Option String
  deriving DecidableEq

structure ReadOut (V : Type) where
  value : Option V
  error : Option String

/-- What is read of an eSIM download's view. -/
structure Reading (V : Type) where
  state : V → Option String
  finishedAt : V → Option Nat

inductive EndReason where
  | evicted
  | loggedOut
  | standby
  deriving DecidableEq

structure SubscribeReq where
  owner : Nat
  topics : TopicSet
  signalHint : Option Nat
  replaceSame : Option Nat

structure Slot (V : Type) where
  version : Nat := 0
  at_ : Nat := 0
  valueAt : Nat := 0
  value : Option V := none
  error : Option String := none
  readStarted : Option Nat := none
  lastRead : Option Nat := none
  stale : Bool := false
  touchedAt : Option Nat := none
  pullAfter : Option Nat := none
  settleUntil : Option Nat := none
  errBackoff : Nat := 0
  errRetry : Bool := false
  recheckAt : Option Nat := none
  announce : Bool := false

namespace Slot

def view (s : Slot V) : SlotView V := ⟨s.version, s.at_, s.valueAt, s.value, s.error⟩

def hasData (s : Slot V) : Bool := s.value.isSome || s.error.isSome

end Slot

structure StreamEntry where
  owner : Nat
  topics : TopicSet
  signalHint : Option Nat
  replaceSame : Option Nat
  serial : Nat
  ended : Option EndReason
  deriving DecidableEq

def StreamEntry.live (e : StreamEntry) : Bool := e.ended.isNone

structure State (V : Type) where
  seq : Nat := 0
  slots : Topic → Slot V := fun _ => {}
  demand : Topic → Nat := fun _ => 0
  signalCadence : Nat := Events.signalCadence
  streams : List (Option StreamEntry) := List.replicate entryTable none
  nextSerial : Nat := 0

/-- Seconds until the result of an eSIM download is forgotten. -/
def resultExpiry (r : Reading V) (view : V) (unixNow : Nat) : Option Nat :=
  if r.state view ∈ [some "done", some "failed", some "cancelled"] then do
    let finished ← r.finishedAt view
    some ((clamp 1 resultKeepSecs (finished + resultKeepSecs - unixNow) + 1) * 1000)
  else none

namespace State

def setSlot (st : State V) (t : Topic) (s : Slot V) : State V := { st with slots := fun u => if u = t then s else st.slots u }

def wakeStreams (st : State V) : State V := { st with seq := st.seq + 1 }

def bump (st : State V) (t : Topic) : State V :=
  let st := st.wakeStreams
  st.setSlot t { st.slots t with version := st.seq }

def cadence (st : State V) (t : Topic) : Option Nat := t.spec.cadence.map fun base => if t = .signal then st.signalCadence else base

/-! ## Streams -/

def live (st : State V) : List (Nat × StreamEntry) :=
  st.streams.zipIdx.filterMap fun p => (p.1.filter StreamEntry.live).map fun e => (p.2, e)

def release (st : State V) (topics : TopicSet) : State V :=
  { st with demand := fun t => if topics.contains t then st.demand t - 1 else st.demand t }

def endEntry (st : State V) (i : Nat) (reason : EndReason) : State V :=
  match (st.streams[i]?).join.filter StreamEntry.live with
  | none => st
  | some e => { st with streams := st.streams.set i (some { e with ended := some reason }) }.release e.topics

/-- The fastest requested signal cadence of the live streams, clamped. -/
def recomputeSignalCadence (st : State V) : State V :=
  { st with
    signalCadence := (((st.live.filter (·.2.topics.contains .signal)).map fun p =>
      clamp signalHintMin signalHintMax (p.2.signalHint.getD Events.signalCadence)).min?).getD Events.signalCadence }

def endWhere (st : State V) (p : StreamEntry → Bool) (reason : EndReason) : State V :=
  ((List.range entryTable).foldl (fun st i => if (st.streams[i]?).join.any p then st.endEntry i reason else st)
    st).recomputeSignalCadence.wakeStreams

/-- What every entry that ends keeps, ending some of them keeps. -/
theorem endWhere_keeps {P : State V → Prop} (hend : ∀ st i reason, P st → P (st.endEntry i reason)) (p : StreamEntry → Bool)
    (reason : EndReason) {st : State V} (h : P st) :
    ∃ st', st.endWhere p reason = st'.recomputeSignalCadence.wakeStreams ∧ P st' := by
  refine ⟨_, rfl, ?_⟩
  generalize List.range entryTable = is
  induction is generalizing st with
  | nil => exact h
  | cons i is ih =>
    rw [List.foldl_cons]
    refine ih ?_
    split
    · exact hend st i reason h
    · exact h

def endSessions (st : State V) (ids : List Nat) : State V := st.endWhere (fun e => e.owner ∈ ids) .loggedOut

def endAll (st : State V) (reason : EndReason) : State V := st.endWhere (fun _ => true) reason

/-- The stream that gives way to a new one: its predecessor, or the owner's oldest where it has its share. -/
def evicted (st : State V) (req : SubscribeReq) : Option Nat :=
  let own := st.live.filter (·.2.owner = req.owner)
  let oldestOwn := (Vec.firstMin (·.2.serial) own).map (·.2.1)
  let same := (st.live.find? fun p =>
    req.replaceSame.isSome && p.2.replaceSame = req.replaceSame && p.2.owner = req.owner && p.2.topics = req.topics).map (·.1)
  same <|> oldestOwn.filter fun _ => maxPerOwner ≤ own.length

def giveWay (st : State V) : Option Nat → State V
  | some i => (st.endEntry i .evicted).wakeStreams
  | none => st

/-- What a new subscription does to a topic's slot. -/
def subscribeSlot (st : State V) (t : Topic) (now bootNow : Nat) : Slot V :=
  let slot := st.slots t
  if t.spec.lane = .none then slot
  else
    let age := bootNow - slot.at_
    let tooOld := t.spec.maxAgeOnSubscribe.any (· < age)
    let announce := slot.announce || (slot.hasData && (tooOld || (st.cadence t).any fun c => 2 * c < age))
    if slot.lastRead.isNone || tooOld || slot.recheckAt.isSome then { slot with announce, stale := true, pullAfter := some now }
    else { slot with announce }

/-- The entry of the new stream, unless the hub is full. -/
def subscribe (st : State V) (req : SubscribeReq) (now bootNow : Nat) : Option Nat × State V :=
  let evict := st.evicted req
  if maxStreams ≤ st.live.length - (if evict.isSome then 1 else 0) then (none, st)
  else
    match st.streams.findIdx? Option.isNone with
    | none => (none, st)
    | some entry =>
      let st := st.giveWay evict
      let st := { st with
        nextSerial := st.nextSerial + 1
        streams := st.streams.set entry (some ⟨req.owner, req.topics, req.signalHint, req.replaceSame, st.nextSerial + 1, none⟩)
        demand := fun t => if req.topics.contains t then st.demand t + 1 else st.demand t
        slots := fun t => if req.topics.contains t then st.subscribeSlot t now bootNow else st.slots t }
      (some entry, st.recomputeSignalCadence)

/-- `drop`: the entry is free again, and its demand given back unless the stream had ended. -/
def dropEntry (st : State V) (i : Nat) : State V :=
  let taken := (st.streams[i]?).join
  let st := { st with streams := st.streams.set i none }
  let st := match taken with
    | some e => if e.live then st.release e.topics else st
    | none => st
  st.recomputeSignalCadence

/-! ## Slots -/

variable [DecidableEq V]

def put (st : State V) (t : Topic) (data : V) (now bootNow : Nat) : State V :=
  let slot := st.slots t
  let announce := slot.announce
  let slot := { slot with
    readStarted := some now, lastRead := some now, at_ := bootNow, valueAt := bootNow, stale := false, pullAfter := none
    errBackoff := 0, errRetry := false, announce := false }
  if slot.error.isSome || slot.value ≠ some data || announce then
    (st.setSlot t { slot with value := some data, error := none }).bump t
  else st.setSlot t slot

def touch (st : State V) (t : Topic) (settle : Option Nat) (now : Nat) : State V :=
  let slot := st.slots t
  st.setSlot t { slot with
    stale := true, touchedAt := some now, pullAfter := slot.pullAfter <|> some (now + touchCoalesce)
    settleUntil := match settle with
      | some window => some (now + window)
      | none => slot.settleUntil }

/-- What every read that is not too late leaves of the slot. -/
def readSlot (slot : Slot V) (started now bootNow : Nat) : Slot V :=
  let slot := { slot with readStarted := some started, lastRead := some now, at_ := bootNow }
  if slot.touchedAt.all (· ≤ started) then { slot with stale := false, pullAfter := none }
  else { slot with pullAfter := some (now + touchCoalesce) }

/-- What a read's outcome leaves of it, apart from the value and the error. -/
def readOut (slot : Slot V) (out : ReadOut V) (bootNow : Nat) : Slot V :=
  { slot with
    errBackoff := if out.error.isSome then clamp errBackoffMin errBackoffMax (slot.errBackoff * 2) else 0
    errRetry := out.error.isSome && (out.value.isNone || slot.error ≠ out.error)
    recheckAt := if out.value.isNone then none else slot.recheckAt
    valueAt := if out.value.isSome then bootNow else slot.valueAt
    announce := if out.value.isSome then false else slot.announce }

/-- Whether the outcome changes the slot, and the slot with it. A failed read keeps the last value. -/
def takeIn (r : Reading V) (t : Topic) (slot : Slot V) (out : ReadOut V) (now unixNow : Nat) : Bool × Slot V :=
  match out.value with
  | some v =>
    let slot := if t = .esimDownload then { slot with recheckAt := (resultExpiry r v unixNow).map (now + ·) } else slot
    if slot.value ≠ some v || slot.error ≠ out.error then (true, { slot with value := some v, error := out.error })
    else (false, slot)
  | none => if out.error.isSome then (slot.error ≠ out.error, { slot with error := out.error }) else (false, slot)

def storeAt (r : Reading V) (st : State V) (t : Topic) (out : Option (ReadOut V)) (started now bootNow unixNow : Nat) : State V :=
  if (st.slots t).readStarted.any (started < ·) then st
  else
    let slot := readSlot (st.slots t) started now bootNow
    match out with
    | none => st.setSlot t slot
    | some out =>
      let announce := out.value.isSome && slot.announce
      let (changed, slot) := takeIn r t (readOut slot out bootNow) out now unixNow
      let st := st.setSlot t slot
      if changed || announce || t.spec.alwaysBump then st.bump t else st

/-- `Hub::new`: nothing was read, and no message received. -/
def new (received : V) (now bootNow : Nat) : State V := ({} : State V).put .sms received now bootNow

end State

/-! ## Subscriptions -/

structure Subscription (V : Type) where
  entry : Nat
  topics : TopicSet
  seen : Topic → Nat
  /-- What was delivered last of each topic. -/
  delivered : Topic → Option V × Option String

namespace Subscription

def opened (entry : Nat) (topics : TopicSet) : Subscription V := ⟨entry, topics, fun _ => 0, fun _ => (none, none)⟩

/-- The topic is part of what `collect` returns. -/
def takes (sub : Subscription V) (st : State V) (all : Bool) (t : Topic) : Bool :=
  (st.slots t).hasData && (all || sub.seen t < (st.slots t).version)

/-- `snapshot` (all) or `changes`. -/
def collect (sub : Subscription V) (st : State V) (all : Bool) : List (Topic × SlotView V) × Subscription V :=
  let out := (sub.topics.iter.filter (sub.takes st all)).map fun t => (t, (st.slots t).view)
  (out,
    { sub with
      seen := fun t => if sub.topics.contains t then (st.slots t).version else sub.seen t
      delivered := fun t =>
        match out.find? (·.1 = t) with
        | some p => (p.2.value, p.2.error)
        | none => sub.delivered t })

end Subscription

/-! ## The machine -/

inductive Event (V : Type) where
  | put (t : Topic) (data : V) (now bootNow : Nat)
  | store (t : Topic) (out : Option (ReadOut V)) (started now bootNow unixNow : Nat)
  | touch (t : Topic) (settle : Option Nat) (now : Nat)
  | endSessions (ids : List Nat)
  | endAll (reason : EndReason)
  | subscribe (req : SubscribeReq) (now bootNow : Nat)
  /-- The subscription of the entry is dropped. -/
  | drop (entry : Nat)
  | collect (entry : Nat) (all : Bool)

/-- The hub and the subscriptions held. -/
structure World (V : Type) where
  hub : State V
  subs : List (Subscription V)

namespace World

variable [DecidableEq V]

def step (r : Reading V) (w : World V) : Event V → World V
  | .put t data now bootNow => { w with hub := w.hub.put t data now bootNow }
  | .store t out started now bootNow unixNow => { w with hub := w.hub.storeAt r t out started now bootNow unixNow }
  | .touch t settle now => { w with hub := w.hub.touch t settle now }
  | .endSessions ids => { w with hub := w.hub.endSessions ids }
  | .endAll reason => { w with hub := w.hub.endAll reason }
  | .subscribe req now bootNow =>
    match w.hub.subscribe req now bootNow with
    | (some entry, hub) => { hub, subs := w.subs ++ [.opened entry req.topics] }
    | (none, hub) => { w with hub }
  | .drop entry =>
    if entry ∈ w.subs.map Subscription.entry then
      { hub := w.hub.dropEntry entry, subs := w.subs.filter (·.entry ≠ entry) }
    else w
  | .collect entry all => { w with subs := updateFirst (·.entry == entry) (fun sub => (sub.collect w.hub all).2) w.subs }

def start (received : V) (now bootNow : Nat) : World V := ⟨.new received now bootNow, []⟩

end World

end OpenU60.Events
