/-
  OpenU60.Esim.Receipts — the operator receipts and their retry worker
  (`zte-agent/src/esim.rs`: `Receipts`, `list_receipts`, `send_receipts`,
  `ensure_receipt_retry`, `notifications_process`).

  A request lists the receipts, sends them, or makes sure that a worker retries them; every
  caller in the agent does these one after the other. Requests and workers are threads that
  take their statements in any order; a thread that lists or sends holds the card. What the
  card and the servers answer is in the event.
-/

import Mathlib

namespace OpenU60.Esim.Receipts

def maxAttempts : Nat := 10
def maxRounds : Nat := 24

structure Receipt where
  seq : Nat
  operation : String
  address : String
  iccid : Option String
  attempts : Nat := 0
  lastError : Option String := none
  deriving DecidableEq

/-- It is the same receipt on the card. -/
def Receipt.same (r o : Receipt) : Bool :=
  o.seq = r.seq && o.address = r.address && o.operation = r.operation && o.iccid = r.iccid

structure Notification where
  seqNumber : Nat
  profileManagementOperation : String
  notificationAddress : String
  iccid : Option String

/-- What a card lists: it gives every notification its own number. -/
structure Listing where
  items : List Notification
  numbered : (items.map (·.seqNumber)).Nodup

def receiptViews (data : Listing) : List Receipt :=
  data.items.map fun n =>
    { seq := n.seqNumber, operation := n.profileManagementOperation, address := n.notificationAddress, iccid := n.iccid }

/-- The saved state. -/
structure Saved where
  /-- As last listed from the card. -/
  pending : Option (List Receipt) := none
  listedAt : Nat := 0
  lastAttemptAt : Nat := 0
  lastSentAt : Nat := 0
  /-- A background retry loop is running. -/
  retrying : Bool := false

namespace Saved

def receipts (s : Saved) : List Receipt := s.pending.getD []

/-- Replaces the list with a fresh card read, keeping attempt counts for receipts still there. -/
def merge (s : Saved) (fresh : List Receipt) (now : Nat) : Saved :=
  { s with
    pending := some (fresh.map fun r =>
      match s.receipts.find? r.same with
      | some o => { r with attempts := o.attempts, lastError := o.lastError }
      | none => r)
    listedAt := now }

def retryable (s : Saved) : Bool := s.receipts.any (·.attempts < maxAttempts)

def todo (s : Saved) : List (Nat × String) := (s.receipts.filter (·.attempts < maxAttempts)).map fun r => (r.seq, r.address)

/-- The server has accepted the receipt. -/
def accepted (s : Saved) (seq now : Nat) : Saved :=
  { s with pending := s.pending.map (·.filter (·.seq ≠ seq)), lastSentAt := now }

/-- The first entry with this number has failed once more. -/
def failOne (seq : Nat) (m : String) : List Receipt → List Receipt
  | [] => []
  | r :: rs => if r.seq = seq then { r with attempts := r.attempts + 1, lastError := some m } :: rs else r :: failOne seq m rs

def failed (s : Saved) (seq : Nat) (m : String) : Saved := { s with pending := s.pending.map (failOne seq m) }

def reset (s : Saved) : Saved := { s with pending := s.pending.map (·.map fun r => { r with attempts := 0 }) }

end Saved

/-- What sending one receipt comes to; not started, it never reached the card. -/
inductive Answer where
  | ok
  | failed (m : String)
  | notStarted (m : String)
  deriving DecidableEq

/-- What a statement finds outside: the time, the card and its other holders, the network. -/
structure Outside where
  now : Nat := 0
  /-- Another request or process holds the card. -/
  locked : Bool := false
  /-- A switch is reloading the SIM. -/
  reloading : Bool := false
  /-- The router has mobile data. -/
  connected : Bool := true
  /-- What the card lists, unless the read fails. -/
  listing : Option Listing := none
  answer : Answer := .ok
  spawned : Bool := true

/-- The next statement of `send_receipts`. -/
inductive SendStep where
  | listing
  | picking
  | sending (todo : List (Nat × String)) (failedServers : List String)
  | relisting

/-- Each receipt on its own; a server that failed is skipped for the rest of the round.
    `none`: the round is done. -/
def sendReceipts (s : Saved) (x : Outside) : SendStep → Saved × Option SendStep
  | .listing =>
    match x.listing with
    | none => (s, none)
    | some data => (s.merge (receiptViews data) x.now, some .picking)
  | .picking => ({ s with lastAttemptAt := x.now }, some (.sending s.todo []))
  | .sending [] _ => (s, some .relisting)
  | .sending ((seq, address) :: todo) failedServers =>
    if address ∈ failedServers then (s, some (.sending todo failedServers))
    else
      match x.answer with
      -- nothing was attempted: the round stops
      | .notStarted _ => (s, some .relisting)
      | .ok => (s.accepted seq x.now, some (.sending todo failedServers))
      | .failed m => (s.failed seq m, some (.sending todo (address :: failedServers)))
  | .relisting =>
    match x.listing with
    | none => (s, none)
    | some data => (s.merge (receiptViews data) x.now, none)

/-- The next statement of a request. -/
inductive Request where
  | idle
  | done
  | listing
  | sending (s : SendStep) (ensures : Bool)
  -- `notifications_process`
  | resetting
  | starting
  -- `ensure_receipt_retry`
  | ensuring
  | spawning
  | unspawned

/-- The next statement of the worker; `left` counts the rounds after this one. -/
inductive Worker where
  | none
  | sleeping (left : Nat)
  | sending (left : Nat) (s : SendStep)
  | checking (left : Nat)
  | stopping
  | done

inductive Holder where
  | request (i : Nat)
  | worker (j : Nat)
  deriving DecidableEq

structure World where
  saved : Saved := {}
  /-- The card's flag, with who has raised it. -/
  busy : Option Holder := none
  requests : Nat → Request := fun _ => .idle
  /-- The worker a request has started. -/
  workers : Nat → Worker := fun _ => .none
  /-- How many rounds it has begun. -/
  rounds : Nat → Nat := fun _ => 0

inductive Event where
  | list (i : Nat) (x : Outside)
  | send (i : Nat) (x : Outside)
  | process (i : Nat) (x : Outside)
  | ensure (i : Nat)
  | run (i : Nat) (x : Outside)
  | work (j : Nat) (x : Outside)

namespace World

def requested (w : World) (i : Nat) (r : Request) : World := { w with requests := Function.update w.requests i r }

def worked (w : World) (j : Nat) (k : Worker) : World := { w with workers := Function.update w.workers j k }

def free (w : World) (x : Outside) : Bool := w.busy.isNone && !x.locked

def release (w : World) : World := { w with busy := none }

/-- A request that needs the card. -/
def asks (w : World) (i : Nat) (x : Outside) (r : Request) : World :=
  match w.requests i with
  | .idle => if w.free x then { w with busy := some (.request i) }.requested i r else w.requested i .done
  | _ => w

def notificationsProcess (w : World) (i : Nat) (x : Outside) : World :=
  match w.requests i with
  | .idle => if x.reloading || !x.connected then w.requested i .done else w.asks i x .resetting
  | _ => w

def ensureReceiptRetry (w : World) (i : Nat) : World :=
  match w.requests i with
  | .idle => w.requested i .ensuring
  | _ => w

def run (w : World) (i : Nat) (x : Outside) : World :=
  match w.requests i with
  | .idle => w
  | .done => w
  | .listing =>
    match x.listing with
    | none => w.release.requested i .done
    | some data => { w.release with saved := w.saved.merge (receiptViews data) x.now }.requested i .done
  | .sending s ensures =>
    let sent := sendReceipts w.saved x s
    match sent.2 with
    | some s => { w with saved := sent.1 }.requested i (.sending s ensures)
    | none => { w.release with saved := sent.1 }.requested i (if ensures then .ensuring else .done)
  | .resetting => { w with saved := w.saved.reset }.requested i .starting
  | .starting => if x.spawned then w.requested i (.sending .listing true) else w.release.requested i .done
  | .ensuring =>
    if w.saved.retrying || !w.saved.retryable then w.requested i .done
    else { w with saved := { w.saved with retrying := true } }.requested i .spawning
  | .spawning =>
    if x.spawned then (w.worked i (.sleeping (maxRounds - 1))).requested i .done else w.requested i .unspawned
  | .unspawned => { w with saved := { w.saved with retrying := false } }.requested i .done

def work (w : World) (j : Nat) (x : Outside) : World :=
  match w.workers j with
  | .none => w
  | .sleeping left =>
    let begun := { w with rounds := Function.update w.rounds j (w.rounds j + 1) }
    if !x.reloading && x.connected && w.free x then { begun with busy := some (.worker j) }.worked j (.sending left .listing)
    else begun.worked j (.checking left)
  | .sending left s =>
    let sent := sendReceipts w.saved x s
    match sent.2 with
    | some s => { w with saved := sent.1 }.worked j (.sending left s)
    | none => { w.release with saved := sent.1 }.worked j (.checking left)
  | .checking left =>
    if !w.saved.retryable then w.worked j .stopping
    else
      match left with
      | 0 => w.worked j .stopping
      | left + 1 => w.worked j (.sleeping left)
  | .stopping => { w with saved := { w.saved with retrying := false } }.worked j .done
  | .done => w

def step (w : World) : Event → World
  | .list i x => w.asks i x .listing
  | .send i x => w.asks i x (.sending .listing false)
  | .process i x => w.notificationsProcess i x
  | .ensure i => w.ensureReceiptRetry i
  | .run i x => w.run i x
  | .work j x => w.work j x

end World

end OpenU60.Esim.Receipts
