/-
  OpenU60.Web.Once — single-use form tokens (`zte-agent/src/web/store.rs`: `Once::issue`,
  `SessionStore`, `Claim`, `settle`; `web/job.rs`: `try_run`, `once`; `web/action.rs`: `call`,
  `once`).

  Each access of the table is under its lock and drops what has expired. A post looks the
  token up, claims it, waits for a permit of the gate and works; each is a step, so other
  posts, new tokens and the clock come between any two. A request may be dropped where it
  waits, the work may panic anywhere, and a claim that is dropped before it was disarmed gives
  the token back as a step of its own.

  The work is a dialogue with the device and its claim: `OnceJob` is one that disarms the
  claim before it calls the device or records an outcome.
-/

import Mathlib
import OpenU60.Lib.Dialogue
import OpenU60.Lib.FirstMatch
import OpenU60.Lib.Json

namespace OpenU60.Web

open OpenU60.Lib OpenU60.Lib.FirstMatch
open OpenU60.Lib.Dialogue (Task Keeps Exchange)

/-! ## The table -/

inductive Token where
  | fresh
  /-- Claimed by a post that is sending (or about to). -/
  | sending (digest : UInt64)
  | sent (digest : UInt64)
  | failed (digest : UInt64) (status : Nat) (message : String)
  deriving DecidableEq

/-- An entry is found by its id and the session that made it. -/
structure Key where
  id : String
  owner : Nat
  deriving DecidableEq

structure Entry where
  id : String
  owner : Nat
  since : Nat
  value : Token
  deriving DecidableEq

def Entry.key (e : Entry) : Key := ⟨e.id, e.owner⟩

abbrev Table := List Entry

def cap : Nat := 64

/-- An hour, in milliseconds. -/
def ttl : Nat := 3600000

namespace Table

/-- What has not expired: the start of every access. -/
def prune (t : Table) (now : Nat) : Table := t.filter fun e => now - e.since < ttl

def get (t : Table) (key : Key) : Option Token := (t.find? (·.key == key)).map (·.value)

def update (t : Table) (key : Key) (f : Token → Token) : Table :=
  updateFirst (·.key == key) (fun e => { e with value := f e.value }) t

def isUsed : Token → Bool
  | .sent _ => true
  | .failed _ _ _ => true
  | _ => false

/-- The last of the elements whose key is greatest (`Iterator::max_by_key`). -/
def maxByKey (key : Nat → Nat × Bool) : List Nat → Option Nat
  | [] => none
  | o :: os => some (os.foldl (fun top o =>
      if (key top).1 < (key o).1 || ((key top).1 == (key o).1 && (!(key top).2 || (key o).2)) then o else top) o)

/-- Which entry goes for a new one of `owner`. -/
def evicted (t : Table) (owner : Nat) : Option Nat :=
  let used (mine : Bool) := t.findIdx? fun e => isUsed e.value && ((e.owner == owner) == mine)
  let held (o : Nat) := t.countP fun e => e.owner == o && e.value == .fresh
  let fresh := (maxByKey (fun o => (held o, o == owner)) ((t.filter (·.value == .fresh)).map (·.owner))).bind fun top =>
    t.findIdx? fun e => e.owner == top && e.value == .fresh
  ((used true).or (used false)).or fresh

/-- `Once::issue` -/
def issue (t : Table) (id : String) (owner now : Nat) : Table :=
  let t := t.prune now
  let t := if cap ≤ t.length then (t.evicted owner).elim t t.eraseIdx else t
  t ++ [⟨id, owner, now, .fresh⟩]

end Table

/-! ## The work -/

inductive Ask where
  | read (path : String)
  | disarm
  | call (method path : String) (body : Json)
  /-- `claim.set`, to sent or failed with the claim's digest -/
  | record (outcome : Except (Nat × String) Unit)

@[reducible] def Ask.Answer : Ask → Type
  | .read _ => Except String Json
  | .disarm => Unit
  | .call _ _ _ => Except (Nat × String) Json
  | .record _ => Unit

abbrev Work := Dialogue Ask Ask.Answer Unit

/-- Whether the claim has been disarmed. -/
def note (sent : Bool) : Exchange Ask Ask.Answer → Bool
  | ⟨.disarm, _⟩ => true
  | _ => sent

/-- Calls and records are for a claim that has been disarmed. -/
def Allowed (sent : Bool) : Ask → Prop
  | .call _ _ _ => sent = true
  | .record _ => sent = true
  | _ => True

/-- It gets the claimed token, disarms it before the device call and then records the
    outcome. -/
structure OnceJob where
  work : Work
  disarms : Keeps note Allowed work false fun _ _ => True

/-- A field's name and a value of it. -/
structure Again where
  when : String × String

structure Action where
  method : String
  path : String
  reads : List String
  body : List (String × String) → List Json → Option Json
  again : Option Again

inductive Fail where
  | read (error : String)
  | call (status : Nat) (error : String)

/-- The outcome of a failed write may be unknown. -/
def unsure (status : Nat) (e : String) : Bool := status == 500 || (e.splitOn "timed out").length > 1

def validGet (valid : List (String × String)) (name : String) : String :=
  ((valid.find? (·.1 == name)).map (·.2)).getD ""

abbrev Calling := Task Ask Ask.Answer Fail Bool

def ask (q : Ask) : Calling q.Answer := Task.put q

def readAll : List String → Calling (List Json)
  | [] => pure []
  | r :: rs => do
    let v ← Task.orStop (← ask (.read r)) Fail.read
    let cur ← readAll rs
    pure (v :: cur)

/-- `call`: the reads, then the call; the variable is `claim.sent()`. -/
def call (a : Action) (valid : List (String × String)) : Calling Json := do
  let cur ← readAll a.reads
  match a.body valid cur with
  | none => pure .null
  | some body =>
    ask .disarm
    set true
    let first ← ask (.call a.method a.path body)
    match first with
    | .ok v => pure v
    | .error (status, e) =>
      if a.again.any fun again => validGet valid again.when.1 == again.when.2 then
        Task.orStop (← ask (.call a.method a.path body)) fun (status, e) => Fail.call status e
      else throw (Fail.call status e)

/-- The work of `once` up to its answer. -/
def onceWork (a : Action) (valid : List (String × String)) : Work := do
  let (done, sent) ← (call a valid).run.run false
  if sent then
    Dialogue.put (Ask.record (match done with
      | .error (.call status e) => if unsure status e then .ok () else .error (status, e)
      | _ => .ok ()))
  else pure ()

/-! ## The posts -/

structure Post where
  owner : Nat
  token : String
  contents : List String
  job : OnceJob
  /-- How often a replay looks for the first post's outcome. -/
  polls : Nat

def Post.key (p : Post) : Key := ⟨p.token, p.owner⟩

/-- What a post comes to. -/
inductive Sent where
  | ran
  | expired
  | done (r : Except (Nat × String) Unit)
  | unknown
  | busy

/-- Why a claim goes back. -/
inductive Back where
  | ran
  | busy
  | gone

inductive Phase where
  | idle
  /-- `once.get` -/
  | looking (p : Post)
  /-- `Claim::take`; `settled`, after `settle` has found the token fresh. -/
  | taking (p : Post) (settled : Bool)
  | settling (p : Post) (polls : Nat)
  | sleeping (p : Post) (polls : Nat)
  /-- It waits for a permit, with the claim. -/
  | waiting (p : Post)
  | working (p : Post) (rest : Work) (sent : Bool)
  /-- The claim is dropped. -/
  | givingBack (p : Post) (b : Back)
  | done (p : Post) (r : Sent)
  | gone (p : Post)

def Back.answer (p : Post) : Back → Phase
  | .ran => .done p .ran
  | .busy => .done p .busy
  | .gone => .gone p

structure Outcome where
  permit : Bool := true
  read : Except String Json := .ok .null
  call : Except (Nat × String) Json := .ok .null

def Outcome.answer (x : Outcome) : (q : Ask) → q.Answer
  | .read _ => x.read
  | .disarm => ()
  | .call _ _ _ => x.call
  | .record _ => ()

structure World where
  items : Table := []
  now : Nat := 0
  posts : Nat → Phase := fun _ => .idle
  /-- Each token that has been issued, with its session. -/
  issued : List Key := []
  /-- The posts whose work has disarmed its claim, called the device, recorded an outcome. -/
  disarmed : List Nat := []
  called : List Nat := []
  recorded : List (Nat × Except (Nat × String) Unit) := []

inductive Event where
  | issue (id : String) (owner : Nat)
  | tick (n : Nat)
  | post (i : Nat) (p : Post)
  | run (i : Nat) (x : Outcome)
  /-- The request is dropped where it waits. -/
  | drop (i : Nat)
  | panic (i : Nat)

namespace World

variable (digest : List String → UInt64)

def moved (w : World) (i : Nat) (p : Phase) : World := { w with posts := Function.update w.posts i p }

/-- The table as an access finds it. -/
def lock (w : World) : World := { w with items := w.items.prune w.now }

/-- The work is over: its claim is dropped. -/
def dropClaim (w : World) (i : Nat) (p : Post) (sent : Bool) : World :=
  w.moved i (if sent then .done p .ran else .givingBack p .ran)

/-- One exchange of the work. -/
def exchange (w : World) (i : Nat) (p : Post) : Ask → World
  | .read _ => w
  | .disarm => { w with disarmed := i :: w.disarmed }
  | .call _ _ _ => { w with called := i :: w.called }
  | .record r =>
    let value : Token := match r with
      | .ok () => .sent (digest p.contents)
      | .error (status, message) => .failed (digest p.contents) status message
    { w.lock with items := w.lock.items.update p.key fun _ => value, recorded := (i, r) :: w.recorded }

def run (w : World) (i : Nat) (x : Outcome) : World :=
  match w.posts i with
  | .idle => w
  | .done _ _ => w
  | .gone _ => w
  | .looking p =>
    match w.lock.items.get p.key with
    | none => w.lock.moved i (.done p .expired)
    | some .fresh => w.lock.moved i (.taking p false)
    | some _ => w.lock.moved i (.settling p p.polls)
  | .taking p settled =>
    match w.lock.items.get p.key with
    | some .fresh =>
      { w.lock with items := w.lock.items.update p.key fun _ => .sending (digest p.contents) }.moved i (.waiting p)
    | _ => w.lock.moved i (if settled then .done p .unknown else .settling p p.polls)
  | .settling p 0 => w.moved i (.done p .unknown)
  | .settling p (polls + 1) =>
    match w.lock.items.get p.key with
    | none => w.lock.moved i (.done p .unknown)
    | some .fresh => w.lock.moved i (.taking p true)
    | some (.sending d) => w.lock.moved i (if d ≠ digest p.contents then .done p .expired else .sleeping p polls)
    | some (.sent d) => w.lock.moved i (.done p (if d ≠ digest p.contents then .expired else .done (.ok ())))
    | some (.failed d status message) =>
      w.lock.moved i (.done p (if d ≠ digest p.contents then .expired else .done (.error (status, message))))
  | .sleeping p polls => w.moved i (.settling p polls)
  | .waiting p => w.moved i (if x.permit then .working p p.job.work false else .givingBack p .busy)
  | .working p (.done _) sent => w.dropClaim i p sent
  | .working p (.ask q k) sent =>
    (w.exchange digest i p q).moved i (.working p (k (x.answer q)) (note sent ⟨q, x.answer q⟩))
  | .givingBack p b => { w.lock with items := w.lock.items.update p.key fun _ => .fresh }.moved i (b.answer p)

def step (w : World) : Event → World
  | .issue id owner => { w with items := w.items.issue id owner w.now, issued := ⟨id, owner⟩ :: w.issued }
  | .tick n => { w with now := w.now + n }
  | .post i p =>
    match w.posts i with
    | .idle => w.moved i (.looking p)
    | _ => w
  | .run i x => w.run digest i x
  | .drop i =>
    match w.posts i with
    | .sleeping p _ => w.moved i (.gone p)
    | .waiting p => w.moved i (.givingBack p .gone)
    | _ => w
  | .panic i =>
    match w.posts i with
    | .working p _ sent => w.dropClaim i p sent
    | _ => w

end World

end OpenU60.Web
