/-
  OpenU60.Doh.Proxy — the listener and the query workers of the DNS proxy, and the network changes
  that fall between their steps (`zte-agent/src/doh/mod.rs`: `listener_loop`, `process_query`,
  `network_changed`, `clear_cache`, `update_config`).

  A worker takes its statements one at a time, in any order among the workers, the listener and the
  calls of `network_changed`: each lock is held within one statement. What an upstream answers, and
  when, is in the event. `changes`, and the `epoch` of an answer, count the network changes begun.
-/

import Mathlib
import OpenU60.Doh.Cache
import OpenU60.Lib.Counter
import OpenU60.Lib.Machine

namespace OpenU60.Doh

def queryQueueCapacity : Nat := 256

structure QueryJob where
  query : Bytes
  qname : Bytes
  qtype : Nat
  clientId : Nat
  source : Nat
  deriving DecidableEq

/-- An upstream's answer, with the query it answers and the network changes begun when it came. -/
structure Fetched where
  query : Bytes
  response : Bytes
  epoch : Nat
  deriving DecidableEq

/-- The next statement of a worker. From the generation on it carries how many changes there were. -/
inductive Worker where
  | idle
  | looking (job : QueryJob)
  | missed (job : QueryJob)
  | begun (job : QueryJob) (generation : UInt64) (seen : Nat)
  | asking (job : QueryJob) (generation : UInt64) (seen : Nat) (cacheEnabled : Bool)
  | checking (job : QueryJob) (generation : UInt64) (seen : Nat) (cacheEnabled : Bool) (answer : Fetched)
  | storing (job : QueryJob) (cacheEnabled : Bool) (answer : Fetched)
  deriving DecidableEq

/-- What a client was sent. -/
inductive Sent where
  | cached (query reply : Bytes) (origin : Fetched) (source : Nat)
  | fetched (answer : Fetched) (source : Nat)
  | servfail (query : Bytes) (source : Nat)

/-- Where a call of `network_changed` is. -/
inductive Change where
  /-- The generation is raised. -/
  | bumped
  | cleared
  | returned
  deriving DecidableEq

structure Proxy where
  cache : DnsCache Fetched
  networkGeneration : UInt64 := 0
  cacheEnabled : Bool
  queue : List QueryJob := []
  workers : Nat → Worker := fun _ => .idle
  /-- The calls of `network_changed`, in the order they began. -/
  calls : List Change := []
  answers : List Fetched := []
  sent : List Sent := []

inductive Event where
  /-- A datagram for the listener. -/
  | receive (packet : Bytes) (source now : Nat)
  | take (w : Nat)
  | look (w now : Nat)
  | begin (w : Nat)
  | configure (w : Nat)
  | answer (w : Nat) (result : Option Bytes)
  | check (w : Nat)
  | store (w now : Nat)
  | setConfig (cacheEnabled : Bool) (now : Nat)
  | clearCache
  /-- `network_changed` is called; its later statements name the call. -/
  | bump
  | clear (call : Nat)
  | ret (call : Nat)
  deriving DecidableEq

namespace Proxy

/-- Network changes begun. -/
def changes (p : Proxy) : Nat := p.calls.length

def setWorker (p : Proxy) (w : Nat) (worker : Worker) : Proxy := { p with workers := Function.update p.workers w worker }

def send (p : Proxy) (s : Sent) : Proxy := { p with sent := p.sent ++ [s] }

section

variable (p : Proxy) (w : Nat) (worker : Worker) (s : Sent)

@[simp] theorem setWorker_cache : (p.setWorker w worker).cache = p.cache := rfl
@[simp] theorem setWorker_networkGeneration : (p.setWorker w worker).networkGeneration = p.networkGeneration := rfl
@[simp] theorem setWorker_cacheEnabled : (p.setWorker w worker).cacheEnabled = p.cacheEnabled := rfl
@[simp] theorem setWorker_queue : (p.setWorker w worker).queue = p.queue := rfl
@[simp] theorem setWorker_calls : (p.setWorker w worker).calls = p.calls := rfl
@[simp] theorem setWorker_answers : (p.setWorker w worker).answers = p.answers := rfl
@[simp] theorem setWorker_sent : (p.setWorker w worker).sent = p.sent := rfl
@[simp] theorem setWorker_self : (p.setWorker w worker).workers w = worker := Function.update_self ..

theorem setWorker_of_ne {v : Nat} (h : v ≠ w) : (p.setWorker w worker).workers v = p.workers v := Function.update_of_ne h ..

@[simp] theorem send_cache : (p.send s).cache = p.cache := rfl
@[simp] theorem send_networkGeneration : (p.send s).networkGeneration = p.networkGeneration := rfl
@[simp] theorem send_queue : (p.send s).queue = p.queue := rfl
@[simp] theorem send_workers : (p.send s).workers = p.workers := rfl
@[simp] theorem send_calls : (p.send s).calls = p.calls := rfl
@[simp] theorem send_answers : (p.send s).answers = p.answers := rfl
@[simp] theorem send_sent : (p.send s).sent = p.sent ++ [s] := rfl

end

/-- The datagram as the listener's buffer holds it. -/
def received (packet : Bytes) : Bytes := packet.take 512

/-- A query the listener takes, and what is read of it. -/
def accepted (packet : Bytes) : Option (Bytes × Nat × Nat) :=
  if isValidQuery (received packet) then parseQuestion (received packet) else none

def receive (p : Proxy) (packet : Bytes) (source now : Nat) : Proxy :=
  match accepted packet with
  | none => p
  | some (qname, qtype, _) =>
    let query := received packet
    let clientId := numberAt 2 query 0
    match p.cache.get qname qtype clientId now with
    | some (reply, origin) => p.send (.cached query reply origin source)
    | none =>
      if p.queue.length < queryQueueCapacity then { p with queue := p.queue ++ [⟨query, qname, qtype, clientId, source⟩] }
      else p.send (.servfail query source)

/-! ### `process_query`, a statement at a time -/

/-- The next job for a worker that has none. -/
def take (p : Proxy) (w : Nat) : Proxy :=
  match p.workers w, p.queue with
  | .idle, job :: queue => { p with queue }.setWorker w (.looking job)
  | _, _ => p

def look (p : Proxy) (w now : Nat) : Proxy :=
  match p.workers w with
  | .looking job =>
    match p.cache.get job.qname job.qtype job.clientId now with
    | some (reply, origin) => (p.send (.cached job.query reply origin job.source)).setWorker w .idle
    | none => p.setWorker w (.missed job)
  | _ => p

def begin (p : Proxy) (w : Nat) : Proxy :=
  match p.workers w with
  | .missed job => p.setWorker w (.begun job p.networkGeneration p.changes)
  | _ => p

def configure (p : Proxy) (w : Nat) : Proxy :=
  match p.workers w with
  | .begun job generation seen => p.setWorker w (.asking job generation seen p.cacheEnabled)
  | _ => p

def answer (p : Proxy) (w : Nat) (result : Option Bytes) : Proxy :=
  match p.workers w with
  | .asking job generation seen cacheEnabled =>
    match result with
    | some response =>
      let answer : Fetched := ⟨job.query, response, p.changes⟩
      { p with answers := p.answers ++ [answer] }.setWorker w (.checking job generation seen cacheEnabled answer)
    | none => (p.send (.servfail job.query job.source)).setWorker w .idle
  | _ => p

def check (p : Proxy) (w : Nat) : Proxy :=
  match p.workers w with
  | .checking job generation _ cacheEnabled answer =>
    if p.networkGeneration = generation then p.setWorker w (.storing job cacheEnabled answer)
    else (p.send (.servfail job.query job.source)).setWorker w .idle
  | _ => p

def store (p : Proxy) (w now : Nat) : Proxy :=
  match p.workers w with
  | .storing job cacheEnabled answer =>
    let cache := p.cache.insert job.qname job.qtype answer.response (extractMinTtl answer.response) now answer
    ({ p with cache := if cacheEnabled then cache else p.cache }.send (.fetched answer job.source)).setWorker w .idle
  | _ => p

/-! ### All together -/

def step (p : Proxy) : Event → Proxy
  | .receive packet source now => p.receive packet source now
  | .take w => p.take w
  | .look w now => p.look w now
  | .begin w => p.begin w
  | .configure w => p.configure w
  | .answer w result => p.answer w result
  | .check w => p.check w
  | .store w now => p.store w now
  | .setConfig cacheEnabled now => { p with cacheEnabled, cache := p.cache.prune now }
  | .clearCache => { p with cache := p.cache.clear }
  | .bump => { p with networkGeneration := p.networkGeneration + 1, calls := p.calls ++ [.bumped] }
  | .clear call => if p.calls[call]? = some .bumped then { p with cache := p.cache.clear, calls := p.calls.set call .cleared } else p
  | .ret call => if p.calls[call]? = some .cleared then { p with calls := p.calls.set call .returned } else p

def new (maxEntries : Nat) (cacheEnabled : Bool) : Proxy := { cache := { maxEntries }, cacheEnabled }

end Proxy

end OpenU60.Doh
