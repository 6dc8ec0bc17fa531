/-
  OpenU60.SmsForward.Retry — retrying a failed forward by hand (`zte-agent/src/sms_forward.rs`:
  `retry_target` to `update_retried`, `retry_forward`; `web/forward.rs`: `Fingerprint::find`;
  `web/pages/forward.rs`: `run_retry`).

  A retry reads the log, finds the index, asks the agent, which takes the entry under the log's lock,
  looks its rule up under the configuration's, forwards, and writes the outcome back. Each of
  these is a step, so the forwarder's pushes and settled entries, a cleared log, edited rules
  and other retries come between any two. A retry that the app or the dashboard asks for
  starts with the request.

  Here an entry's ghost `maker` is the number of the push that filed it, which tells entries
  with one key apart. What the page says of a retry is left out.
-/

import OpenU60.SmsForward.Log

namespace OpenU60.SmsForward

open OpenU60.Lib.FirstMatch

/-! ## The button's entry -/

structure Fingerprint where
  index : Nat
  smsId : Nat
  ruleId : Nat
  timestamp : Int
  deriving DecidableEq

def Fingerprint.same (fp : Fingerprint) (e : ForwardLogEntry) : Bool :=
  e.smsId == fp.smsId && e.ruleId.toNat == fp.ruleId && e.timestamp == fp.timestamp

/-- The index now, in a log read newest first: the one drawn, else where it moved. -/
def Fingerprint.find (fp : Fingerprint) (log : List ForwardLogEntry) : Option Nat :=
  ((log[fp.index]?.filter fp.same).map fun _ => fp.index).or (log.findIdx? fp.same)

/-! ## The agent's retry -/

structure RetryIdentity where
  smsId : Nat
  ruleId : UInt32
  timestamp : Int
  deriving DecidableEq

structure RetryRequest where
  index : Nat
  expected : Option RetryIdentity := none
  expectedRuleRevision : Option UInt64 := none
  deriving DecidableEq

/-- A status and a text. -/
abbrev Refusal := Nat × String

def retryTarget (log : List ForwardLogEntry) (index : Nat) : Except Refusal ForwardLogEntry :=
  match (if 1 + index ≤ log.length then log[log.length - (1 + index)]? else none) with
  | none => .error (404, "log entry not found")
  | some entry =>
    if entry.success then .error (400, "entry already succeeded")
    else if entry.pending then .error (409, "held; will retry automatically")
    else .ok entry

def ForwardLogEntry.identity (e : ForwardLogEntry) : RetryIdentity := ⟨e.smsId, e.ruleId, e.timestamp⟩

def checkedRetryTarget (log : List ForwardLogEntry) (index : Nat) (expected : Option RetryIdentity) :
    Except Refusal ForwardLogEntry :=
  match retryTarget log index with
  | .error refusal => .error refusal
  | .ok entry =>
    if expected.any (· ≠ entry.identity) then
      .error (409, "The forwarding log changed. Review the current entry before retrying.")
    else .ok entry

/-- The rule of an entry, unless the rules are not the ones expected. -/
def retryRule (rules : List ForwardRule) (revision : UInt64) (expected : Option UInt64) (entry : ForwardLogEntry) :
    Except Refusal ForwardRule :=
  if expected.any (· ≠ revision) then
    .error (409, "Forwarding rules changed. Review the destination before retrying.")
  else
    match rules.find? (·.id == entry.ruleId) with
    | some rule => .ok rule
    | none => .error (404, "rule no longer exists")

/-- The message, from the log's data. -/
def ForwardLogEntry.sms (e : ForwardLogEntry) : DecodedSms := ⟨e.smsId, e.sender, e.content, e.date⟩

/-- The test `update_retried` finds its entry by. -/
def retriedAs (target e : ForwardLogEntry) : Bool :=
  !e.pending && !e.success && e.smsId == target.smsId && e.ruleId == target.ruleId && e.timestamp == target.timestamp

def writeRetried (result : Except String Unit) (now : Int) (e : ForwardLogEntry) : ForwardLogEntry :=
  match result with
  | .ok () => { e with success := true, error := none, timestamp := now }
  | .error err => { e with error := some err, timestamp := now }

def updateRetried (log : List ForwardLogEntry) (target : ForwardLogEntry) (result : Except String Unit) (now : Int) :
    List ForwardLogEntry := updateFirst (retriedAs target) (writeRetried result now) log

def retryAnswer : Except String Unit → Except Refusal Unit
  | .ok () => .ok ()
  | .error e => .error (502, e)

/-! ## The machine -/

namespace Retry

/-- What a retry has taken. -/
structure Taken where
  /-- The button's fingerprint, if the retry is a page's. -/
  page : Option Fingerprint
  entry : ForwardLogEntry
  /-- Ghost: the log then, and the pushes whose entries a retry had sent then. -/
  log : List ForwardLogEntry
  delivered : List Nat

inductive Call where
  | read (fp : Fingerprint) (log : List ForwardLogEntry)
  /-- About to ask, a page with its fingerprint and the log it read. -/
  | asks (page : Option (Fingerprint × List ForwardLogEntry)) (request : RetryRequest)
  | took (t : Taken) (expectedRuleRevision : Option UInt64)
  /-- With the rules it was found in (ghost). -/
  | looked (t : Taken) (rule : ForwardRule) (rules : List ForwardRule)
  | sent (t : Taken) (result : Except String Unit)
  /-- The page found its entry gone. -/
  | gone
  | answered (answer : Except Refusal Unit)

inductive Event where
  /-- `process_new_messages` logs a forward. -/
  | push (entry : ForwardLogEntry)
  /-- `flush_pending` settles a held one. -/
  | settle (smsId : Nat) (ruleId : UInt32) (error : Option String) (pending : Bool) (now : Int)
  | clear
  | edit (rules : List ForwardRule)
  | read (fp : Fingerprint)
  | ask (request : RetryRequest)
  | find (i : Nat)
  | take (i : Nat)
  | look (i : Nat)
  | send (i : Nat) (result : Except String Unit)
  | write (i : Nat) (now : Int)

structure World where
  log : List ForwardLogEntry
  rules : List ForwardRule
  revision : UInt64
  calls : List Call
  /-- What the retries have forwarded, and where to. -/
  forwarded : List (ForwardDestination × DecodedSms)
  /-- Ghost: the pushes so far, and those whose entries a retry has sent. -/
  filed : Nat
  delivered : List Nat

namespace World

def start (rules : List ForwardRule) : World := ⟨[], rules, 0, [], [], 0, []⟩

def moves (w : World) (i : Nat) (c : Call) : World := { w with calls := w.calls.set i c }

def findStep (w : World) (i : Nat) : Call → World
  | .read fp log =>
    match fp.find log with
    | none => w.moves i .gone
    | some index => w.moves i (.asks (some (fp, log)) { index })
  | _ => w

def takeStep (w : World) (i : Nat) : Call → World
  | .asks page request =>
    match checkedRetryTarget w.log request.index request.expected with
    | .error refusal => w.moves i (.answered (.error refusal))
    | .ok entry => w.moves i (.took ⟨page.map (·.1), entry, w.log, w.delivered⟩ request.expectedRuleRevision)
  | _ => w

def lookStep (w : World) (i : Nat) : Call → World
  | .took t expected =>
    match retryRule w.rules w.revision expected t.entry with
    | .error refusal => w.moves i (.answered (.error refusal))
    | .ok rule => w.moves i (.looked t rule w.rules)
  | _ => w

def sendStep (w : World) (i : Nat) (result : Except String Unit) : Call → World
  | .looked t rule _ =>
    { w.moves i (.sent t result) with
      forwarded := w.forwarded ++ [(rule.destination, t.entry.sms)]
      delivered := match result with
        | .ok () => t.entry.maker :: w.delivered
        | .error _ => w.delivered }
  | _ => w

def writeStep (w : World) (i : Nat) (now : Int) : Call → World
  | .sent t result =>
    { w.moves i (.answered (retryAnswer result)) with log := updateRetried w.log t.entry result now }
  | _ => w

def step (w : World) : Event → World
  | .push entry => { w with log := pushLog w.log { entry with maker := w.filed }, filed := w.filed + 1 }
  | .settle smsId ruleId error pending now => { w with log := (settlePending w.log smsId ruleId error pending now).1 }
  | .clear => { w with log := clearLog w.log }
  | .edit rules => { w with rules, revision := w.revision + 1 }
  | .read fp => { w with calls := w.calls ++ [.read fp w.log.reverse] }
  | .ask request => { w with calls := w.calls ++ [.asks none request] }
  | .find i => (w.calls[i]?).elim w (w.findStep i)
  | .take i => (w.calls[i]?).elim w (w.takeStep i)
  | .look i => (w.calls[i]?).elim w (w.lookStep i)
  | .send i result => (w.calls[i]?).elim w (w.sendStep i result)
  | .write i now => (w.calls[i]?).elim w (w.writeStep i now)

end World

end Retry

/-! ## Finding and taking -/

theorem Fingerprint.same_iff {fp : Fingerprint} {e : ForwardLogEntry} :
    fp.same e = true ↔ e.smsId = fp.smsId ∧ e.ruleId.toNat = fp.ruleId ∧ e.timestamp = fp.timestamp := by
  simp [same, and_assoc]

theorem Fingerprint.find_same {fp : Fingerprint} {log : List ForwardLogEntry} {index : Nat} (h : fp.find log = some index) :
    ∃ e, log[index]? = some e ∧ fp.same e = true := by
  unfold find at h
  rw [Option.or_eq_some_iff] at h
  obtain h | ⟨-, h⟩ := h
  · obtain ⟨e, he, rfl⟩ := Option.map_eq_some_iff.mp h
    exact ⟨e, (Option.filter_eq_some_iff.mp he)⟩
  · obtain ⟨hlt, hsame, -⟩ := List.findIdx?_eq_some_iff_getElem.mp h
    exact ⟨log[index], List.getElem?_eq_getElem hlt, hsame⟩

theorem retryTarget_ok {log : List ForwardLogEntry} {index : Nat} {e : ForwardLogEntry} (h : retryTarget log index = .ok e) :
    e ∈ log ∧ e.success = false ∧ e.pending = false := by
  unfold retryTarget at h
  split at h
  · cases h
  · rename_i entry hentry
    split at h
    · cases h
    · rename_i hsuccess
      split at h
      · cases h
      · rename_i hpending
        cases h
        split at hentry
        · exact ⟨List.mem_of_getElem? hentry, Bool.eq_false_iff.mpr hsuccess, Bool.eq_false_iff.mpr hpending⟩
        · cases hentry

theorem checkedRetryTarget_ok {log : List ForwardLogEntry} {index : Nat} {expected : Option RetryIdentity} {e : ForwardLogEntry}
    (h : checkedRetryTarget log index expected = .ok e) :
    retryTarget log index = .ok e ∧ ∀ id ∈ expected, id = e.identity := by
  unfold checkedRetryTarget at h
  split at h
  · cases h
  · rename_i entry htarget
    split at h
    · cases h
    · rename_i hno
      cases h
      refine ⟨htarget, fun id hid => ?_⟩
      rw [hid] at hno
      simpa using hno

theorem retryRule_ok {rules : List ForwardRule} {revision : UInt64} {expected : Option UInt64} {e : ForwardLogEntry} {r : ForwardRule}
    (h : retryRule rules revision expected e = .ok r) : r ∈ rules ∧ r.id = e.ruleId := by
  unfold retryRule at h
  split at h
  · cases h
  · split at h
    · rename_i rule hfind
      cases h
      exact ⟨List.mem_of_find?_eq_some hfind, by simpa using List.find?_some hfind⟩
    · cases h

theorem retriedAs_iff {target e : ForwardLogEntry} : retriedAs target e = true ↔ e.pending = false ∧ e.success = false ∧
    e.smsId = target.smsId ∧ e.ruleId = target.ruleId ∧ e.timestamp = target.timestamp := by
  simp [retriedAs, and_assoc]

section

variable (result : Except String Unit) (now : Int) (e : ForwardLogEntry)

@[simp] theorem writeRetried_smsId : (writeRetried result now e).smsId = e.smsId := by cases result <;> rfl
@[simp] theorem writeRetried_ruleId : (writeRetried result now e).ruleId = e.ruleId := by cases result <;> rfl
@[simp] theorem writeRetried_pending : (writeRetried result now e).pending = e.pending := by cases result <;> rfl
@[simp] theorem writeRetried_maker : (writeRetried result now e).maker = e.maker := by cases result <;> rfl

end

end OpenU60.SmsForward
