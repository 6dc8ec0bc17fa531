/-
  OpenU60.SmsForward.Pass — the forwarder as one machine: the sms-events thread, which
  runs `process_new_messages` and `flush_pending` one at a time, and the HTTP handlers
  that run between its steps.

  A pass works on what it cloned when it began (the config; for a flush also the held
  entries) and takes the shared lock once per step: a rule's push, a held entry's update,
  the watermark at the end. Those are the machine's steps (`advance`); everything a step
  cannot know (links, the outcome of every attempt, clocks) is in the event. A run begins
  where `event_loop` has set its first watermark.

  `effects` is the history of what left the process: messages put to the rules, sends,
  forwards settled as failed, post-forward actions, and for each read of the device the
  ids of the received messages that were newer than the watermark then.

  `Move` says once what a step can do, guards included (`step_move`); every invariant of
  the machine is proved from it.
-/

import OpenU60.Lib.Machine
import OpenU60.SmsForward.Fetch
import OpenU60.SmsForward.Rules

namespace OpenU60.SmsForward

open OpenU60.Lib

/-! ## State -/

inductive Effect where
  /-- The device was read: the received messages newer than the watermark in its stores. -/
  | listed (ids : List Nat)
  | evaluate (sms : DecodedSms)
  | send (smsId maker : Nat) (rule : ForwardRule) (ok : Bool)
  | fail (smsId maker : Nat)
  | markRead (smsId : Nat)
  | delete (smsId : Nat)
  deriving DecidableEq

/-- What the environment decides in one step of a pass. -/
structure Attempt where
  before : Links
  tries : Nat → Except String Unit
  after : Links
  start : Clock
  finish : Clock
  saved : Bool

structure Current where
  sms : DecodedSms
  rest : List ForwardRule
  allSucceeded : Bool
  deriving DecidableEq

structure Processing where
  config : SmsForwardConfig
  afterId : Nat
  maxProcessedId : Nat
  current : Option Current
  messages : List DecodedSms
  deriving DecidableEq

inductive Pass where
  | idle
  /-- Forwarding was found on; the device is read next. -/
  | fetching
  | processing (p : Processing)
  | flushing (config : SmsForwardConfig) (held : List ForwardLogEntry)
  deriving DecidableEq

structure World where
  fwd : SmsForwarder
  pass : Pass
  effects : List Effect
  /-- Ghost: the serial of the next rule to be created. -/
  nextSerial : Nat
  deriving DecidableEq

def World.watermark (w : World) : Nat := w.fwd.state.lastForwardedId
def World.fileWatermark (w : World) : Nat := w.fwd.stateFile.lastForwardedId
def World.log (w : World) : List ForwardLogEntry := w.fwd.state.log
def World.config (w : World) : SmsForwardConfig := w.fwd.config

def World.enter (w : World) (pass : Pass) : World := { w with pass := pass }

/-- Write the watermark and save. -/
def World.moveWatermark (saved : Bool) (id : Nat) (w : World) : World :=
  { w with fwd := saveState saved { w.fwd with state := { w.fwd.state with lastForwardedId := id } } }

def World.setLog (w : World) (log : List ForwardLogEntry) : World :=
  { w with fwd := { w.fwd with state := { w.fwd.state with log := log } } }

def World.saveLog (saved : Bool) (w : World) : World := { w with fwd := saveState saved w.fwd }

def World.emit (w : World) (es : List Effect) : World := { w with effects := w.effects ++ es }

section Fields

variable (w : World) (pass : Pass) (es : List Effect) (log : List ForwardLogEntry) (saved : Bool) (id : Nat)

@[simp] theorem enter_pass : (w.enter pass).pass = pass := rfl
@[simp] theorem enter_effects : (w.enter pass).effects = w.effects := rfl
@[simp] theorem enter_log : (w.enter pass).log = w.log := rfl
@[simp] theorem enter_config : (w.enter pass).config = w.config := rfl
@[simp] theorem enter_watermark : (w.enter pass).watermark = w.watermark := rfl
@[simp] theorem enter_fileWatermark : (w.enter pass).fileWatermark = w.fileWatermark := rfl

@[simp] theorem emit_pass : (w.emit es).pass = w.pass := rfl
@[simp] theorem emit_effects : (w.emit es).effects = w.effects ++ es := rfl
@[simp] theorem emit_log : (w.emit es).log = w.log := rfl
@[simp] theorem emit_config : (w.emit es).config = w.config := rfl
@[simp] theorem emit_watermark : (w.emit es).watermark = w.watermark := rfl
@[simp] theorem emit_fileWatermark : (w.emit es).fileWatermark = w.fileWatermark := rfl

@[simp] theorem setLog_pass : (w.setLog log).pass = w.pass := rfl
@[simp] theorem setLog_effects : (w.setLog log).effects = w.effects := rfl
@[simp] theorem setLog_log : (w.setLog log).log = log := rfl
@[simp] theorem setLog_config : (w.setLog log).config = w.config := rfl
@[simp] theorem setLog_watermark : (w.setLog log).watermark = w.watermark := rfl
@[simp] theorem setLog_fileWatermark : (w.setLog log).fileWatermark = w.fileWatermark := rfl

@[simp] theorem saveLog_pass : (w.saveLog saved).pass = w.pass := rfl
@[simp] theorem saveLog_effects : (w.saveLog saved).effects = w.effects := rfl
@[simp] theorem saveLog_log : (w.saveLog saved).log = w.log := by cases saved <;> rfl
@[simp] theorem saveLog_config : (w.saveLog saved).config = w.config := by cases saved <;> rfl
@[simp] theorem saveLog_watermark : (w.saveLog saved).watermark = w.watermark := by cases saved <;> rfl
@[simp] theorem saveLog_fileWatermark :
    (w.saveLog saved).fileWatermark = if saved then w.watermark else w.fileWatermark := by cases saved <;> rfl

@[simp] theorem moveWatermark_pass : (w.moveWatermark saved id).pass = w.pass := rfl
@[simp] theorem moveWatermark_effects : (w.moveWatermark saved id).effects = w.effects := rfl
@[simp] theorem moveWatermark_log : (w.moveWatermark saved id).log = w.log := by cases saved <;> rfl
@[simp] theorem moveWatermark_config : (w.moveWatermark saved id).config = w.config := by cases saved <;> rfl
@[simp] theorem moveWatermark_watermark : (w.moveWatermark saved id).watermark = id := by cases saved <;> rfl
@[simp] theorem moveWatermark_fileWatermark :
    (w.moveWatermark saved id).fileWatermark = if saved then id else w.fileWatermark := by cases saved <;> rfl

end Fields

def enabledRules (config : SmsForwardConfig) : List ForwardRule := config.rules.filter (·.enabled)

def forwardingOff (config : SmsForwardConfig) : Bool := !config.enabled || config.rules.all (!·.enabled)

variable (P : Params)

/-! ## Beginning a pass -/

def newerIds (after : Nat) (r : Reads) : List Nat :=
  ((r.nv ++ r.sim).filter fun m => received m && decide (after < messageId m)).map messageId

def initWatermark (saved : Bool) (r : Reads) (w : World) : World :=
  if w.watermark = 0 then
    let w := w.emit [.listed (newerIds 0 r)]
    let maxId := fetchMaxSmsId P r
    if 0 < maxId then w.moveWatermark saved maxId else w
  else w

/-- `poll_once` up to `process_new_messages`. -/
def pollOnce (saved : Bool) (r : Reads) (capacity : Except String Nat) (w : World) : World :=
  if forwardingOff w.config then w
  else
    let w := initWatermark P saved r w
    match capacity with
    | .ok cap => if 0 < cap then w.enter .fetching else w
    | .error _ => w

/-- A new-SMS event, up to `process_new_messages`. -/
def smsReceived (w : World) : World := if forwardingOff w.config then w else w.enter .fetching

/-- `process_new_messages` up to its loop. -/
def processNewMessages (r : Reads) (w : World) : World :=
  let afterId := w.watermark
  let w := w.emit [.listed (newerIds afterId r)]
  let messages := fetchNewMessages P afterId r
  let config := w.config
  if messages.isEmpty || (enabledRules config).isEmpty then w.enter .idle
  else w.enter (.processing ⟨config, afterId, afterId, none, messages⟩)

/-- `flush_pending` up to its loop. -/
def flushPending (w : World) : World :=
  let held := w.log.filter (·.pending)
  if held.isEmpty then w else w.enter (.flushing w.config held)

/-! ## One step of a pass -/

def logEntry (sms : DecodedSms) (rule : ForwardRule) (c : Clock) (success : Bool) (error : Option String)
    (pending : Bool) : ForwardLogEntry where
  timestamp := c.wall
  smsId := sms.id
  sender := sms.sender
  contentPreview := preview sms.content 80
  ruleName := rule.name
  destinationType := destinationTypeName rule.destination
  success := success
  error := error
  ruleId := rule.id
  content := sms.content
  date := sms.date
  pending := pending
  heldAt := if pending then some c.mono else none
  maker := rule.serial

structure Forwarded where
  entry : ForwardLogEntry
  effects : List Effect

/-- The body of the rule loop: nothing for a rule that does not apply, else the entry to
    push. -/
def forwardRule (sms : DecodedSms) (rule : ForwardRule) (a : Attempt) : Option Forwarded :=
  if !applies P rule sms then none
  else
    match blocker a.before rule.destination with
    | some reason => some ⟨logEntry sms rule a.start false (some reason) true, []⟩
    | none =>
      match forwardWithRetry a.tries with
      | .ok () => some ⟨logEntry sms rule a.finish true none false, [.send sms.id rule.serial rule true]⟩
      | .error e =>
        if holdAfterFailure (.error e) (blocker a.after rule.destination).isSome then
          some ⟨logEntry sms rule a.finish false (some (heldError e)) true, [.send sms.id rule.serial rule false]⟩
        else
          some ⟨logEntry sms rule a.finish false (some e) false,
            [.send sms.id rule.serial rule false, .fail sms.id rule.serial]⟩

def postForward (config : SmsForwardConfig) (smsId : Nat) : List Effect :=
  (if config.markReadAfterForward then [.markRead smsId] else []) ++
    (if config.deleteAfterForward then [.delete smsId] else [])

def advanceProcessing (a : Attempt) (w : World) (p : Processing) : World :=
  match p.current with
  | some c =>
    match c.rest with
    | rule :: rest =>
      match forwardRule P c.sms rule a with
      | none => w.enter (.processing { p with current := some { c with rest := rest } })
      | some f =>
        let c := { c with rest := rest, allSucceeded := c.allSucceeded && f.entry.success }
        ((w.setLog (pushLog w.log f.entry)).emit f.effects).enter (.processing { p with current := some c })
    | [] =>
      let p := { p with maxProcessedId := max p.maxProcessedId c.sms.id, current := none }
      (w.emit (if c.allSucceeded then postForward p.config c.sms.id else [])).enter (.processing p)
  | none =>
    match p.messages with
    | sms :: messages =>
      let p := { p with messages := messages }
      if sms.id ≤ p.afterId then w.enter (.processing p)
      else
        (w.emit [.evaluate sms]).enter (.processing { p with current := some ⟨sms, enabledRules p.config, true⟩ })
    | [] => (w.moveWatermark a.saved p.maxProcessedId).enter .idle

/-- What `flush_pending` writes back for a held entry (nothing while it waits): the
    error, and whether it stays held. -/
structure Outcome where
  error : Option String
  pending : Bool
  effects : List Effect

def flushOutcome (config : SmsForwardConfig) (entry : ForwardLogEntry) (a : Attempt) : Option Outcome :=
  match flushAction entry config a.before a.start with
  | .wait _ => none
  | .settle reason => some ⟨some reason, false, [.fail entry.smsId entry.maker]⟩
  | .send rule =>
    match forwardWithRetry a.tries with
    | .ok () => some ⟨none, false, [.send entry.smsId entry.maker rule true]⟩
    | .error e =>
      if holdAfterFailure (.error e) (blocker a.after rule.destination).isSome then
        some ⟨some (heldError e), true, [.send entry.smsId entry.maker rule false]⟩
      else some ⟨some e, false, [.send entry.smsId entry.maker rule false, .fail entry.smsId entry.maker]⟩

def advanceFlush (a : Attempt) (w : World) (config : SmsForwardConfig) : List ForwardLogEntry → World
  | [] => w.enter .idle
  | entry :: held =>
    match flushOutcome config entry a with
    | none => w.enter (.flushing config held)
    | some o =>
      let r := settlePending w.log entry.smsId entry.ruleId o.error o.pending a.finish.wall
      let w := (w.setLog r.1).saveLog a.saved
      (w.emit (o.effects ++ if r.2 then postForward config entry.smsId else [])).enter (.flushing config held)

def advance (a : Attempt) (w : World) : World :=
  match w.pass with
  | .processing p => advanceProcessing P a w p
  | .flushing config held => advanceFlush a w config held
  | _ => w

/-! ## The machine -/

inductive Event where
  | poll (saved : Bool) (r : Reads) (capacity : Except String Nat)
  /-- A new-SMS event from the firmware. -/
  | newSms
  | fetch (r : Reads)
  | flush
  | advance (a : Attempt)
  | request (saved : Bool) (req : Request)
  | logClear (saved : Bool)

def logClear (saved : Bool) (w : World) : World := (w.setLog (clearLog w.log)).saveLog saved

def serve (saved : Bool) (req : Request) (w : World) : World :=
  { w with fwd := (handle saved w.nextSerial w.fwd req).1, nextSerial := w.nextSerial + 1 }

/-- The thread begins a pass only when it is not in one; handlers run at any point. -/
def step (w : World) : Event → World
  | .poll saved r capacity => if w.pass = .idle then pollOnce P saved r capacity w else w
  | .newSms => if w.pass = .idle then smsReceived w else w
  | .fetch r => if w.pass = .fetching then processNewMessages P r w else w
  | .flush => if w.pass = .idle then flushPending w else w
  | .advance a => advance P a w
  | .request saved req => serve saved req w
  | .logClear saved => logClear saved w

/-- Where a run begins: no pass, nothing held, a log within its cap. -/
structure Start (w : World) : Prop where
  idle : w.pass = .idle
  noEffects : w.effects = []
  noneHeld : ∀ e ∈ w.log, e.pending = false
  capped : w.log.length ≤ maxLogEntries
  saved : w.fileWatermark ≤ w.watermark

/-! ## What a step can do -/

inductive Move (w : World) : Event → World → Prop where
  | stay (e : Event) : (∀ a p, e = .advance a → w.pass ≠ .processing p) → Move w e w
  | begin (e : Event) : w.pass = .idle → Move w e (w.enter .fetching)
  | listed {saved : Bool} {r : Reads} {cap : Except String Nat} (next : Pass) :
      w.pass = .idle → w.watermark = 0 → fetchMaxSmsId P r = 0 → next = .idle ∨ next = .fetching →
      Move w (.poll saved r cap) ((w.emit [.listed (newerIds 0 r)]).enter next)
  | initialized {saved : Bool} {r : Reads} {cap : Except String Nat} (next : Pass) :
      w.pass = .idle → forwardingOff w.config = false → w.watermark = 0 → 0 < fetchMaxSmsId P r → next = .idle ∨ next = .fetching →
      Move w (.poll saved r cap)
        (((w.emit [.listed (newerIds 0 r)]).moveWatermark saved (fetchMaxSmsId P r)).enter next)
  | nothingNew {r : Reads} : w.pass = .fetching →
      fetchNewMessages P w.watermark r = [] ∨ enabledRules w.config = [] →
      Move w (.fetch r) ((w.emit [.listed (newerIds w.watermark r)]).enter .idle)
  | started {r : Reads} : w.pass = .fetching → enabledRules w.config ≠ [] →
      Move w (.fetch r)
        ((w.emit [.listed (newerIds w.watermark r)]).enter
          (.processing ⟨w.config, w.watermark, w.watermark, none, fetchNewMessages P w.watermark r⟩))
  | flushed : w.pass = .idle → Move w .flush (w.enter (.flushing w.config (w.log.filter (·.pending))))
  | skipRule {a : Attempt} {p : Processing} {c : Current} {rule : ForwardRule} {rest : List ForwardRule} :
      w.pass = .processing p → p.current = some c → c.rest = rule :: rest → applies P rule c.sms = false →
      Move w (.advance a) (w.enter (.processing { p with current := some { c with rest := rest } }))
  | push {a : Attempt} {p : Processing} {c : Current} {rule : ForwardRule} {rest : List ForwardRule} {f : Forwarded} :
      w.pass = .processing p → p.current = some c → c.rest = rule :: rest → forwardRule P c.sms rule a = some f →
      Move w (.advance a)
        (((w.setLog (pushLog w.log f.entry)).emit f.effects).enter (.processing
          { p with current := some { c with rest := rest, allSucceeded := c.allSucceeded && f.entry.success } }))
  | finishSms {a : Attempt} {p : Processing} {c : Current} :
      w.pass = .processing p → p.current = some c → c.rest = [] →
      Move w (.advance a)
        ((w.emit (if c.allSucceeded then postForward p.config c.sms.id else [])).enter
          (.processing { p with maxProcessedId := max p.maxProcessedId c.sms.id, current := none }))
  | skipMessage {a : Attempt} {p : Processing} {sms : DecodedSms} {messages : List DecodedSms} :
      w.pass = .processing p → p.current = none → p.messages = sms :: messages → sms.id ≤ p.afterId →
      Move w (.advance a) (w.enter (.processing { p with messages := messages }))
  | evaluate {a : Attempt} {p : Processing} {sms : DecodedSms} {messages : List DecodedSms} :
      w.pass = .processing p → p.current = none → p.messages = sms :: messages →
      Move w (.advance a)
        ((w.emit [.evaluate sms]).enter
          (.processing { p with messages := messages, current := some ⟨sms, enabledRules p.config, true⟩ }))
  | finishPass {a : Attempt} {p : Processing} :
      w.pass = .processing p → p.current = none → p.messages = [] →
      Move w (.advance a) ((w.moveWatermark a.saved p.maxProcessedId).enter .idle)
  | wait {a : Attempt} {config : SmsForwardConfig} {e : ForwardLogEntry} {held : List ForwardLogEntry} :
      w.pass = .flushing config (e :: held) → Move w (.advance a) (w.enter (.flushing config held))
  | settle {a : Attempt} {config : SmsForwardConfig} {e : ForwardLogEntry} {held : List ForwardLogEntry} {o : Outcome} :
      w.pass = .flushing config (e :: held) → flushOutcome config e a = some o →
      Move w (.advance a)
        (let r := settlePending w.log e.smsId e.ruleId o.error o.pending a.finish.wall
         (((w.setLog r.1).saveLog a.saved).emit (o.effects ++ if r.2 then postForward config e.smsId else [])).enter
           (.flushing config held))
  | flushEnd {a : Attempt} {config : SmsForwardConfig} :
      w.pass = .flushing config [] → Move w (.advance a) (w.enter .idle)
  | served (saved : Bool) (req : Request) : Move w (.request saved req) (serve saved req w)
  | cleared (saved : Bool) : Move w (.logClear saved) ((w.setLog (clearLog w.log)).saveLog saved)

/-- A rule's forward gives nothing exactly where it does not apply; else its entry is
    for that SMS and rule, a success exactly when the message was sent, and a settled
    failure exactly when one is on record. -/
theorem forwardRule_cases (sms : DecodedSms) (rule : ForwardRule) (a : Attempt) :
    (applies P rule sms = false ∧ forwardRule P sms rule a = none) ∨
      ∃ e, applies P rule sms = true ∧ e.smsId = sms.id ∧ e.ruleId = rule.id ∧ e.maker = rule.serial ∧
        ((e.success = true ∧ e.pending = false ∧
            forwardRule P sms rule a = some ⟨e, [.send sms.id rule.serial rule true]⟩) ∨
          (e.success = false ∧ e.pending = true ∧ ∃ es,
            (es = [] ∨ es = [.send sms.id rule.serial rule false]) ∧ forwardRule P sms rule a = some ⟨e, es⟩) ∨
          (e.success = false ∧ e.pending = false ∧ forwardRule P sms rule a =
            some ⟨e, [.send sms.id rule.serial rule false, .fail sms.id rule.serial]⟩)) := by
  unfold forwardRule
  cases happ : applies P rule sms with
  | false => exact Or.inl ⟨rfl, by simp⟩
  | true =>
    right
    simp only [Bool.not_true, Bool.false_eq_true, if_false]
    cases blocker a.before rule.destination with
    | some reason => exact ⟨_, trivial, rfl, rfl, rfl, Or.inr (Or.inl ⟨rfl, rfl, [], Or.inl rfl, rfl⟩)⟩
    | none =>
      simp only
      cases forwardWithRetry a.tries with
      | ok u => exact ⟨_, trivial, rfl, rfl, rfl, Or.inl ⟨rfl, rfl, rfl⟩⟩
      | error e =>
        simp only
        split
        · exact ⟨_, trivial, rfl, rfl, rfl, Or.inr (Or.inl ⟨rfl, rfl, _, Or.inr rfl, rfl⟩)⟩
        · exact ⟨_, trivial, rfl, rfl, rfl, Or.inr (Or.inr ⟨rfl, rfl, rfl⟩)⟩

theorem initWatermark_cases (saved : Bool) (r : Reads) (w : World) :
    initWatermark P saved r w = w ∨
      (w.watermark = 0 ∧ fetchMaxSmsId P r = 0 ∧ initWatermark P saved r w = w.emit [.listed (newerIds 0 r)]) ∨
      (w.watermark = 0 ∧ 0 < fetchMaxSmsId P r ∧
        initWatermark P saved r w = (w.emit [.listed (newerIds 0 r)]).moveWatermark saved (fetchMaxSmsId P r)) := by
  unfold initWatermark
  by_cases h0 : w.watermark = 0
  · right
    by_cases hmax : 0 < fetchMaxSmsId P r
    · exact Or.inr ⟨h0, hmax, by simp only [h0, hmax, if_true]⟩
    · exact Or.inl ⟨h0, by omega, by simp only [h0, hmax, if_true, if_false]⟩
  · exact Or.inl (if_neg h0)

theorem pollOnce_move (w : World) (saved : Bool) (r : Reads) (cap : Except String Nat) (hidle : w.pass = .idle) :
    Move P w (.poll saved r cap) (pollOnce P saved r cap w) := by
  unfold pollOnce
  split
  · exact .stay _ (by simp)
  · rename_i hon
    have hinit : ∀ next : Pass, next = .idle ∨ next = .fetching →
        Move P w (.poll saved r cap) ((initWatermark P saved r w).enter next) := by
      intro next hnext
      rcases initWatermark_cases P saved r w with h | ⟨h0, hmax, h⟩ | ⟨h0, hmax, h⟩
      · rw [h]
        rcases hnext with rfl | rfl
        · exact hidle ▸ .stay _ (by simp)
        · exact .begin _ hidle
      · rw [h]; exact .listed next hidle h0 hmax hnext
      · rw [h]; exact .initialized next hidle (by simpa using hon) h0 hmax hnext
    have hstill : (initWatermark P saved r w).pass = .idle := by
      rcases initWatermark_cases P saved r w with h | ⟨-, -, h⟩ | ⟨-, -, h⟩ <;> rw [h] <;> exact hidle
    have hnone : Move P w (.poll saved r cap) (initWatermark P saved r w) := by
      have := hinit .idle (Or.inl rfl)
      rwa [← hstill] at this
    cases cap with
    | error e => exact hnone
    | ok n =>
      simp only
      split
      · exact hinit .fetching (Or.inr rfl)
      · exact hnone

theorem advanceProcessing_move (w : World) (a : Attempt) (p : Processing) (hp : w.pass = .processing p) :
    Move P w (.advance a) (advanceProcessing P a w p) := by
  unfold advanceProcessing
  cases hc : p.current with
  | some c =>
    cases hrest : c.rest with
    | nil => simp only [hrest]; exact .finishSms hp hc hrest
    | cons rule rest =>
      simp only [hrest]
      cases hf : forwardRule P c.sms rule a with
      | none =>
        rcases forwardRule_cases P c.sms rule a with ⟨happ, -⟩ | ⟨e, -, -, -, -, ⟨-, -, h⟩ | ⟨-, -, _, -, h⟩ | ⟨-, -, h⟩⟩
        · exact .skipRule hp hc hrest happ
        all_goals rw [h] at hf; cases hf
      | some f => exact .push hp hc hrest hf
  | none =>
    cases hm : p.messages with
    | nil => simp only; exact .finishPass hp hc hm
    | cons sms messages =>
      simp only
      split
      · exact hc ▸ .skipMessage hp hc hm ‹_›
      · exact .evaluate hp hc hm

theorem advanceFlush_move (w : World) (a : Attempt) (config : SmsForwardConfig) (held : List ForwardLogEntry)
    (hp : w.pass = .flushing config held) : Move P w (.advance a) (advanceFlush a w config held) := by
  cases held with
  | nil => exact .flushEnd hp
  | cons e held =>
    simp only [advanceFlush]
    cases ho : flushOutcome config e a with
    | none => exact .wait hp
    | some o => exact .settle hp ho

/-- Every step of the machine is a move. -/
theorem step_move (w : World) (e : Event) : Move P w e (step P w e) := by
  cases e with
  | poll saved r cap =>
    simp only [step]
    split
    · exact pollOnce_move P w saved r cap ‹_›
    · exact .stay _ (by simp)
  | newSms =>
    simp only [step]
    split
    · unfold smsReceived
      split
      · exact .stay _ (by simp)
      · exact .begin _ ‹_›
    · exact .stay _ (by simp)
  | fetch r =>
    simp only [step]
    split
    · rename_i hp
      simp only [processNewMessages]
      split
      · rename_i hnone
        simp only [emit_config, Bool.or_eq_true, List.isEmpty_iff] at hnone
        exact .nothingNew hp hnone
      · rename_i hsome
        simp only [Bool.or_eq_true, List.isEmpty_iff, not_or] at hsome
        exact .started hp hsome.2
    · exact .stay _ (by simp)
  | flush =>
    simp only [step]
    split
    · simp only [flushPending]
      split
      · exact .stay _ (by simp)
      · exact .flushed ‹_›
    · exact .stay _ (by simp)
  | advance a =>
    simp only [step, advance]
    split
    · exact advanceProcessing_move P w a _ ‹_›
    · exact advanceFlush_move P w a _ _ ‹_›
    · rename_i hno _
      exact .stay _ fun _ p _ hp => hno p hp
  | request saved req => exact .served saved req
  | logClear saved => exact .cleared saved

/-! ## A small device for worked runs -/

/-- Lower-case text only; a query for received messages leaves sent ones out. -/
def device : Params where
  toLowercase := fun s => s
  lists := fun tags tag => tags != 1 || decide (tag < 2)
  lists_received := by intro tag h; simp [h]

def receivedItem (id : Nat) (sender content : String) : Json :=
  .obj [("id", .int id), ("tag", .int 0), ("number", .str sender), ("content", .str content)]

def nvReads (items : List Json) : Reads := ⟨items, [], true, true⟩

def forwarder (config : SmsForwardConfig) (lastForwardedId : Nat) : World :=
  ⟨⟨0, config, ⟨lastForwardedId, []⟩, config, ⟨lastForwardedId, []⟩⟩, .idle, [], config.rules.length⟩

theorem forwarder_start (config : SmsForwardConfig) (lastForwardedId : Nat) : Start (forwarder config lastForwardedId) :=
  ⟨rfl, rfl, nofun, Nat.zero_le _, Nat.le_refl _⟩

def linksUp : Links := ⟨true, true⟩
def linksDown : Links := ⟨false, false⟩

def attempt (before : Links) (result : Except String Unit) : Attempt := ⟨before, fun _ => result, before, ⟨0, 0⟩, ⟨0, 0⟩, true⟩

def sends : Event := .advance (attempt linksUp (.ok ()))
def fails : Event := .advance (attempt linksUp (.error "HTTP 404 (permanent error)"))
def holds : Event := .advance (attempt linksDown (.ok ()))

end OpenU60.SmsForward
