/-
  OpenU60.SmsForward.Model — the data and the pure functions of the SMS forwarder
  (`zte-agent/src/sms_forward.rs`): configuration, rules, log entries, filter matching,
  the retry loop around one forward, and what a held forward may do.

  What comes from outside the source is in `Params`: the Unicode lower-casing of the
  standard library, and which messages of a store the firmware's list call returns for a
  `tags` value. A clock reading is a value (`Clock`): wall seconds and monotonic
  nanoseconds.

  Two fields are ghost and no code reads them: a rule's `serial`, which creation made
  it, and a log entry's `maker`, the serial of the rule it was logged for. A rule id can
  be handed out again; a serial cannot.
-/

import OpenU60.Lib.Text

namespace OpenU60.SmsForward

open OpenU60.Lib

structure Params where
  /-- `str::to_lowercase`. -/
  toLowercase : String → String
  /-- Does a list query with these `tags` return a message with this tag? -/
  lists : Nat → Nat → Bool
  /-- The query the forwarder polls with returns unread (0) and read (1) messages. -/
  lists_received : ∀ tag, tag < 2 → lists 1 tag = true

def maxLogEntries : Nat := 200
def maxRetries : Nat := 3
def pendingMaxAgeSecs : Nat := 86400

def nanos (secs : Nat) : Nat := secs * 10 ^ 9

structure Clock where
  wall : Int
  mono : Nat
  deriving DecidableEq

/-! ## Data types -/

structure HttpHeader where
  name : String
  value : String
  deriving DecidableEq

inductive ForwardDestination where
  | telegram (botToken chatId : String) (silent : Bool)
  | webhook (url method : String) (headers : List HttpHeader)
  | sms (forwardNumber : String)
  | ntfy (url topic : String) (token : Option String)
  | discord (webhookUrl : String)
  | slack (webhookUrl : String)
  deriving DecidableEq

inductive SmsFilter where
  | all
  | sender (patterns : List String)
  | content (keywords : List String)
  | senderAndContent (patterns keywords : List String)
  deriving DecidableEq

structure ForwardRule where
  id : UInt32
  name : String
  enabled : Bool
  filter : SmsFilter
  destination : ForwardDestination
  /-- Ghost: which creation made this rule. -/
  serial : Nat
  deriving DecidableEq

structure SmsForwardConfig where
  enabled : Bool
  pollIntervalSecs : Nat
  markReadAfterForward : Bool
  deleteAfterForward : Bool
  rules : List ForwardRule
  deriving DecidableEq

def SmsForwardConfig.default : SmsForwardConfig := ⟨false, 30, false, false, []⟩

structure ForwardLogEntry where
  timestamp : Int
  smsId : Nat
  sender : String
  contentPreview : String
  ruleName : String
  destinationType : String
  success : Bool
  error : Option String
  ruleId : UInt32
  content : String
  date : String
  /-- Held while the link was down; `flushPending` retries it. -/
  pending : Bool
  heldAt : Option Nat
  /-- Ghost: the serial of the rule this forward was logged for. -/
  maker : Nat
  deriving DecidableEq

structure ForwardState where
  lastForwardedId : Nat
  log : List ForwardLogEntry
  deriving DecidableEq

structure DecodedSms where
  id : Nat
  sender : String
  content : String
  date : String
  deriving DecidableEq

/-! ## Filter matching -/

def normalizePhone (num : String) : List Char :=
  let num := Text.trim num.toList
  match num with
  | '+' :: '6' :: '3' :: rest => '0' :: rest
  | _ => num

def isForwardLoop (dest : ForwardDestination) (sender : String) : Bool :=
  match dest with
  | .sms forwardNumber => normalizePhone sender == normalizePhone forwardNumber
  | _ => false

/-- Firmware echo: more than half of the bytes are `@` or NUL characters. -/
def isGarbledEcho (content : String) : Bool :=
  let cs := content.toList
  if cs.isEmpty then true
  else
    let junk := cs.countP fun c => c == '@' || c == '\x00'
    decide (junk * 2 > Text.byteLen cs)

variable (P : Params)

def senderMatches (sender : String) (patterns : List String) : Bool :=
  if patterns.isEmpty then true
  else
    let s := (P.toLowercase sender).toList
    patterns.any fun p =>
      let p := (P.toLowercase p).toList
      if p.getLast? = some '*' then p.dropLast.isPrefixOf s
      else if p.head? = some '*' then p.tail.isSuffixOf s
      else s == p

def contentMatches (content : String) (keywords : List String) : Bool :=
  if keywords.isEmpty then true
  else
    let c := (P.toLowercase content).toList
    keywords.any fun kw => Text.contains (P.toLowercase kw).toList c

def matchesFilter (filter : SmsFilter) (sender content : String) : Bool :=
  match filter with
  | .all => true
  | .sender patterns => senderMatches P sender patterns
  | .content keywords => contentMatches P content keywords
  | .senderAndContent patterns keywords => senderMatches P sender patterns && contentMatches P content keywords

/-- The two checks of the rule loop: not a firmware echo, and the filter matches. -/
def applies (rule : ForwardRule) (sms : DecodedSms) : Bool :=
  !(isForwardLoop rule.destination sms.sender && isGarbledEcho sms.content) &&
    matchesFilter P rule.filter sms.sender sms.content

/-! ## One forward -/

def destinationTypeName : ForwardDestination → String
  | .telegram .. => "telegram"
  | .webhook .. => "webhook"
  | .sms .. => "sms"
  | .ntfy .. => "ntfy"
  | .discord .. => "discord"
  | .slack .. => "slack"

def preview (s : String) (max : Nat) : String :=
  if Text.byteLen s.toList ≤ max then s else String.ofList (Text.floorBoundary max s.toList) ++ "..."

/-- HTTP 4xx other than 429 is permanent, everything else transient. -/
def isTransientError (err : String) : Bool := !Text.contains "(permanent error)".toList err.toList

/-- The attempts left of a forward, `tries` what each attempt returns. -/
def retryFrom (tries : Nat → Except String Unit) : Nat → Nat → String → Except String Unit
  | 0, _, lastErr => .error (lastErr ++ " (failed after 3 retries)")
  | n + 1, attempt, _ =>
    match tries attempt with
    | .ok () => .ok ()
    | .error e => if isTransientError e then retryFrom tries n (attempt + 1) e else .error e

def forwardWithRetry (tries : Nat → Except String Unit) : Except String Unit := retryFrom tries maxRetries 0 ""

/-! ## Held forwards -/

/-- The links as one check reads them. -/
structure Links where
  wanReady : Bool
  hasService : Bool
  deriving DecidableEq

/-- Why a forward to `dest` cannot go out over these links. -/
def blocker (l : Links) : ForwardDestination → Option String
  | .sms _ => if l.hasService then none else some "no cellular service; held for retry"
  | _ => if l.wanReady then none else some "no WAN connectivity; held for retry"

def holdAfterFailure (result : Except String Unit) (blocked : Bool) : Bool :=
  blocked && match result with
    | .error e => isTransientError e
    | .ok () => false

def heldError (err : String) : String := err ++ "; held for retry"

/-- The destination of a held entry's rule (with the rule, for the ghost serial), or why
    the entry is settled as failed. -/
def pendingAction (entry : ForwardLogEntry) (config : SmsForwardConfig) : Except String ForwardRule :=
  if !config.enabled then .error "forwarding disabled while held"
  else
    match config.rules.find? (·.id == entry.ruleId) with
    | none => .error "rule no longer exists"
    | some rule => if rule.enabled then .ok rule else .error "rule disabled while held"

def holdStart (timestamp now : Int) (mono : Nat) : Nat :=
  let age := nanos (min (max (now - timestamp) 0) (pendingMaxAgeSecs + 1)).toNat
  if age ≤ mono then mono - age else mono

def holdExpired (entry : ForwardLogEntry) (c : Clock) : Bool :=
  let heldAt := entry.heldAt.getD (holdStart entry.timestamp c.wall c.mono)
  decide (c.mono - heldAt > nanos pendingMaxAgeSecs)

inductive Flush where
  | send (rule : ForwardRule)
  | wait (rule : ForwardRule)
  | settle (reason : String)
  deriving DecidableEq

/-- The link is checked before the age: a forward whose link is back goes out rather
    than expiring. -/
def flushAction (entry : ForwardLogEntry) (config : SmsForwardConfig) (l : Links) (c : Clock) : Flush :=
  match pendingAction entry config with
  | .error reason => .settle reason
  | .ok rule =>
    if (blocker l rule.destination).isNone then .send rule
    else if holdExpired entry c then .settle "held for over 24 h without a link"
    else .wait rule

theorem pendingAction_rule {e : ForwardLogEntry} {cfg : SmsForwardConfig} {r : ForwardRule}
    (h : pendingAction e cfg = .ok r) : r ∈ cfg.rules ∧ r.id = e.ruleId ∧ r.enabled = true := by
  unfold pendingAction at h
  split at h
  · cases h
  · split at h
    · cases h
    · rename_i rule hf
      split at h
      · cases h
        exact ⟨List.mem_of_find?_eq_some hf, by simpa using List.find?_some hf, ‹_›⟩
      · cases h

theorem flushAction_rule {e : ForwardLogEntry} {cfg : SmsForwardConfig} {l : Links} {c : Clock} {r : ForwardRule}
    (h : flushAction e cfg l c = .send r) : r ∈ cfg.rules ∧ r.id = e.ruleId ∧ r.enabled = true := by
  unfold flushAction at h
  split at h
  · cases h
  · rename_i rule hp
    split at h
    · cases h; exact pendingAction_rule hp
    · split at h <;> cases h

end OpenU60.SmsForward
