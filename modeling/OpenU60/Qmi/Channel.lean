/-
  OpenU60.Qmi.Channel — who owns the SIM's logical channel (`zte-agent/src/qrtr_uim.rs`: `Apdu for
  UimClient` and its `Drop`).

  A run is the calls on a client, dropped at the end. The modem decides of every request what it answers
  and what the card does with it: an open may open a channel whatever becomes of the answer. The log has
  every request made and every channel id learned.
  - `Held`: what the log says of the channel at each point, whatever the modem does.
  - `channels_owned`: one channel at most is open without an owner, each learned is closed once, no APDU goes
    to another, an unknown outcome is the end of opening and no performed open passes for a refused one:
    exactly when no open is answered with success and without the id of a channel.
  - `nameless_channels`: two opens answered so, and two channels that nobody will close.
-/

import OpenU60.Euicc.Command
import OpenU60.Lib.History
import OpenU60.Lib.Machine
import OpenU60.Qmi.Request

namespace OpenU60.Qmi

open OpenU60.Lib OpenU60.Lib.Machine OpenU60.Lib.History

/-! ## The code -/

/-- `text.starts_with(start)`. -/
def startsWith (text start : String) : Bool := start.toList.isPrefixOf text.toList

/-- The client after a call, the request that it made and what it returns. -/
structure Called (α : Type) where
  client : UimClient
  command : Option Command
  result : α

/-- `Some(ch) if ch != 0`. -/
def channelId (out : List Tlv) : Option UInt8 := ((tlv out 0x10).bind List.head?).filter (· ≠ 0)

def openChannel (c : UimClient) (aid : Bytes) (w : Wire) : Called (Except Euicc.Error UInt8) :=
  if c.channel.isSome ∨ c.channelUnknown ∨ aid = [] ∨ 255 < aid.length then
    ⟨c, none, .error (.transport "open logical channel refused: channel state")⟩
  else
    let x := c.ask ⟨.openChannel aid, w⟩
    match x.result with
    | .error e =>
      ⟨{ x.client with channelUnknown := !startsWith e "QMI error" }, some (.openChannel aid),
        .error (.transport ("open logical channel failed: " ++ e))⟩
    | .ok out =>
      match channelId out with
      | some ch => ⟨{ x.client with channel := some ch }, some (.openChannel aid), .ok ch⟩
      | none => ⟨x.client, some (.openChannel aid), .error (.transport "open logical channel failed: no channel id")⟩

def closeChannel (c : UimClient) (channel : UInt8) (w : Wire) : Called Unit :=
  if c.channel ≠ some channel then ⟨c, none, ()⟩
  else
    -- Never retry a close after an uncertain answer; ownership is unknown then.
    let x := { c with channel := none }.ask ⟨.closeChannel channel, w⟩
    match x.result with
    | .error _ => ⟨{ x.client with channelUnknown := true }, some (.closeChannel channel), ()⟩
    | .ok _ => ⟨x.client, some (.closeChannel channel), ()⟩

def response (out : List Tlv) : Except Euicc.Error Bytes :=
  match tlv out 0x10 with
  | none => .error (.transport "APDU failed: no response")
  | some resp =>
    match le16 resp 0 with
    | none => .error (.transport "APDU failed: short response")
    | some len =>
      if 2 + len ≤ resp.length then .ok ((resp.drop 2).take len) else .error (.transport "APDU failed: truncated response")

def transmit (c : UimClient) (apdu : Bytes) (w : Wire) : Called (Except Euicc.Error Bytes) :=
  match c.channel with
  | none => ⟨c, none, .error (.transport "APDU without an open channel")⟩
  | some channel =>
    if 65535 < apdu.length then ⟨c, none, .error (.transport "APDU too long")⟩
    else
      let x := c.ask ⟨.sendApdu apdu channel, w⟩
      match x.result with
      | .error e => ⟨x.client, some (.sendApdu apdu channel), .error (.transport ("APDU failed: " ++ e))⟩
      | .ok out => ⟨x.client, some (.sendApdu apdu channel), response out⟩

def drop (c : UimClient) (w : Wire) : Called Unit :=
  match c.channel with
  | some channel => closeChannel c channel w
  | none => ⟨c, none, ()⟩

/-! ## Runs -/

/-- A call, what the socket does for its request and what the card does with it. -/
inductive Call where
  | openChannel (aid : Bytes) (wire : Wire) (opened : Option UInt8)
  | transmit (apdu : Bytes) (wire : Wire)
  | closeChannel (channel : UInt8) (wire : Wire) (closed : Bool)
  | drop (wire : Wire) (closed : Bool)

inductive Entry where
  | asked (command : Command)
  | learned (channel : UInt8)
  deriving DecidableEq

structure World where
  client : UimClient
  /-- The channels that the card has open for this client. -/
  card : List UInt8
  made : List Ask
  log : List Entry

def fresh (node port : UInt32) (slot : UInt8) : World := ⟨connected node port slot, [], [], []⟩

/-- A request made, with what it left on the card. -/
def World.request (w : World) (client : UimClient) (a : Ask) (card : List UInt8) (learned : List Entry) : World :=
  ⟨client, card, w.made ++ [a], w.log ++ .asked a.command :: learned⟩

def World.called {α : Type} (w : World) (r : Called α) (wire : Wire) (card : List UInt8) (learned : List Entry) : World :=
  match r.command with
  | none => { w with client := r.client }
  | some command => w.request r.client ⟨command, wire⟩ card learned

def learnedOf : Except Euicc.Error UInt8 → List Entry
  | .ok ch => [.learned ch]
  | .error _ => []

/-- The card without the channel that the client holds, if it closes it. -/
def World.closedIf (w : World) (closed : Bool) : List UInt8 :=
  match w.client.channel with
  | some ch => if closed then w.card.erase ch else w.card
  | none => w.card

def World.step (w : World) : Call → World
  | .openChannel aid wire opened =>
    let r := openChannel w.client aid wire
    w.called r wire (w.card ++ opened.toList) (learnedOf r.result)
  | .transmit apdu wire => w.called (transmit w.client apdu wire) wire w.card []
  | .closeChannel channel wire closed => w.called (closeChannel w.client channel wire) wire (w.closedIf closed) []
  | .drop wire closed => w.called (drop w.client wire) wire (w.closedIf closed) []

/-- The request that a call makes. -/
def Makes (w : World) (call : Call) (a : Ask) : Prop := (w.step call).made = w.made ++ [a]

/-! ## The modem -/

/-- An answer that is an error. -/
def Refusing (tlvs : List Tlv) : Prop :=
  ∃ lo hi e f more, tlv tlvs 0x02 = some (lo :: hi :: e :: f :: more) ∧ ¬ (lo = 0 ∧ hi = 0)

/-- An answer says what the card did. -/
def Call.Truth (tlvs : List Tlv) : Call → Prop
  | .openChannel _ _ opened =>
    (Refusing tlvs → opened = none) ∧ (Successful tlvs → opened ≠ none) ∧
      ∀ ch, Successful tlvs → channelId tlvs = some ch → opened = some ch
  | .transmit _ _ => True
  | .closeChannel _ _ closed | .drop _ closed => Successful tlvs → closed = true

/-- The modem answers requests it was sent, each of them once, and the truth. -/
structure Lawful (w : World) (call : Call) : Prop where
  answers : ∀ a, Makes w call a → ∀ d ∈ a.wire.arrivals, ∀ txn msgId tlvs, Responds w.client txn msgId d tlvs →
    ∃ j asked, d.answers = some j ∧ (w.made ++ [a])[j]? = some asked ∧ asked.command.msgId = msgId
  once : ∀ a, Makes w call a → ∀ d ∈ a.wire.arrivals, ∀ asked ∈ w.made, ∀ e ∈ asked.wire.arrivals, ∀ j,
    e.answers = some j → d.answers ≠ some j
  truth : ∀ a, Makes w call a → ∀ d ∈ a.wire.arrivals, d.answers = some w.made.length →
    ∀ txn tlvs, Responds w.client txn a.command.msgId d tlvs → call.Truth tlvs

/-! ## Ownership -/

/-- What the card has open and the client does not hold. -/
def World.unaccounted (w : World) : List UInt8 :=
  match w.client.channel with
  | some ch => w.card.erase ch
  | none => w.card

/-- Learned, and nothing but APDUs on it since. -/
def OpenSince (ch : UInt8) (past : List Entry) : Prop :=
  Since (fun _ e => e = .learned ch) (fun e => ∃ apdu, e = .asked (.sendApdu apdu ch)) past

/-- First come APDUs on the channel, then its close. -/
def ClosedIn (ch : UInt8) (after : List Entry) : Prop :=
  ∃ apdus rest, after = apdus ++ .asked (.closeChannel ch) :: rest ∧ ∀ e ∈ apdus, ∃ apdu, e = .asked (.sendApdu apdu ch)

/-- APDUs and closes are of a channel that is open. -/
def Allowed (past : List Entry) : Entry → Prop
  | .asked (.sendApdu _ ch) => OpenSince ch past
  | .asked (.closeChannel ch) => OpenSince ch past
  | _ => True

/-- An open that the card performed has not left the client as one it refused does. -/
def Told (w : World) (call : Call) : Prop :=
  match call with
  | .openChannel _ _ opened =>
    (∃ a, Makes w call a) → opened ≠ none → (w.step call).client.channel ≠ none ∨ (w.step call).client.channelUnknown = true
  | _ => True

/-- The request was made and no answer says what the card did. -/
def Unclear (w : World) (call : Call) : Prop :=
  ∃ a, Makes w call a ∧
    match a.command with
    | .openChannel _ => ∀ d tlvs, First w.client (nextTxn w.client.txn) a.command.msgId a.wire.arrivals d tlvs →
        ¬ Successful tlvs ∧ ¬ Refusing tlvs
    | .closeChannel _ => ∀ d tlvs, First w.client (nextTxn w.client.txn) a.command.msgId a.wire.arrivals d tlvs → ¬ Successful tlvs
    | .sendApdu _ _ => False

structure Owned (w : World) (calls : List Call) : Prop where
  unaccounted : Along World.step (fun w call => (w.step call).unaccounted.length ≤ 1) w calls
  told : Along World.step Told w calls
  silent : ∀ before call between aid wire opened after,
    calls = before ++ call :: (between ++ .openChannel aid wire opened :: after) → Unclear (exec World.step w before) call →
      ¬ ∃ a, Makes (exec World.step w (before ++ call :: between)) (.openChannel aid wire opened) a
  requests : Guarded Allowed [] (exec World.step w calls).log
  closed : ∀ before ch after, (exec World.step w calls).log = before ++ .learned ch :: after → ClosedIn ch after

/-- A success says which channel was opened. -/
def Numbered (w : World) (call : Call) : Prop :=
  match call with
  | .openChannel _ _ _ => ∀ a, Makes w call a → ∀ d tlvs,
      First w.client (nextTxn w.client.txn) a.command.msgId a.wire.arrivals d tlvs → Successful tlvs → channelId tlvs ≠ none
  | _ => True

/-! ## What a call can do -/

variable {w : World} {call : Call} {calls : List Call} {a : Ask} {c : UimClient} {txn msgId : UInt16} {d : Datagram} {e : String}
  {tlvs : List Tlv} {arrivals : List Datagram} {failure : Failure} {ch : UInt8} {log past : List Entry}

inductive Turn (w : World) : Call → World → Prop where
  | quiet (call : Call) : Turn w call w
  | opened (aid : Bytes) (wire : Wire) (o : Option UInt8) (out : List Tlv) (ch : UInt8) (hfree : w.client.channel = none)
      (hknown : w.client.channelUnknown = false) (hresult : (w.client.ask ⟨.openChannel aid, wire⟩).result = .ok out)
      (hid : channelId out = some ch) :
      Turn w (.openChannel aid wire o) (w.request { w.client with txn := nextTxn w.client.txn, channel := some ch }
        ⟨.openChannel aid, wire⟩ (w.card ++ o.toList) [.learned ch])
  | unnamed (aid : Bytes) (wire : Wire) (o : Option UInt8) (out : List Tlv) (hfree : w.client.channel = none)
      (hknown : w.client.channelUnknown = false) (hresult : (w.client.ask ⟨.openChannel aid, wire⟩).result = .ok out)
      (hid : channelId out = none) :
      Turn w (.openChannel aid wire o) (w.request { w.client with txn := nextTxn w.client.txn } ⟨.openChannel aid, wire⟩
        (w.card ++ o.toList) [])
  | failed (aid : Bytes) (wire : Wire) (o : Option UInt8) (e : String) (hfree : w.client.channel = none)
      (hknown : w.client.channelUnknown = false) (hresult : (w.client.ask ⟨.openChannel aid, wire⟩).result = .error e) :
      Turn w (.openChannel aid wire o)
        (w.request { w.client with txn := nextTxn w.client.txn, channelUnknown := !startsWith e "QMI error" }
          ⟨.openChannel aid, wire⟩ (w.card ++ o.toList) [])
  | apdu (apdu : Bytes) (wire : Wire) (ch : UInt8) (hheld : w.client.channel = some ch) :
      Turn w (.transmit apdu wire) (w.request { w.client with txn := nextTxn w.client.txn } ⟨.sendApdu apdu ch, wire⟩ w.card [])
  | closed (call : Call) (wire : Wire) (b : Bool) (out : List Tlv) (ch : UInt8) (hcall : call = .closeChannel ch wire b ∨ call = .drop wire b)
      (hheld : w.client.channel = some ch) (hresult : ({ w.client with channel := none }.ask ⟨.closeChannel ch, wire⟩).result = .ok out) :
      Turn w call (w.request { w.client with txn := nextTxn w.client.txn, channel := none } ⟨.closeChannel ch, wire⟩
        (if b then w.card.erase ch else w.card) [])
  | unclosed (call : Call) (wire : Wire) (b : Bool) (e : String) (ch : UInt8) (hcall : call = .closeChannel ch wire b ∨ call = .drop wire b)
      (hheld : w.client.channel = some ch) (hresult : ({ w.client with channel := none }.ask ⟨.closeChannel ch, wire⟩).result = .error e) :
      Turn w call (w.request { w.client with txn := nextTxn w.client.txn, channel := none, channelUnknown := true }
        ⟨.closeChannel ch, wire⟩ (if b then w.card.erase ch else w.card) [])

theorem turn_open (w : World) (aid : Bytes) (wire : Wire) (o : Option UInt8) :
    Turn w (.openChannel aid wire o) (w.step (.openChannel aid wire o)) := by
  unfold World.step openChannel
  dsimp only
  split
  case isTrue => exact .quiet _
  case isFalse hopen =>
    push Not at hopen
    obtain ⟨hfree, hknown, -, -⟩ := hopen
    have hfree : w.client.channel = none := Option.not_isSome_iff_eq_none.mp hfree
    have hknown : w.client.channelUnknown = false := Bool.eq_false_iff.mpr hknown
    split
    case h_1 e hresult => exact .failed aid wire o e hfree hknown hresult
    case h_2 out hresult =>
      split
      case h_1 ch hid => exact .opened aid wire o out ch hfree hknown hresult hid
      case h_2 hid => exact .unnamed aid wire o out hfree hknown hresult hid

/-- A close of the channel that is held. -/
theorem turn_close (w : World) {wire : Wire} {b : Bool} (hcall : call = .closeChannel ch wire b ∨ call = .drop wire b)
    (hheld : w.client.channel = some ch) : Turn w call (w.called (closeChannel w.client ch wire) wire (w.closedIf b) []) := by
  have hcard : w.closedIf b = if b then w.card.erase ch else w.card := by
    rw [World.closedIf, hheld]
  rw [hcard]
  unfold closeChannel
  rw [if_neg (not_not.mpr hheld)]
  dsimp only
  split
  case h_1 e hresult => exact .unclosed call wire b e ch hcall hheld hresult
  case h_2 out hresult => exact .closed call wire b out ch hcall hheld hresult

theorem turn (w : World) (call : Call) : Turn w call (w.step call) := by
  cases call with
  | openChannel aid wire o => exact turn_open w aid wire o
  | transmit apdu wire =>
    unfold World.step transmit
    dsimp only
    split
    case h_1 => exact .quiet _
    case h_2 ch hheld =>
      split
      case isTrue => exact .quiet _
      case isFalse =>
        split <;> exact .apdu apdu wire ch hheld
  | closeChannel ch wire b =>
    by_cases hheld : w.client.channel = some ch
    · exact turn_close w (.inl rfl) hheld
    · have hquiet : w.step (.closeChannel ch wire b) = w := by
        unfold World.step closeChannel
        dsimp only
        rw [if_pos hheld]
        rfl
      rw [hquiet]
      exact .quiet _
  | drop wire b =>
    unfold World.step drop
    dsimp only
    split
    case h_1 ch hheld => exact turn_close w (.inr rfl) hheld
    case h_2 => exact .quiet _

/-! ## The texts of errors -/

theorem startsWith_append (start rest : String) : startsWith (start ++ rest) start = true := by
  rw [startsWith, String.toList_append]
  exact List.isPrefixOf_iff_prefix.mpr (List.prefix_append _ _)

theorem not_startsWith_qrtr (rest : String) : ¬ startsWith ("QRTR " ++ rest) "QMI error" = true := by
  rw [startsWith, String.toList_append]
  exact Bool.false_ne_true

theorem failure_not_startsWith (failure : Failure) : ¬ startsWith failure.text "QMI error" = true := by
  cases failure with
  | late => decide
  | poll os =>
    have hpoll : "QRTR poll: " = "QRTR " ++ "poll: " := by decide
    rw [Failure.text, hpoll, String.append_assoc]
    exact not_startsWith_qrtr _
  | receive os =>
    have hreceive : "QRTR receive: " = "QRTR " ++ "receive: " := by decide
    rw [Failure.text, hreceive, String.append_assoc]
    exact not_startsWith_qrtr _

/-- Only an error that the modem answered with has such a text. -/
theorem refusing_of_check (h : checkResult tlvs = .error e) (hs : startsWith e "QMI error" = true) : Refusing tlvs := by
  have hbad : ¬ Successful tlvs := by
    intro hok
    rw [successful_iff.mpr hok] at h
    cases h
  unfold checkResult at h
  unfold Refusing
  cases hr : tlv tlvs 0x02 with
  | none =>
    rw [hr] at h
    cases h
    exact absurd hs (by decide)
  | some r =>
    rw [hr] at h
    match r with
    | [] | [_] | [_, _] | [_, _, _] =>
      cases h
      exact absurd hs (by decide)
    | lo :: hi :: e' :: f :: more =>
      refine ⟨lo, hi, e', f, more, rfl, ?_⟩
      intro hzero
      obtain ⟨rfl, rfl⟩ := hzero
      exact hbad ⟨e', f, more, hr⟩

theorem first_of_refused (h : await c txn msgId failure arrivals = .error e) (hs : startsWith e "QMI error" = true) :
    ∃ d tlvs, First c txn msgId arrivals d tlvs ∧ Refusing tlvs := by
  induction arrivals with
  | nil =>
    cases h
    exact absurd hs (failure_not_startsWith failure)
  | cons d arrivals ih =>
    unfold await at h
    cases hheard : hear c txn msgId d with
    | gone =>
      rw [hheard] at h
      cases h
      exact absurd hs (by decide)
    | skipped =>
      rw [hheard] at h
      obtain ⟨e, tlvs, he, hrefusing⟩ := ih h
      exact ⟨e, tlvs, he.cons hheard, hrefusing⟩
    | response tlvs =>
      rw [hheard] at h
      dsimp only at h
      cases hcheck : checkResult tlvs with
      | error text =>
        rw [hcheck] at h
        cases h
        exact ⟨d, tlvs, first_head hheard, refusing_of_check hcheck hs⟩
      | ok u =>
        rw [hcheck] at h
        cases h

theorem first_of_ask (h : (c.ask a).result = .ok tlvs) :
    ∃ d, First c (nextTxn c.txn) a.command.msgId a.wire.arrivals d tlvs ∧ Successful tlvs :=
  @first_of_result c [] a tlvs h

theorem first_of_refused_ask (hresult : (c.ask a).result = .error e) (hs : startsWith e "QMI error" = true) :
    ∃ d tlvs, First c (nextTxn c.txn) a.command.msgId a.wire.arrivals d tlvs ∧ Refusing tlvs := by
  have hask := result_eq c [] a
  cases hwire : a.wire with
  | unsent os =>
    have hsend : "QRTR send: " = "QRTR " ++ "send: " := by decide
    rw [hwire] at hask
    have htext : e = "QRTR send: " ++ os := Except.error.inj (hresult.symm.trans hask)
    rw [htext, hsend, String.append_assoc] at hs
    exact absurd hs (not_startsWith_qrtr _)
  | sent arrivals failure =>
    rw [hwire] at hask
    exact first_of_refused (hask.symm.trans hresult) hs

theorem refused_of_known (h : (!startsWith e "QMI error") = false) : startsWith e "QMI error" = true := by
  rw [← Bool.not_not (startsWith e "QMI error"), h]
  rfl

/-- What the log says of the channel that the client holds. -/
inductive Held : List Entry → Option UInt8 → Prop where
  | nil : Held [] none
  | opening {log : List Entry} (h : Held log none) (aid : Bytes) : Held (log ++ [.asked (.openChannel aid)]) none
  | learned {log : List Entry} (h : Held log none) (ch : UInt8) : Held (log ++ [.learned ch]) (some ch)
  | apdu {log : List Entry} {ch : UInt8} (h : Held log (some ch)) (apdu : Bytes) : Held (log ++ [.asked (.sendApdu apdu ch)]) (some ch)
  | closing {log : List Entry} {ch : UInt8} (h : Held log (some ch)) : Held (log ++ [.asked (.closeChannel ch)]) none

/-- All opens and closes have had their answers. -/
def Answered (made : List Ask) : Prop :=
  ∀ (j : Nat) (asked : Ask), made[j]? = some asked → asked.command.msgId ≠ uimSendApdu → ∃ d ∈ asked.wire.arrivals, d.answers = some j

/-- As long as the client knows what the card holds, it has read the answers to all opens and closes. -/
structure Kept (w : World) : Prop where
  held : Held w.log w.client.channel
  known : w.client.channel ≠ none → w.client.channelUnknown = false
  answered : w.client.channelUnknown = false → Answered w.made

/-- So the answer that is taken for an open's or a close's is no older one. -/
theorem own_answer (hk : Kept w) (hlaw : Lawful w call) (hmade : Makes w call a)
    (hmsg : a.command.msgId ≠ uimSendApdu)
    (hknown : w.client.channelUnknown = false) (hfirst : First w.client txn a.command.msgId a.wire.arrivals d tlvs) :
    d.answers = some w.made.length := by
  have hmem := hfirst.mem
  obtain ⟨before, after, -, -, hd⟩ := hfirst
  obtain ⟨j, asked, hanswers, hasked, hid⟩ := hlaw.answers a hmade d hmem txn a.command.msgId tlvs hd
  by_cases hj : j < w.made.length
  · rw [List.getElem?_append_left hj] at hasked
    rw [← hid] at hmsg
    obtain ⟨e, he, hold⟩ := hk.answered hknown j asked hasked hmsg
    exact absurd hanswers (hlaw.once a hmade d hmem asked (List.mem_of_getElem? hasked) e he j hold)
  · have hlt := (List.getElem?_eq_some_iff.mp hasked).1
    rw [List.length_append, List.length_singleton] at hlt
    rw [hanswers, show j = w.made.length by omega]

theorem open_ne_apdu : uimOpenLogicalChannel ≠ uimSendApdu := by decide

theorem close_ne_apdu : uimLogicalChannel ≠ uimSendApdu := by decide

theorem answered_snoc {made : List Ask} (h : Answered made)
    (ha : a.command.msgId ≠ uimSendApdu → ∃ d ∈ a.wire.arrivals, d.answers = some made.length) : Answered (made ++ [a]) := by
  intro j asked hasked hmsg
  by_cases hj : j < made.length
  · rw [List.getElem?_append_left hj] at hasked
    exact h j asked hasked hmsg
  · have hlt := (List.getElem?_eq_some_iff.mp hasked).1
    rw [List.length_append, List.length_singleton] at hlt
    obtain rfl : j = made.length := by omega
    rw [List.getElem?_concat_length] at hasked
    cases hasked
    exact ha hmsg

theorem kept_step (hk : Kept w) (hlaw : Lawful w call) : Kept (w.step call) := by
  have hturn := turn w call
  have hown : ∀ {a d txn tlvs}, (w.step call).made = w.made ++ [a] → w.client.channelUnknown = false →
      First w.client txn a.command.msgId a.wire.arrivals d tlvs → Answered (w.made ++ [a]) :=
    fun hmade hknown hfirst => answered_snoc (hk.answered hknown) fun hmsg => ⟨_, hfirst.mem, own_answer hk hlaw hmade hmsg hknown hfirst⟩
  generalize w.step call = w' at hturn hown
  have hheld := hk.held
  cases hturn with
  | quiet => exact hk
  | opened aid wire o out ch hfree hknown hresult hid =>
    rw [hfree] at hheld
    obtain ⟨d, hfirst, -⟩ := first_of_ask hresult
    refine ⟨?_, fun _ => hknown, fun _ => hown rfl hknown hfirst⟩
    have hlog := (hheld.opening aid).learned ch
    rw [List.append_assoc] at hlog
    exact hlog
  | unnamed aid wire o out hfree hknown hresult hid =>
    rw [hfree] at hheld
    obtain ⟨d, hfirst, -⟩ := first_of_ask hresult
    refine ⟨?_, fun _ => hknown, fun _ => hown rfl hknown hfirst⟩
    show Held _ w.client.channel
    rw [hfree]
    exact hheld.opening aid
  | failed aid wire o e hfree hknown hresult =>
    rw [hfree] at hheld
    refine ⟨?_, fun hch => absurd hfree hch, fun hsettled => ?_⟩
    · show Held _ w.client.channel
      rw [hfree]
      exact hheld.opening aid
    · have hrefused : startsWith e "QMI error" = true := refused_of_known hsettled
      obtain ⟨d, tlvs, hfirst, -⟩ := first_of_refused_ask hresult hrefused
      exact hown rfl hknown hfirst
  | apdu apdu wire ch hch =>
    rw [hch] at hheld
    refine ⟨?_, hk.known, fun hknown => answered_snoc (hk.answered hknown) fun hmsg => absurd rfl hmsg⟩
    show Held _ w.client.channel
    rw [hch]
    exact hheld.apdu apdu
  | closed call wire b out ch hcall hch hresult =>
    rw [hch] at hheld
    have hknown : w.client.channelUnknown = false := hk.known (by rw [hch]; exact Option.some_ne_none ch)
    obtain ⟨d, hfirst, -⟩ := first_of_ask hresult
    exact ⟨hheld.closing, fun hch => absurd rfl hch, fun _ => hown rfl hknown hfirst⟩
  | unclosed call wire b e ch hcall hch hresult =>
    rw [hch] at hheld
    exact ⟨hheld.closing, fun hch => absurd rfl hch, fun hknown => Bool.noConfusion hknown⟩

theorem kept_fresh (node port : UInt32) (slot : UInt8) : Kept (fresh node port slot) :=
  ⟨.nil, fun h => absurd rfl h, fun _ _ _ h => absurd h (by simp [fresh])⟩

/-! ## The log -/

theorem held_since {o : Option UInt8} (h : Held log o) (ho : o = some ch) : OpenSince ch log := by
  unfold OpenSince
  induction h with
  | nil => cases ho
  | opening => cases ho
  | learned _ ch' =>
    cases ho
    exact since_snoc.mpr (.inl rfl)
  | apdu _ bytes ih =>
    cases ho
    exact since_snoc.mpr (.inr ⟨ih rfl, bytes, rfl⟩)
  | closing => cases ho

theorem held_guarded {o : Option UInt8} (h : Held log o) : Guarded Allowed [] log := by
  induction h with
  | nil => trivial
  | opening _ aid ih => exact guarded_append.mpr ⟨ih, trivial, trivial⟩
  | learned _ ch ih => exact guarded_append.mpr ⟨ih, trivial, trivial⟩
  | apdu h bytes ih => exact guarded_append.mpr ⟨ih, held_since h rfl, trivial⟩
  | closing h ih => exact guarded_append.mpr ⟨ih, held_since h rfl, trivial⟩

theorem ClosedIn.snoc {after : List Entry} (h : ClosedIn ch after) (e : Entry) : ClosedIn ch (after ++ [e]) := by
  obtain ⟨apdus, rest, rfl, hapdus⟩ := h
  exact ⟨apdus, rest ++ [e], by rw [List.append_assoc, List.cons_append], hapdus⟩

/-- A channel that was learned has been closed, or it is the one that is held. -/
theorem held_closed {o : Option UInt8} (h : Held log o) {before after : List Entry} (hlog : log = before ++ .learned ch :: after) :
    ClosedIn ch after ∨ (o = some ch ∧ ∀ e ∈ after, ∃ apdu, e = .asked (.sendApdu apdu ch)) := by
  induction h generalizing after with
  | nil => simp at hlog
  | opening _ aid ih =>
    rcases snoc_split hlog with ⟨-, hy, -⟩ | ⟨rest, rfl, hrest⟩
    · cases hy
    · rcases ih hrest with hclosed | ⟨ho, -⟩
      · exact .inl (hclosed.snoc _)
      · cases ho
  | learned _ ch' ih =>
    rcases snoc_split hlog with ⟨-, hy, rfl⟩ | ⟨rest, rfl, hrest⟩
    · cases hy
      exact .inr ⟨rfl, fun e he => absurd he List.not_mem_nil⟩
    · rcases ih hrest with hclosed | ⟨ho, -⟩
      · exact .inl (hclosed.snoc _)
      · cases ho
  | apdu _ bytes ih =>
    rcases snoc_split hlog with ⟨-, hy, -⟩ | ⟨rest, rfl, hrest⟩
    · cases hy
    · rcases ih hrest with hclosed | ⟨ho, hafter⟩
      · exact .inl (hclosed.snoc _)
      · cases ho
        refine .inr ⟨rfl, fun e he => ?_⟩
        rcases List.mem_append.mp he with he | he
        · exact hafter e he
        · exact ⟨bytes, List.mem_singleton.mp he⟩
  | closing _ ih =>
    rcases snoc_split hlog with ⟨-, hy, -⟩ | ⟨rest, rfl, hrest⟩
    · cases hy
    · rcases ih hrest with hclosed | ⟨ho, hafter⟩
      · exact .inl (hclosed.snoc _)
      · cases ho
        exact .inl ⟨rest, [], rfl, hafter⟩

theorem drop_free (w : World) (wire : Wire) (b : Bool) : (w.step (.drop wire b)).client.channel = none := by
  by_cases hfree : w.client.channel = none
  · have hquiet : w.step (.drop wire b) = w := by
      unfold World.step drop
      dsimp only
      rw [hfree]
      rfl
    rw [hquiet, hfree]
  · obtain ⟨ch, hheld⟩ := Option.ne_none_iff_exists'.mp hfree
    unfold World.step drop
    dsimp only
    rw [hheld]
    dsimp only
    unfold closeChannel
    rw [if_neg (not_not.mpr hheld)]
    dsimp only
    split <;> rfl

/-! ## The card -/

/-- An answer that is read first decides what the request returns. -/
theorem ask_first (h : First c (nextTxn c.txn) a.command.msgId a.wire.arrivals d tlvs) (hok : Successful tlvs) :
    (c.ask a).result = .ok tlvs := by
  have hresult := @result_first c [] a d tlvs h
  rwa [successful_iff.mpr hok] at hresult

theorem unknown_step (h : w.client.channelUnknown = true) : (w.step call).client.channelUnknown = true := by
  have hturn := turn w call
  generalize w.step call = w' at hturn
  cases hturn with
  | quiet => exact h
  | opened aid wire o out ch hfree hknown => exact h
  | unnamed aid wire o out hfree hknown => exact h
  | failed aid wire o e hfree hknown => exact Bool.noConfusion (hknown.symm.trans h)
  | apdu => exact h
  | closed => exact h
  | unclosed => rfl

theorem request_made {a' : Ask} {card : List UInt8} {learned : List Entry} (h : (w.request c a' card learned).made = w.made ++ [a]) :
    a = a' := (List.cons.inj (List.append_cancel_left h)).1.symm

theorem unknown_of_unclear (h : Unclear w call) : (w.step call).client.channelUnknown = true := by
  obtain ⟨a, hmade, hunclear⟩ := h
  unfold Makes at hmade
  have hturn := turn w call
  generalize w.step call = w' at hturn hmade
  cases hturn with
  | quiet => simp at hmade
  | opened aid wire o out ch hfree hknown hresult hid =>
    obtain ⟨d, hfirst, hok⟩ := first_of_ask hresult
    obtain rfl := request_made hmade
    exact absurd hok (hunclear d out hfirst).1
  | unnamed aid wire o out hfree hknown hresult hid =>
    obtain ⟨d, hfirst, hok⟩ := first_of_ask hresult
    obtain rfl := request_made hmade
    exact absurd hok (hunclear d out hfirst).1
  | failed aid wire o e hfree hknown hresult =>
    obtain rfl := request_made hmade
    show (!startsWith e "QMI error") = true
    cases hs : startsWith e "QMI error" with
    | false => rfl
    | true =>
      obtain ⟨d, tlvs, hfirst, hrefusing⟩ := first_of_refused_ask hresult hs
      exact absurd hrefusing (hunclear d tlvs hfirst).2
  | apdu apdu wire ch hch =>
    obtain rfl := request_made hmade
    exact hunclear.elim
  | closed call wire b out ch hcall hch hresult =>
    obtain ⟨d, hfirst, hok⟩ := first_of_ask hresult
    obtain rfl := request_made hmade
    exact absurd hok (hunclear d out hfirst)
  | unclosed => rfl

/-- What the card has open: what the client holds, or one channel while the client does not know. -/
structure Tidy (w : World) : Prop where
  held : ∀ ch, w.client.channel = some ch → w.card = [ch]
  free : w.client.channel = none → w.client.channelUnknown = false → w.card = []
  one : w.card.length ≤ 1

theorem Tidy.unaccounted (h : Tidy w) : w.unaccounted.length ≤ 1 := by
  unfold World.unaccounted
  cases hch : w.client.channel with
  | none => exact h.one
  | some ch => exact Nat.le_trans List.length_erase_le h.one

/-- The card did what the first answer to a request says. -/
theorem truth_of_first (hk : Kept w) (hlaw : Lawful w call) (hmade : Makes w call a)
    (hmsg : a.command.msgId ≠ uimSendApdu) (hknown : w.client.channelUnknown = false)
    (hfirst : First w.client txn a.command.msgId a.wire.arrivals d tlvs) : call.Truth tlvs := by
  have hown := own_answer hk hlaw hmade hmsg hknown hfirst
  have hmem := hfirst.mem
  obtain ⟨before, after, -, -, hd⟩ := hfirst
  exact hlaw.truth a hmade d hmem hown txn tlvs hd

theorem tidy_fresh (node port : UInt32) (slot : UInt8) : Tidy (fresh node port slot) :=
  ⟨fun ch h => (Option.some_ne_none ch h.symm).elim, fun _ _ => rfl, Nat.zero_le 1⟩

theorem tidy_step (hk : Kept w) (ht : Tidy w) (hlaw : Lawful w call) (hn : Numbered w call) : Tidy (w.step call) := by
  have hturn := turn w call
  have htruth : ∀ {a d txn tlvs}, (w.step call).made = w.made ++ [a] → a.command.msgId ≠ uimSendApdu → w.client.channelUnknown = false →
      First w.client txn a.command.msgId a.wire.arrivals d tlvs → call.Truth tlvs :=
    fun hmade hmsg hknown hfirst => truth_of_first hk hlaw hmade hmsg hknown hfirst
  have hnumbered := hn
  unfold Numbered Makes at hnumbered
  generalize w.step call = w' at hturn htruth hnumbered
  cases hturn with
  | quiet => exact ht
  | opened aid wire o out ch hfree hknown hresult hid =>
    obtain ⟨d, hfirst, hok⟩ := first_of_ask hresult
    have ho : o = some ch := (htruth rfl open_ne_apdu hknown hfirst).2.2 ch hok hid
    have hcard : w.card ++ o.toList = [ch] := by
      rw [ht.free hfree hknown, ho]
      rfl
    refine ⟨fun ch' hch' => ?_, fun h => (Option.some_ne_none ch h).elim, ?_⟩
    · cases hch'
      exact hcard
    · show (w.card ++ o.toList).length ≤ 1
      rw [hcard]
      exact Nat.le_refl 1
  | unnamed aid wire o out hfree hknown hresult hid =>
    obtain ⟨d, hfirst, hok⟩ := first_of_ask hresult
    exact absurd hid (hnumbered _ rfl d out hfirst hok)
  | failed aid wire o e hfree hknown hresult =>
    have hcard := ht.free hfree hknown
    refine ⟨fun ch hch => (Option.some_ne_none ch (hch.symm.trans hfree)).elim, fun _ hsettled => ?_, ?_⟩
    · have hrefused : startsWith e "QMI error" = true := refused_of_known hsettled
      obtain ⟨d, tlvs, hfirst, hrefusing⟩ := first_of_refused_ask hresult hrefused
      have ho : o = none := (htruth rfl open_ne_apdu hknown hfirst).1 hrefusing
      show w.card ++ o.toList = []
      rw [hcard, ho]
      rfl
    · show (w.card ++ o.toList).length ≤ 1
      rw [hcard]
      cases o with
      | none => exact Nat.zero_le 1
      | some x => exact Nat.le_refl 1
  | apdu apdu wire ch hch => exact ⟨ht.held, ht.free, ht.one⟩
  | closed call wire b out ch hcall hch hresult =>
    have hknown : w.client.channelUnknown = false := hk.known (by rw [hch]; exact Option.some_ne_none ch)
    obtain ⟨d, hfirst, hok⟩ := first_of_ask hresult
    have htrue := htruth rfl close_ne_apdu hknown hfirst
    have hb : b = true := by
      rcases hcall with rfl | rfl
      · exact htrue hok
      · exact htrue hok
    have hcard : (if b then w.card.erase ch else w.card) = [] := by
      rw [hb, ht.held ch hch, if_pos rfl, List.erase_cons_head]
    exact ⟨fun ch hch => (Option.some_ne_none ch hch.symm).elim, fun _ _ => hcard, by rw [World.request, hcard]; exact Nat.zero_le 1⟩
  | unclosed call wire b e ch hcall hch hresult =>
    refine ⟨fun ch hch => (Option.some_ne_none ch hch.symm).elim, fun _ hknown => Bool.noConfusion hknown, ?_⟩
    show (if b then w.card.erase ch else w.card).length ≤ 1
    split
    · exact Nat.le_trans List.length_erase_le ht.one
    · exact ht.one

/-- A performed open passes for a refused one just when its answer leaves the channel out. -/
theorem told_iff (hk : Kept w) (hlaw : Lawful w call) : Told w call ↔ Numbered w call := by
  cases call with
  | transmit | closeChannel | drop => exact Iff.rfl
  | openChannel aid wire o =>
    have hturn := turn w (.openChannel aid wire o)
    have htruth : ∀ {a d txn tlvs}, (w.step (.openChannel aid wire o)).made = w.made ++ [a] → a.command.msgId ≠ uimSendApdu →
        w.client.channelUnknown = false → First w.client txn a.command.msgId a.wire.arrivals d tlvs →
        (Call.openChannel aid wire o).Truth tlvs :=
      fun hmade hmsg hknown hfirst => truth_of_first hk hlaw hmade hmsg hknown hfirst
    unfold Told Numbered Makes
    generalize w.step (.openChannel aid wire o) = w' at hturn htruth
    cases hturn with
    | quiet =>
      have hnone : ∀ a, w.made ≠ w.made ++ [a] := fun a h => by simp at h
      exact iff_of_true (fun ⟨a, h⟩ => absurd h (hnone a)) fun a h => absurd h (hnone a)
    | opened _ _ _ out ch hfree hknown hresult hid =>
      refine iff_of_true (fun _ _ => .inl (Option.some_ne_none ch)) ?_
      intro a hmade d tlvs hfirst hok
      obtain rfl := request_made hmade
      obtain rfl : out = tlvs := Except.ok.inj (hresult.symm.trans (ask_first hfirst hok))
      rw [hid]
      exact Option.some_ne_none ch
    | unnamed _ _ _ out hfree hknown hresult hid =>
      obtain ⟨d, hfirst, hok⟩ := first_of_ask hresult
      have ho := (htruth rfl open_ne_apdu hknown hfirst).2.1 hok
      refine iff_of_false ?_ fun h => absurd hid (h _ rfl d out hfirst hok)
      intro htold
      rcases htold ⟨_, rfl⟩ ho with hch | hunknown
      · exact hch hfree
      · exact Bool.noConfusion (hknown.symm.trans hunknown)
    | failed _ _ _ e hfree hknown hresult =>
      refine iff_of_true (fun _ ho => .inr ?_) ?_
      · show (!startsWith e "QMI error") = true
        cases hs : startsWith e "QMI error" with
        | false => rfl
        | true =>
          obtain ⟨d, tlvs, hfirst, hrefusing⟩ := first_of_refused_ask hresult hs
          exact absurd ((htruth rfl open_ne_apdu hknown hfirst).1 hrefusing) ho
      · intro a hmade d tlvs hfirst hok
        obtain rfl := request_made hmade
        cases hresult.symm.trans (ask_first hfirst hok)
    | closed _ _ _ _ _ hcall => rcases hcall with hcall | hcall <;> cases hcall
    | unclosed _ _ _ _ _ hcall => rcases hcall with hcall | hcall <;> cases hcall

/-! ## The run -/

theorem unknown_exec (h : w.client.channelUnknown = true) (calls : List Call) : (exec World.step w calls).client.channelUnknown = true :=
  invariant (I := fun w : World => w.client.channelUnknown = true) (fun _ _ => unknown_step) h

theorem quiet_of_unknown (h : w.client.channelUnknown = true) (aid : Bytes) (wire : Wire) (o : Option UInt8) :
    ¬ ∃ a, Makes w (.openChannel aid wire o) a := by
  intro hmakes
  obtain ⟨a, hmade⟩ := hmakes
  have hturn := turn w (.openChannel aid wire o)
  unfold Makes at hmade
  generalize w.step (.openChannel aid wire o) = w' at hturn hmade
  cases hturn with
  | quiet => simp at hmade
  | opened _ _ _ _ _ _ hknown => exact Bool.noConfusion (hknown.symm.trans h)
  | unnamed _ _ _ _ _ hknown => exact Bool.noConfusion (hknown.symm.trans h)
  | failed _ _ _ _ _ hknown => exact Bool.noConfusion (hknown.symm.trans h)
  | closed _ _ _ _ _ hcall => rcases hcall with hcall | hcall <;> cases hcall
  | unclosed _ _ _ _ _ hcall => rcases hcall with hcall | hcall <;> cases hcall

theorem channels_owned (node port : UInt32) (slot : UInt8) {calls : List Call} {wire : Wire} {b : Bool}
    (modem : Along World.step Lawful (fresh node port slot) (calls ++ [.drop wire b])) :
    Owned (fresh node port slot) (calls ++ [.drop wire b]) ↔
      Along World.step Numbered (fresh node port slot) (calls ++ [.drop wire b]) := by
  have hkept : Kept (exec World.step (fresh node port slot) (calls ++ [.drop wire b])) :=
    invariant_along (fun _ _ => kept_step) (kept_fresh node port slot) modem
  constructor
  · intro h
    have hkeep : ∀ w call, Kept w → Lawful w call ∧ Told w call → Kept (w.step call) := fun w call hk hok => kept_step hk hok.1
    refine along_of_invariant hkeep ?_ (kept_fresh node port slot) (along_and modem h.told)
    intro w call hk hok
    exact (told_iff hk hok.1).mp hok.2
  · intro h
    have hall := along_and modem h
    refine ⟨?_, ?_, ?_, held_guarded hkept.held, ?_⟩
    · have hkeep : ∀ w call, Kept w ∧ Tidy w → Lawful w call ∧ Numbered w call → Kept (w.step call) ∧ Tidy (w.step call) :=
        fun w call hw hok => ⟨kept_step hw.1 hok.1, tidy_step hw.1 hw.2 hok.1 hok.2⟩
      refine along_of_invariant hkeep ?_ ⟨kept_fresh node port slot, tidy_fresh node port slot⟩ hall
      intro w call hw hok
      exact (hkeep w call hw hok).2.unaccounted
    · have hkeep : ∀ w call, Kept w → Lawful w call ∧ Numbered w call → Kept (w.step call) := fun w call hk hok => kept_step hk hok.1
      refine along_of_invariant hkeep ?_ (kept_fresh node port slot) hall
      intro w call hk hok
      exact (told_iff hk hok.1).mpr hok.2
    · intro before call between aid wire' o after hcalls hunclear
      have hunknown : (exec World.step (fresh node port slot) (before ++ call :: between)).client.channelUnknown = true := by
        rw [exec_append, exec_cons]
        exact unknown_exec (unknown_of_unclear hunclear) between
      exact quiet_of_unknown hunknown aid wire' o
    · intro before ch after hlog
      rcases held_closed hkept.held hlog with hclosed | ⟨ho, -⟩
      · exact hclosed
      · rw [exec_snoc, drop_free] at ho
        cases ho

/-- The answer to request `k`, and nothing else. -/
def answer (k : Nat) (txn msgId : UInt16) (tlvs : List Tlv) : Wire :=
  .sent [⟨3, 7, encode qmiResponse txn msgId tlvs, some k⟩] .late

theorem lawful_answered (hmakes : Makes w call a) (hwire : a.wire = answer w.made.length txn a.command.msgId tlvs)
    (hwidth : width tlvs < 65536) (hold : ∀ asked ∈ w.made, ∀ e ∈ asked.wire.arrivals, e.answers ≠ some w.made.length)
    (htruth : call.Truth tlvs) : Lawful w call := by
  have honly : ∀ a', Makes w call a' → a' = a := fun a' h => (List.cons.inj (List.append_cancel_left (h.symm.trans hmakes))).1
  have hread : ∀ d ∈ a.wire.arrivals, d.answers = some w.made.length ∧
      ∀ txn' msgId' tlvs', Responds w.client txn' msgId' d tlvs' → msgId' = a.command.msgId ∧ tlvs' = tlvs := by
    intro d hd
    rw [hwire] at hd
    obtain rfl := List.mem_singleton.mp hd
    refine ⟨rfl, fun txn' msgId' tlvs' h => ?_⟩
    have heq := h.2.2.2.symm.trans ((decode_encode_iff ..).mpr hwidth)
    simp only [Option.some.injEq, Message.mk.injEq] at heq
    exact heq.2.2
  refine ⟨?_, ?_, ?_⟩
  · intro a' h d hd txn' msgId' tlvs' hresponds
    rw [honly a' h] at hd ⊢
    refine ⟨w.made.length, a, (hread d hd).1, List.getElem?_concat_length, ?_⟩
    exact ((hread d hd).2 _ _ _ hresponds).1.symm
  · intro a' h d hd asked hasked e he j hj
    rw [honly a' h] at hd
    rw [(hread d hd).1]
    intro hsame
    rw [← Option.some.inj hsame] at hj
    exact hold asked hasked e he hj
  · intro a' h d hd _ txn' tlvs' hresponds
    rw [honly a' h] at hd hresponds
    rw [((hread d hd).2 _ _ _ hresponds).2]
    exact htruth

theorem not_refusing (h : Successful tlvs) : ¬ Refusing tlvs := by
  intro hrefusing
  obtain ⟨e, f, more, hr⟩ := h
  obtain ⟨lo, hi, e', f', more', hr', hne⟩ := hrefusing
  have heq := Option.some.inj (hr.symm.trans hr')
  injection heq with hlo heq
  injection heq with hhi _
  exact hne ⟨hlo.symm, hhi.symm⟩

theorem lawful_quiet (h : (w.step call).made = w.made) : Lawful w call := by
  have hnone : ∀ a, ¬ Makes w call a := by
    intro a hmakes
    have hgrown := h.symm.trans hmakes
    simp at hgrown
  exact ⟨fun a h => absurd h (hnone a), fun a h => absurd h (hnone a), fun a h => absurd h (hnone a)⟩

def success : Tlv := (0x02, [0, 0, 0, 0])

def openAnswered : Call := .openChannel [0xA0] (answer 0 1 uimOpenLogicalChannel [success, (0x10, [2])]) (some 2)

def dropAnswered : Call := .drop (answer 1 2 uimLogicalChannel [success]) true

theorem channels_owned_opened : Owned (fresh 3 7 1) ([openAnswered] ++ [dropAnswered]) := by
  have hopen : Makes (fresh 3 7 1) openAnswered ⟨.openChannel [0xA0], answer 0 1 uimOpenLogicalChannel [success, (0x10, [2])]⟩ := by
    rfl
  have hdrop : Makes ((fresh 3 7 1).step openAnswered) dropAnswered ⟨.closeChannel 2, answer 1 2 uimLogicalChannel [success]⟩ := by
    rfl
  have hlaw : Lawful (fresh 3 7 1) openAnswered := by
    refine lawful_answered hopen rfl (by decide) (fun _ h => absurd h List.not_mem_nil) ⟨?_, fun _ => Option.some_ne_none 2, ?_⟩
    · intro h
      exact absurd h (not_refusing ⟨0, 0, [], rfl⟩)
    · intro ch _ hid
      exact hid
  have hlaw' : Lawful ((fresh 3 7 1).step openAnswered) dropAnswered := by
    refine lawful_answered hdrop rfl (by decide) ?_ fun _ => rfl
    intro asked hasked e he
    rw [show ((fresh 3 7 1).step openAnswered).made = _ from hopen] at hasked
    obtain rfl := List.mem_singleton.mp hasked
    obtain rfl := List.mem_singleton.mp he
    exact nofun
  have modem : Along World.step Lawful (fresh 3 7 1) ([openAnswered] ++ [dropAnswered]) := ⟨hlaw, hlaw', trivial⟩
  refine (channels_owned 3 7 1 modem).mpr ⟨?_, trivial, trivial⟩
  exact (told_iff (kept_fresh 3 7 1) hlaw).mp fun _ _ => .inl (Option.some_ne_none 2)

/-- The answer says that a channel was opened and not which. -/
def namelessOpen (k : Nat) (txn : UInt16) (ch : UInt8) : Call :=
  .openChannel [0xA0] (answer k txn uimOpenLogicalChannel [success]) (some ch)

theorem lawful_nameless {k : Nat} {ch : UInt8} (hk : k = w.made.length)
    (hmakes : Makes w (namelessOpen k txn ch) ⟨.openChannel [0xA0], answer k txn uimOpenLogicalChannel [success]⟩)
    (hold : ∀ asked ∈ w.made, ∀ e ∈ asked.wire.arrivals, e.answers ≠ some k) : Lawful w (namelessOpen k txn ch) := by
  subst hk
  refine lawful_answered hmakes rfl (by decide) hold ⟨?_, fun _ => Option.some_ne_none ch, ?_⟩
  · intro h
    exact absurd h (not_refusing ⟨0, 0, [], rfl⟩)
  · intro ch' _ hid
    exact absurd hid nofun

/-- Such an answer frees the client for the next open, and leaves the channel to nobody. -/
theorem nameless_channels :
    Along World.step Lawful (fresh 3 7 1) [namelessOpen 0 1 2, namelessOpen 1 2 3, .drop (.sent [] .late) false] ∧
      (exec World.step (fresh 3 7 1) [namelessOpen 0 1 2, namelessOpen 1 2 3, .drop (.sent [] .late) false]).unaccounted = [2, 3] ∧
      ¬ Owned (fresh 3 7 1) [namelessOpen 0 1 2, namelessOpen 1 2 3, .drop (.sent [] .late) false] := by
  have hfirst : Makes (fresh 3 7 1) (namelessOpen 0 1 2) ⟨.openChannel [0xA0], answer 0 1 uimOpenLogicalChannel [success]⟩ := by
    rfl
  have hsecond : Makes ((fresh 3 7 1).step (namelessOpen 0 1 2)) (namelessOpen 1 2 3)
      ⟨.openChannel [0xA0], answer 1 2 uimOpenLogicalChannel [success]⟩ := by
    rfl
  have hcard : (((fresh 3 7 1).step (namelessOpen 0 1 2)).step (namelessOpen 1 2 3)).unaccounted = [2, 3] := by
    rfl
  refine ⟨⟨lawful_nameless rfl hfirst fun _ h => absurd h List.not_mem_nil, lawful_nameless rfl hsecond ?_, lawful_quiet rfl, trivial⟩,
    hcard, ?_⟩
  · intro asked hasked e he
    rw [show ((fresh 3 7 1).step (namelessOpen 0 1 2)).made = _ from hfirst] at hasked
    obtain rfl := List.mem_singleton.mp hasked
    obtain rfl := List.mem_singleton.mp he
    exact nofun
  · intro h
    have htwo : (((fresh 3 7 1).step (namelessOpen 0 1 2)).step (namelessOpen 1 2 3)).unaccounted.length ≤ 1 := h.unaccounted.2.1
    rw [hcard] at htwo
    exact absurd htwo (by decide)

end OpenU60.Qmi
