/-
  OpenU60.Qmi.Request — requests to the modem and what is taken for their answers
  (`zte-agent/src/qrtr_uim.rs`: `request_until`, and the TLVs that `open_channel`, `close_channel` and
  `transmit` give it).

  A datagram says (as a ghost nothing in the code reads) which request the modem made it an answer to.
  Requests are numbered from zero; `k % 65535 + 1` is the transaction of request `k`.
  - `requests_exact`: each request reads as it was meant, and what is returned for it is the first
    response to it and nothing older, exactly when every APDU is shorter than 65523 bytes and no answer to
    the same request a multiple of 65535 requests ago comes first.
  - `long_apdu`: an APDU of 65523 bytes is let through, and its message is an empty one.
-/

import Mathlib
import OpenU60.Qmi.Message

namespace OpenU60.Qmi

open OpenU60.Lib

def qrtrPortCtrl : UInt32 := 0xFFFFFFFE
def qrtrTypeDelServer : Nat := 5

def uimSendApdu : UInt16 := 0x003B
def uimLogicalChannel : UInt16 := 0x003F
def uimOpenLogicalChannel : UInt16 := 0x0042

/-! ## The code -/

structure UimClient where
  node : UInt32
  port : UInt32
  slot : UInt8
  txn : UInt16
  channel : Option UInt8
  /-- An open or close was sent but its answer never came: don't guess what the card holds. -/
  channelUnknown : Bool
  deriving DecidableEq

/-- What `connect` makes once it has found the service. -/
def connected (node port : UInt32) (slot : UInt8) : UimClient := ⟨node, port, slot, 0, none, false⟩

/-- What `recv_from` gives: the sender and the bytes it left in the buffer. -/
structure Datagram where
  node : UInt32
  port : UInt32
  bytes : Bytes
  /-- Which of the client's requests it answers; only the laws speak of it. -/
  answers : Option Nat

/-- Why there is no further datagram. -/
inductive Failure where
  | late
  | poll (os : String)
  | receive (os : String)

def Failure.text : Failure → String
  | .late => "modem did not answer in time"
  | .poll os => "QRTR poll: " ++ os
  | .receive os => "QRTR receive: " ++ os

/-- What the socket does for a request. -/
inductive Wire where
  | unsent (os : String)
  | sent (arrivals : List Datagram) (failure : Failure)

def le32 (b : Bytes) (i : Nat) : Nat := BigEndian.ofBytes ((b.drop i).take 4).reverse

/-- What a datagram is to a request that waits. -/
inductive Heard where
  | gone
  | skipped
  | response (tlvs : List Tlv)

def hear (c : UimClient) (txn msgId : UInt16) (d : Datagram) : Heard :=
  if d.port = qrtrPortCtrl then
    if 20 ≤ d.bytes.length ∧ le32 d.bytes 0 = qrtrTypeDelServer ∧ le32 d.bytes 12 = c.node.toNat ∧ le32 d.bytes 16 = c.port.toNat
    then .gone
    else .skipped
  else if d.node ≠ c.node ∨ d.port ≠ c.port then .skipped
  else
    match decode d.bytes with
    | none => .skipped
    | some m =>
      -- indications and stale answers
      if m.kind ≠ qmiResponse ∨ m.txn ≠ txn ∨ m.msgId ≠ msgId then .skipped
      else .response m.tlvs

def await (c : UimClient) (txn msgId : UInt16) (failure : Failure) : List Datagram → Except String (List Tlv)
  | [] => .error failure.text
  | d :: arrivals =>
    match hear c txn msgId d with
    | .gone => .error "UIM service went away"
    | .skipped => await c txn msgId failure arrivals
    | .response tlvs =>
      match checkResult tlvs with
      | .error e => .error e
      | .ok () => .ok tlvs

/-- `self.txn.wrapping_add(1).max(1)`. -/
def nextTxn (txn : UInt16) : UInt16 := max (txn + 1) 1

/-- The client after a request, the bytes given to the socket and what is returned. -/
structure Exchange where
  client : UimClient
  message : Bytes
  result : Except String (List Tlv)

def UimClient.requestUntil (c : UimClient) (msgId : UInt16) (tlvs : List Tlv) (w : Wire) : Exchange :=
  let txn := nextTxn c.txn
  ⟨{ c with txn := txn }, encode qmiRequest txn msgId tlvs,
    match w with
    | .unsent os => .error ("QRTR send: " ++ os)
    | .sent arrivals failure => await c txn msgId failure arrivals⟩

/-- The requests that are ever made. -/
inductive Command where
  | openChannel (aid : Bytes)
  | closeChannel (channel : UInt8)
  | sendApdu (apdu : Bytes) (channel : UInt8)
  deriving DecidableEq

def Command.msgId : Command → UInt16
  | .openChannel _ => uimOpenLogicalChannel
  | .closeChannel _ => uimLogicalChannel
  | .sendApdu _ _ => uimSendApdu

def Command.tlvs (slot : UInt8) : Command → List Tlv
  | .openChannel aid => [(0x01, [slot]), (0x10, UInt8.ofNat aid.length :: aid)]
  | .closeChannel channel => [(0x01, [slot]), (0x11, [channel])]
  | .sendApdu apdu channel => [(0x01, [slot]), (0x02, toLe16 apdu.length ++ apdu), (0x10, [channel])]

/-- What the callers let through. -/
def Command.Accepted : Command → Prop
  | .openChannel aid => aid ≠ [] ∧ aid.length ≤ 255
  | .closeChannel _ => True
  | .sendApdu apdu _ => apdu.length ≤ 65535

/-! ## Requests one after the other -/

structure Ask where
  command : Command
  wire : Wire

def UimClient.ask (c : UimClient) (a : Ask) : Exchange := c.requestUntil a.command.msgId (a.command.tlvs c.slot) a.wire

def UimClient.after (c : UimClient) (asks : List Ask) : UimClient := asks.foldl (fun c a => (c.ask a).client) c

/-- The transaction of the request that comes next. -/
def UimClient.txnAfter (c : UimClient) (asks : List Ask) : UInt16 := nextTxn (c.after asks).txn

def Wire.arrivals : Wire → List Datagram
  | .unsent _ => []
  | .sent arrivals _ => arrivals

/-- The service's notice that it is gone. -/
def Gone (c : UimClient) (d : Datagram) : Prop :=
  d.port = qrtrPortCtrl ∧ 20 ≤ d.bytes.length ∧ le32 d.bytes 0 = qrtrTypeDelServer ∧ le32 d.bytes 12 = c.node.toNat ∧
    le32 d.bytes 16 = c.port.toNat

/-- A well-formed response of the service's own node and port (not a control message) to such a request. -/
def Responds (c : UimClient) (txn msgId : UInt16) (d : Datagram) (tlvs : List Tlv) : Prop :=
  d.port ≠ qrtrPortCtrl ∧ d.node = c.node ∧ d.port = c.port ∧ decode d.bytes = some ⟨qmiResponse, txn, msgId, tlvs⟩

/-- No response among these, and the service is still there. -/
def Passed (c : UimClient) (txn msgId : UInt16) (arrivals : List Datagram) : Prop :=
  ∀ d ∈ arrivals, ¬ Gone c d ∧ ∀ tlvs, ¬ Responds c txn msgId d tlvs

/-- The first response that a request receives. -/
def First (c : UimClient) (txn msgId : UInt16) (arrivals : List Datagram) (d : Datagram) (tlvs : List Tlv) : Prop :=
  ∃ before after, arrivals = before ++ d :: after ∧ Passed c txn msgId before ∧ Responds c txn msgId d tlvs

/-- Its result is there and is success. -/
def Successful (tlvs : List Tlv) : Prop := ∃ e f more, tlv tlvs 0x02 = some (0 :: 0 :: e :: f :: more)

/-- The modem gives an answer the transaction and the message id of a request it has been sent. -/
def Honest (c : UimClient) (asks : List Ask) : Prop :=
  ∀ before a after, asks = before ++ a :: after → ∀ d ∈ a.wire.arrivals, ∀ j, d.answers = some j →
    ∃ asked, (before ++ [a])[j]? = some asked ∧
      ∃ tlvs, Responds c (c.txnAfter (asks.take j)) asked.command.msgId d tlvs

/-- What is right about a request after others. -/
structure Exact (c : UimClient) (before : List Ask) (a : Ask) : Prop where
  reads : ∀ kind txn, decode (encode kind txn a.command.msgId (a.command.tlvs c.slot)) =
    some ⟨kind, txn, a.command.msgId, a.command.tlvs c.slot⟩
  numbered : c.txnAfter before ≠ 0
  sent : ((c.after before).ask a).message = encode qmiRequest (c.txnAfter before) a.command.msgId (a.command.tlvs c.slot)
  succeeds : ∀ d tlvs, First c (c.txnAfter before) a.command.msgId a.wire.arrivals d tlvs → Successful tlvs →
    ((c.after before).ask a).result = .ok tlvs
  fails : ∀ d tlvs, First c (c.txnAfter before) a.command.msgId a.wire.arrivals d tlvs → ¬ Successful tlvs →
    ∃ e, ((c.after before).ask a).result = .error e
  only : ∀ tlvs, ((c.after before).ask a).result = .ok tlvs →
    ∃ d, First c (c.txnAfter before) a.command.msgId a.wire.arrivals d tlvs
  fresh : ∀ d tlvs, First c (c.txnAfter before) a.command.msgId a.wire.arrivals d tlvs → ∀ j < before.length, d.answers ≠ some j

/-- Both lengths of the message have room for it. -/
def Command.Fits : Command → Prop
  | .sendApdu apdu _ => apdu.length < 65523
  | _ => True

/-- First comes the answer to a request of the same message id, a multiple of 65535 requests ago. -/
def Overtaken (c : UimClient) (before : List Ask) (a : Ask) : Prop :=
  ∃ passed d rest j asked, a.wire.arrivals = passed ++ d :: rest ∧ Passed c (c.txnAfter before) a.command.msgId passed ∧
    d.answers = some j ∧ j < before.length ∧ before.length % 65535 = j % 65535 ∧ before[j]? = some asked ∧
    asked.command.msgId = a.command.msgId

/-! ## Transactions -/

variable {c : UimClient} {before asks : List Ask} {a : Ask} {txn msgId : UInt16} {d : Datagram} {tlvs : List Tlv}
  {arrivals : List Datagram} {failure : Failure}

theorem nextTxn_toNat (txn : UInt16) : (nextTxn txn).toNat = if txn.toNat = 65535 then 1 else txn.toNat + 1 := by
  have hlt := txn.toNat_lt
  have hadd : (txn + 1).toNat = (txn.toNat + 1) % 65536 := UInt16.toNat_add txn 1
  have hmax : (nextTxn txn).toNat = max (txn + 1).toNat 1 := by
    unfold nextTxn
    rw [UInt16.max_def]
    split
    case isTrue hle =>
      rw [UInt16.le_iff_toNat_le] at hle
      exact (Nat.max_eq_right hle).symm
    case isFalse hle =>
      rw [UInt16.le_iff_toNat_le] at hle
      exact (Nat.max_eq_left (Nat.le_of_not_le hle)).symm
  rw [hmax, hadd]
  split <;> omega

theorem after_snoc (c : UimClient) (before : List Ask) (a : Ask) : c.after (before ++ [a]) = ((c.after before).ask a).client := by
  rw [UimClient.after, List.foldl_append]
  rfl

/-- Requests change nothing but the transaction. -/
theorem after_eq (c : UimClient) (asks : List Ask) : c.after asks = { c with txn := (c.after asks).txn } := by
  induction asks using List.reverseRecOn with
  | nil => rfl
  | append_singleton asks a ih =>
    have hlast : c.after (asks ++ [a]) = { c.after asks with txn := c.txnAfter asks } := after_snoc c asks a
    rw [hlast, ih]

theorem txn_after (node port : UInt32) (slot : UInt8) (asks : List Ask) :
    ((connected node port slot).txnAfter asks).toNat = asks.length % 65535 + 1 := by
  induction asks using List.reverseRecOn with
  | nil => rfl
  | append_singleton asks a ih =>
    have hlast : ((connected node port slot).after (asks ++ [a])).txn = (connected node port slot).txnAfter asks := by
      rw [after_snoc]
      rfl
    rw [UimClient.txnAfter, hlast, nextTxn_toNat, ih, List.length_append, List.length_singleton]
    split <;> omega

/-- The wrap leaves out zero. -/
theorem txnAfter_ne_zero (c : UimClient) (asks : List Ask) : c.txnAfter asks ≠ 0 := by
  intro hzero
  have hnext := nextTxn_toNat (c.after asks).txn
  rw [UimClient.txnAfter] at hzero
  rw [hzero] at hnext
  split at hnext <;> simp at hnext

theorem txnAfter_eq_iff (node port : UInt32) (slot : UInt8) (asks more : List Ask) :
    (connected node port slot).txnAfter asks = (connected node port slot).txnAfter more ↔ asks.length % 65535 = more.length % 65535 := by
  rw [← UInt16.toNat_inj, txn_after, txn_after]
  omega

/-! ## The wait -/

theorem successful_iff : checkResult tlvs = .ok () ↔ Successful tlvs := by
  unfold checkResult Successful
  cases hr : tlv tlvs 0x02 with
  | none => simp
  | some r =>
    match r with
    | [] | [_] | [_, _] | [_, _, _] => simp
    | lo :: hi :: e :: f :: more =>
      have hstatus : le16 (lo :: hi :: e :: f :: more) 0 = some (hi.toNat * 256 + lo.toNat) := by
        simp [le16, BigEndian.ofBytes]
      have hzero : hi.toNat * 256 + lo.toNat = 0 ↔ lo = 0 ∧ hi = 0 := by
        rw [← UInt8.toNat_inj, ← UInt8.toNat_inj, UInt8.toNat_zero]
        omega
      have hlong : ¬ (lo :: hi :: e :: f :: more).length < 4 := by
        simp only [List.length_cons]
        omega
      simp only [if_neg hlong, hstatus, Option.some.injEq, hzero]
      split
      case isTrue hok => simp [hok]
      case isFalse hbad =>
        simp only [reduceCtorEq, List.cons.injEq, false_iff]
        intro h
        obtain ⟨-, -, -, hlo, hhi, -⟩ := h
        exact hbad ⟨hlo, hhi⟩

theorem hear_gone : hear c txn msgId d = .gone ↔ Gone c d := by
  unfold hear Gone
  by_cases hport : d.port = qrtrPortCtrl
  · rw [if_pos hport]
    split
    case isTrue hgone => simp only [hport, hgone, and_self]
    case isFalse hgone => simp only [hport, hgone, and_false, reduceCtorEq]
  · rw [if_neg hport]
    constructor
    · intro h
      split at h
      · cases h
      · split at h
        · cases h
        · split at h <;> cases h
    · intro h
      exact absurd h.1 hport

theorem hear_response : hear c txn msgId d = .response tlvs ↔ Responds c txn msgId d tlvs := by
  unfold hear Responds
  by_cases hport : d.port = qrtrPortCtrl
  · rw [if_pos hport]
    constructor
    · intro h
      split at h <;> cases h
    · intro h
      exact absurd hport h.1
  · rw [if_neg hport]
    by_cases hown : d.node ≠ c.node ∨ d.port ≠ c.port
    · rw [if_pos hown]
      constructor
      · intro h
        cases h
      · intro h
        exact absurd h.2.1 (hown.resolve_right (not_not.mpr h.2.2.1))
    · have hfrom : d.node = c.node ∧ d.port = c.port := by
        push Not at hown
        exact hown
      rw [if_neg hown]
      cases hd : decode d.bytes with
      | none => simp
      | some m =>
        obtain ⟨kind, t, i, v⟩ := m
        by_cases hother : kind ≠ qmiResponse ∨ t ≠ txn ∨ i ≠ msgId
        · simp only [if_pos hother]
          constructor
          · intro h
            cases h
          · intro h
            simp only [Option.some.injEq, Message.mk.injEq] at h
            obtain ⟨-, -, -, rfl, rfl, rfl, -⟩ := h
            simp at hother
        · simp only [if_neg hother]
          push Not at hother
          obtain ⟨rfl, rfl, rfl⟩ := hother
          simp [hport, hfrom.1, ← hfrom.2]

theorem await_passed {before after : List Datagram} (h : Passed c txn msgId before) :
    await c txn msgId failure (before ++ after) = await c txn msgId failure after := by
  induction before with
  | nil => rfl
  | cons d before ih =>
    have hd := h d List.mem_cons_self
    have hskip : hear c txn msgId d = .skipped := by
      cases hheard : hear c txn msgId d with
      | gone => exact absurd (hear_gone.mp hheard) hd.1
      | skipped => rfl
      | response tlvs => exact absurd (hear_response.mp hheard) (hd.2 tlvs)
    rw [List.cons_append, await, hskip]
    exact ih fun e he => h e (List.mem_cons_of_mem d he)

theorem await_first (h : First c txn msgId arrivals d tlvs) :
    await c txn msgId failure arrivals =
      match checkResult tlvs with
      | .error e => .error e
      | .ok () => .ok tlvs := by
  obtain ⟨before, after, rfl, hpassed, hd⟩ := h
  rw [await_passed hpassed, await, hear_response.mpr hd]

theorem first_head (h : hear c txn msgId d = .response tlvs) : First c txn msgId (d :: arrivals) d tlvs :=
  ⟨[], arrivals, rfl, fun _ he => absurd he List.not_mem_nil, hear_response.mp h⟩

/-- What is skipped delays the first response. -/
theorem First.cons {e : Datagram} (h : First c txn msgId arrivals e tlvs) (hskip : hear c txn msgId d = .skipped) :
    First c txn msgId (d :: arrivals) e tlvs := by
  obtain ⟨before, after, rfl, hpassed, he⟩ := h
  refine ⟨d :: before, after, rfl, ?_, he⟩
  intro f hf
  rcases List.mem_cons.mp hf with rfl | hf
  · constructor
    · intro hgone
      rw [hear_gone.mpr hgone] at hskip
      cases hskip
    · intro tlvs hresponds
      rw [hear_response.mpr hresponds] at hskip
      cases hskip
  · exact hpassed f hf

theorem First.mem (h : First c txn msgId arrivals d tlvs) : d ∈ arrivals := by
  obtain ⟨before, after, rfl, -⟩ := h
  exact List.mem_append_right before List.mem_cons_self

theorem first_of_await (h : await c txn msgId failure arrivals = .ok tlvs) :
    ∃ d, First c txn msgId arrivals d tlvs ∧ Successful tlvs := by
  induction arrivals with
  | nil => cases h
  | cons d arrivals ih =>
    unfold await at h
    cases hheard : hear c txn msgId d with
    | gone =>
      rw [hheard] at h
      cases h
    | skipped =>
      rw [hheard] at h
      obtain ⟨e, he, hok⟩ := ih h
      exact ⟨e, he.cons hheard, hok⟩
    | response found =>
      have hfound : found = tlvs ∧ checkResult found = .ok () := by
        simp only [hheard] at h
        split at h <;> cases h
        exact ⟨rfl, by assumption⟩
      obtain ⟨rfl, hok⟩ := hfound
      exact ⟨d, first_head hheard, successful_iff.mp hok⟩

theorem hear_after (c : UimClient) (asks : List Ask) : hear (c.after asks) txn msgId d = hear c txn msgId d := by
  rw [after_eq]
  rfl

theorem await_after (c : UimClient) (asks : List Ask) :
    await (c.after asks) txn msgId failure arrivals = await c txn msgId failure arrivals := by
  induction arrivals with
  | nil => rfl
  | cons d arrivals ih => rw [await, await, hear_after, ih]

/-- What a request returns, in the client that makes the first of them all. -/
theorem result_eq (c : UimClient) (before : List Ask) (a : Ask) :
    ((c.after before).ask a).result =
      match a.wire with
      | .unsent os => .error ("QRTR send: " ++ os)
      | .sent arrivals failure => await c (c.txnAfter before) a.command.msgId failure arrivals := by
  unfold UimClient.ask UimClient.requestUntil UimClient.txnAfter
  cases a.wire with
  | unsent os => rfl
  | sent arrivals failure => exact await_after c before

theorem result_first (h : First c (c.txnAfter before) a.command.msgId a.wire.arrivals d tlvs) :
    ((c.after before).ask a).result =
      match checkResult tlvs with
      | .error e => .error e
      | .ok () => .ok tlvs := by
  rw [result_eq]
  cases hwire : a.wire with
  | unsent os =>
    obtain ⟨passed, rest, hsplit, -⟩ := h
    rw [hwire] at hsplit
    exact absurd hsplit.symm (List.append_ne_nil_of_right_ne_nil passed (List.cons_ne_nil d rest))
  | sent arrivals failure =>
    rw [hwire] at h
    exact await_first h

theorem first_of_result (h : ((c.after before).ask a).result = .ok tlvs) :
    ∃ d, First c (c.txnAfter before) a.command.msgId a.wire.arrivals d tlvs ∧ Successful tlvs := by
  rw [result_eq] at h
  cases hwire : a.wire with
  | unsent os =>
    rw [hwire] at h
    cases h
  | sent arrivals failure =>
    rw [hwire] at h
    exact first_of_await h

/-! ## The messages -/

theorem width_lt_iff {command : Command} (h : command.Accepted) (slot : UInt8) : width (command.tlvs slot) < 65536 ↔ command.Fits := by
  cases command with
  | openChannel aid =>
    obtain ⟨-, hlength⟩ := h
    simp only [Command.tlvs, width, List.length_cons, List.length_nil, Command.Fits, iff_true]
    omega
  | closeChannel channel =>
    have hwidth : width (Command.tlvs slot (.closeChannel channel)) = 8 := rfl
    simp only [hwidth, Command.Fits, Nat.reduceLT]
  | sendApdu apdu channel =>
    simp only [Command.tlvs, width, List.length_cons, List.length_nil, List.length_append, length_toLe16, Command.Fits]
    omega

theorem reads_iff {command : Command} (h : command.Accepted) (slot : UInt8) :
    (∀ kind txn, decode (encode kind txn command.msgId (command.tlvs slot)) = some ⟨kind, txn, command.msgId, command.tlvs slot⟩) ↔
      command.Fits := by
  rw [← width_lt_iff h slot]
  constructor
  · intro hreads
    exact (decode_encode_iff ..).mp (hreads 0 0)
  · intro hfits kind txn
    exact (decode_encode_iff ..).mpr hfits

/-! ## Old answers -/

theorem responds_inj {txn' msgId' : UInt16} {tlvs' : List Tlv} (h : Responds c txn msgId d tlvs) (h' : Responds c txn' msgId' d tlvs') :
    txn = txn' ∧ msgId = msgId' := by
  have heq := h.2.2.2.symm.trans h'.2.2.2
  simp only [Option.some.injEq, Message.mk.injEq] at heq
  exact ⟨heq.2.1, heq.2.2.1⟩

/-- An old answer is the first response exactly when it overtakes the request's own. -/
theorem stale_iff (node port : UInt32) (slot : UInt8) {asks after : List Ask} (honest : Honest (connected node port slot) asks)
    (hasks : asks = before ++ a :: after) :
    (∃ d tlvs, First (connected node port slot) ((connected node port slot).txnAfter before) a.command.msgId a.wire.arrivals d tlvs ∧
      ∃ j < before.length, d.answers = some j) ↔ Overtaken (connected node port slot) before a := by
  constructor
  · intro h
    obtain ⟨d, tlvs, hfirst, j, hj, hanswers⟩ := h
    have hmem := hfirst.mem
    obtain ⟨passed, rest, hsplit, hpassed, hd⟩ := hfirst
    obtain ⟨asked, hasked, tlvs', hd'⟩ := honest before a after hasks d hmem j hanswers
    obtain ⟨htxn, hmsg⟩ := responds_inj hd hd'
    have htake : (asks.take j).length = j := by
      rw [hasks, List.length_take_of_le]
      rw [List.length_append]
      omega
    have hmod := (txnAfter_eq_iff node port slot before (asks.take j)).mp htxn
    rw [htake] at hmod
    rw [List.getElem?_append_left hj] at hasked
    exact ⟨passed, d, rest, j, asked, hsplit, hpassed, hanswers, hj, hmod, hasked, hmsg.symm⟩
  · intro h
    obtain ⟨passed, d, rest, j, asked, hsplit, hpassed, hanswers, hj, hmod, hasked, hmsg⟩ := h
    have hmem : d ∈ a.wire.arrivals := by
      rw [hsplit]
      exact List.mem_append_right _ List.mem_cons_self
    obtain ⟨asked', hasked', tlvs, hd⟩ := honest before a after hasks d hmem j hanswers
    rw [List.getElem?_append_left hj, hasked] at hasked'
    cases hasked'
    have htake : (asks.take j).length = j := by
      rw [hasks, List.length_take_of_le]
      rw [List.length_append]
      omega
    have htxn : (connected node port slot).txnAfter before = (connected node port slot).txnAfter (asks.take j) := by
      rw [txnAfter_eq_iff, htake]
      exact hmod
    rw [hmsg, ← htxn] at hd
    exact ⟨d, tlvs, ⟨passed, rest, hsplit, hpassed, hd⟩, j, hj, hanswers⟩

/-- All but the reading of the message and the freshness holds whatever arrives. -/
theorem exact_iff (c : UimClient) (before : List Ask) (a : Ask) :
    Exact c before a ↔
      (∀ kind txn, decode (encode kind txn a.command.msgId (a.command.tlvs c.slot)) =
        some ⟨kind, txn, a.command.msgId, a.command.tlvs c.slot⟩) ∧
      ∀ d tlvs, First c (c.txnAfter before) a.command.msgId a.wire.arrivals d tlvs → ∀ j < before.length, d.answers ≠ some j := by
  constructor
  · intro h
    exact ⟨h.reads, h.fresh⟩
  · intro h
    refine ⟨h.1, txnAfter_ne_zero c before, ?_, ?_, ?_, ?_, h.2⟩
    · rw [after_eq]
      rfl
    · intro d tlvs hfirst hok
      rw [result_first hfirst, successful_iff.mpr hok]
    · intro d tlvs hfirst hbad
      rw [result_first hfirst]
      cases hcheck : checkResult tlvs with
      | error e => exact ⟨e, rfl⟩
      | ok u => exact absurd (successful_iff.mp hcheck) hbad
    · intro tlvs hok
      obtain ⟨d, hfirst, -⟩ := first_of_result hok
      exact ⟨d, hfirst⟩

theorem requests_exact (node port : UInt32) (slot : UInt8) {asks : List Ask} (haccepted : ∀ a ∈ asks, a.command.Accepted)
    (honest : Honest (connected node port slot) asks) :
    (∀ before a after, asks = before ++ a :: after → Exact (connected node port slot) before a) ↔
      ∀ before a after, asks = before ++ a :: after → a.command.Fits ∧ ¬ Overtaken (connected node port slot) before a := by
  refine forall_congr' fun before => forall_congr' fun a => forall_congr' fun after => imp_congr_right fun hasks => ?_
  have hmem : a ∈ asks := by
    rw [hasks]
    exact List.mem_append_right _ List.mem_cons_self
  rw [exact_iff, reads_iff (haccepted a hmem), ← stale_iff node port slot honest hasks]
  refine and_congr_right fun _ => ?_
  constructor
  · intro hfresh h
    obtain ⟨d, tlvs, hfirst, j, hj, hanswers⟩ := h
    exact hfresh d tlvs hfirst j hj hanswers
  · intro h d tlvs hfirst j hj hanswers
    exact h ⟨d, tlvs, hfirst, j, hj, hanswers⟩

/-- Its answer is late. -/
def lateOpen : Ask := ⟨.openChannel [0xA0], .sent [] .late⟩

/-- It has the open's answer to read before its own. -/
def nextApdu : Ask :=
  ⟨.sendApdu [0x80] 2, .sent
    [⟨3, 7, encode qmiResponse 1 uimOpenLogicalChannel [(0x02, [0, 0, 0, 0]), (0x10, [2])], some 0⟩,
      ⟨3, 7, encode qmiResponse 2 uimSendApdu [(0x02, [0, 0, 0, 0]), (0x10, [2, 0, 0x90, 0x00])], some 1⟩] .late⟩

theorem requests_exact_late : Exact (connected 3 7 1) [] lateOpen ∧ Exact (connected 3 7 1) [lateOpen] nextApdu := by
  have hsplit : ∀ before a after, [lateOpen, nextApdu] = before ++ a :: after →
      (before = [] ∧ a = lateOpen) ∨ (before = [lateOpen] ∧ a = nextApdu) := by
    intro before a after h
    match before, h with
    | [], h => exact .inl ⟨rfl, (List.cons.inj h).1.symm⟩
    | [b], h =>
      obtain ⟨hb, hrest⟩ := List.cons.inj h
      exact .inr ⟨by rw [hb], (List.cons.inj hrest).1.symm⟩
    | _ :: _ :: _, h => simp at h
  have haccepted : ∀ a ∈ [lateOpen, nextApdu], a.command.Accepted := by
    intro a ha
    simp only [List.mem_cons, List.not_mem_nil, or_false] at ha
    rcases ha with rfl | rfl
    · exact ⟨List.cons_ne_nil _ _, by decide⟩
    · show 1 ≤ 65535
      decide
  have honest : Honest (connected 3 7 1) [lateOpen, nextApdu] := by
    intro before a after h d hd j hj
    rcases hsplit before a after h with ⟨rfl, rfl⟩ | ⟨rfl, rfl⟩
    · exact absurd hd List.not_mem_nil
    · simp only [nextApdu, Wire.arrivals, List.mem_cons, List.not_mem_nil, or_false] at hd
      rcases hd with rfl | rfl <;> cases hj
      · exact ⟨lateOpen, rfl, _, by decide, rfl, rfl, (decode_encode_iff _ _ _ _).mpr (by decide)⟩
      · exact ⟨nextApdu, rfl, _, by decide, rfl, rfl, (decode_encode_iff _ _ _ _).mpr (by decide)⟩
  have hexact := (requests_exact 3 7 1 haccepted honest).mpr ?_
  · exact ⟨hexact [] _ _ rfl, hexact [lateOpen] _ _ rfl⟩
  intro before a after h
  rcases hsplit before a after h with ⟨rfl, rfl⟩ | ⟨rfl, rfl⟩
  · refine ⟨trivial, ?_⟩
    intro hover
    obtain ⟨_, _, _, _, _, _, _, _, hj, _⟩ := hover
    exact absurd hj (Nat.not_lt_zero _)
  · refine ⟨show 1 < 65523 by decide, ?_⟩
    intro hover
    obtain ⟨_, _, _, j, _, _, _, _, hj, hmod, _⟩ := hover
    rw [List.length_singleton] at hj hmod
    omega

/-- The check on the length leaves no room for what stands around the APDU. -/
theorem long_apdu :
    (Command.sendApdu (List.replicate 65523 0) 2).Accepted ∧
      decode (encode qmiRequest 1 uimSendApdu (Command.tlvs 1 (.sendApdu (List.replicate 65523 0) 2))) =
        some ⟨qmiRequest, 1, uimSendApdu, []⟩ ∧
      ¬ Exact (connected 3 7 1) [] ⟨.sendApdu (List.replicate 65523 0) 2, .sent [] .late⟩ := by
  have haccepted : (Command.sendApdu (List.replicate 65523 0) 2).Accepted := by
    rw [Command.Accepted, List.length_replicate]
    decide
  have hwidth (apdu : List UInt8) : width (Command.tlvs 1 (.sendApdu apdu 2)) = apdu.length + 13 := by
    simp only [Command.tlvs, width, List.length_cons, List.length_nil, List.length_append, length_toLe16]
    omega
  refine ⟨haccepted, ?_, ?_⟩
  · rw [decode_encode, hwidth, List.length_replicate, Nat.mod_self, List.take_zero]
    rfl
  · intro h
    have hfits := (reads_iff haccepted 1).mp h.reads
    rw [Command.Fits, List.length_replicate] at hfits
    exact absurd hfits (by decide)

end OpenU60.Qmi
