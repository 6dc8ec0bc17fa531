/-
  OpenU60.Qmi.Message — QMI messages over QRTR (`zte-agent/src/qrtr_uim.rs`: `encode`, `decode`,
  `check_result`).

  Both lengths of a message are sixteen bits wide and `encode` narrows to them without a look; `decode`
  believes them. A value is shorter than the body it stands in, so the body alone decides:
  - `decode_encode_iff`: a message comes back as it was exactly when its TLVs take less than 2^16 bytes.
-/

import OpenU60.Lib.BigEndian

namespace OpenU60.Qmi

open OpenU60.Lib

abbrev Bytes := List UInt8

abbrev Tlv := UInt8 × Bytes

def qmiRequest : UInt8 := 0x00
def qmiResponse : UInt8 := 0x02

/-! ## The code -/

/-- `(n as u16).to_le_bytes()`. -/
def toLe16 (n : Nat) : Bytes := (BigEndian.toBytes 2 n).reverse

def le16 (b : Bytes) (i : Nat) : Option Nat :=
  if i + 2 ≤ b.length then some (BigEndian.ofBytes ((b.drop i).take 2).reverse) else none

def encodeTlvs (tlvs : List Tlv) : Bytes := tlvs.flatMap fun (t, v) => t :: (toLe16 v.length ++ v)

/-- One QMI message as sent over QRTR: type, transaction, message id, TLVs. -/
def encode (kind : UInt8) (txn msgId : UInt16) (tlvs : List Tlv) : Bytes :=
  kind :: (toLe16 txn.toNat ++ toLe16 msgId.toNat ++ toLe16 (encodeTlvs tlvs).length ++ encodeTlvs tlvs)

structure Message where
  kind : UInt8
  txn : UInt16
  msgId : UInt16
  tlvs : List Tlv
  deriving DecidableEq

/-- The loop of `decode`; each TLV takes three bytes at least. -/
def decodeTlvs : Nat → Bytes → Option (List Tlv)
  | _, [] => some []
  | 0, _ :: _ => none
  | fuel + 1, t :: rest =>
    match le16 (t :: rest) 1 with
    | none => none
    | some l =>
      if 2 + l ≤ rest.length then (decodeTlvs fuel (rest.drop (2 + l))).map ((t, (rest.drop 2).take l) :: ·)
      else none

def decode (buf : Bytes) : Option Message := do
  let kind ← buf.head?
  let txn ← le16 buf 1
  let msgId ← le16 buf 3
  let len ← le16 buf 5
  if 7 + len ≤ buf.length then
    let tlvs ← decodeTlvs len ((buf.drop 7).take len)
    some ⟨kind, UInt16.ofNat txn, UInt16.ofNat msgId, tlvs⟩
  else none

/-- The first TLV of a type. -/
def tlv (tlvs : List Tlv) (t : UInt8) : Option Bytes := (tlvs.find? fun v => v.1 == t).map (·.2)

/-- QMI protocol error names for the codes seen around SIM access. -/
def qmiErrorName : Nat → String
  | 0x01 => "MalformedMessage"
  | 0x02 => "NoMemory"
  | 0x03 => "Internal"
  | 0x10 => "NotProvisioned"
  | 0x11 => "MissingArgument"
  | 0x13 => "ArgumentTooLong"
  | 0x25 => "UimUninitialized"
  | 0x2E => "GeneralError"
  | 0x30 => "InvalidArgument"
  | 0x32 => "NoEntry"
  | 0x34 => "DeviceNotReady"
  | 0x44 => "InsufficientResources"
  | 0x46 => "InvalidOperation"
  | 0x47 => "InvalidQmiCommand"
  | 0x50 => "SimFileNotFound"
  | 0x52 => "AccessDenied"
  | _ => ""

def qmiError (code : Nat) : String :=
  match qmiErrorName code with
  | "" => "QMI error " ++ toString code
  | name => "QMI error " ++ toString code ++ " " ++ name

/-- The Result TLV (0x02): Ok, or the QMI error. -/
def checkResult (tlvs : List Tlv) : Except String Unit :=
  match tlv tlvs 0x02 with
  | none => .error "QMI response without a result"
  | some r =>
    if r.length < 4 then .error "short QMI result"
    else if le16 r 0 = some 0 then .ok ()
    else .error (qmiError ((le16 r 2).getD 0))

/-! ## Sixteen bits -/

variable {b rest : Bytes} {n i : Nat} {tlvs : List Tlv}

@[simp] theorem length_toLe16 (n : Nat) : (toLe16 n).length = 2 := by
  rw [toLe16, List.length_reverse, BigEndian.length_toBytes]

/-- A number that was written at a place is read there, less what is above sixteen bits. -/
theorem le16_at {before : Bytes} (hi : before.length = i) (n : Nat) (rest : Bytes) :
    le16 (before ++ (toLe16 n ++ rest)) i = some (n % 65536) := by
  subst hi
  have hroom : before.length + 2 ≤ (before ++ (toLe16 n ++ rest)).length := by
    simp only [List.length_append, length_toLe16]
    omega
  have htake : (toLe16 n ++ rest).take 2 = toLe16 n := List.take_left' (length_toLe16 n)
  have hpow : 256 ^ 2 = 65536 := rfl
  rw [le16, if_pos hroom, List.drop_left, htake, toLe16, List.reverse_reverse, BigEndian.ofBytes_toBytes, hpow]

/-! ## TLVs -/

/-- How many bytes TLVs take. -/
def width : List Tlv → Nat
  | [] => 0
  | (_, v) :: tlvs => 3 + v.length + width tlvs

theorem length_encodeTlvs (tlvs : List Tlv) : (encodeTlvs tlvs).length = width tlvs := by
  induction tlvs with
  | nil => rfl
  | cons tv tlvs ih =>
    rw [encodeTlvs] at ih ⊢
    rw [List.flatMap_cons, List.length_append, ih, List.length_cons, List.length_append, length_toLe16, width]
    omega

/-- What is read takes as many bytes as there were. -/
theorem width_decodeTlvs {fuel : Nat} (h : decodeTlvs fuel rest = some tlvs) : width tlvs = rest.length := by
  induction fuel generalizing rest tlvs with
  | zero =>
    cases rest with
    | nil => cases h; rfl
    | cons => cases h
  | succ fuel ih =>
    cases rest with
    | nil => cases h; rfl
    | cons t rest =>
      unfold decodeTlvs at h
      split at h
      · cases h
      · split at h
        case isFalse => cases h
        case isTrue l _ hl =>
          obtain ⟨more, hmore, rfl⟩ := Option.map_eq_some_iff.mp h
          have htake : ((rest.drop 2).take l).length = l := by
            rw [List.length_take, List.length_drop]
            omega
          rw [width, ih hmore, htake, List.length_drop, List.length_cons]
          omega

theorem decodeTlvs_encodeTlvs (h : width tlvs < 65536) {fuel : Nat} (hfuel : width tlvs ≤ fuel) :
    decodeTlvs fuel (encodeTlvs tlvs) = some tlvs := by
  induction tlvs generalizing fuel with
  | nil => cases fuel <;> rfl
  | cons tv tlvs ih =>
    obtain ⟨t, v⟩ := tv
    rw [width] at h hfuel
    obtain ⟨fuel, rfl⟩ : ∃ k, fuel = k + 1 := ⟨fuel - 1, by omega⟩
    have hbytes : encodeTlvs ((t, v) :: tlvs) = t :: (toLe16 v.length ++ (v ++ encodeTlvs tlvs)) := by
      rw [encodeTlvs, List.flatMap_cons, List.cons_append, List.append_assoc]
      rfl
    have hlength : le16 (t :: (toLe16 v.length ++ (v ++ encodeTlvs tlvs))) 1 = some v.length := by
      have hone : [t].length = 1 := rfl
      have hat := le16_at hone v.length (v ++ encodeTlvs tlvs)
      rwa [Nat.mod_eq_of_lt (by omega)] at hat
    have hvalue : ((toLe16 v.length ++ (v ++ encodeTlvs tlvs)).drop 2).take v.length = v := by
      rw [List.drop_left' (length_toLe16 _), List.take_left]
    have hrest : (toLe16 v.length ++ (v ++ encodeTlvs tlvs)).drop (2 + v.length) = encodeTlvs tlvs := by
      rw [← List.drop_drop, List.drop_left' (length_toLe16 _), List.drop_left]
    have hroom : 2 + v.length ≤ (toLe16 v.length ++ (v ++ encodeTlvs tlvs)).length := by
      simp only [List.length_append, length_toLe16]
      omega
    rw [hbytes, decodeTlvs, hlength]
    dsimp only
    rw [if_pos hroom, hrest, hvalue, ih (by omega) (by omega)]
    rfl

/-! ## Messages -/

theorem decode_encode (kind : UInt8) (txn msgId : UInt16) (tlvs : List Tlv) :
    decode (encode kind txn msgId tlvs) =
      (decodeTlvs (width tlvs % 65536) ((encodeTlvs tlvs).take (width tlvs % 65536))).map (⟨kind, txn, msgId, ·⟩) := by
  have htxn : le16 (encode kind txn msgId tlvs) 1 = some txn.toNat := by
    have hone : [kind].length = 1 := rfl
    have hat := le16_at hone txn.toNat (toLe16 msgId.toNat ++ toLe16 (encodeTlvs tlvs).length ++ encodeTlvs tlvs)
    rw [Nat.mod_eq_of_lt txn.toNat_lt] at hat
    simpa only [encode, List.append_assoc, List.singleton_append] using hat
  have hmsg : le16 (encode kind txn msgId tlvs) 3 = some msgId.toNat := by
    have hthree : (kind :: toLe16 txn.toNat).length = 3 := by rw [List.length_cons, length_toLe16]
    have hat := le16_at hthree msgId.toNat (toLe16 (encodeTlvs tlvs).length ++ encodeTlvs tlvs)
    rw [Nat.mod_eq_of_lt msgId.toNat_lt] at hat
    simpa only [encode, List.append_assoc, List.cons_append] using hat
  have hlen : le16 (encode kind txn msgId tlvs) 5 = some (width tlvs % 65536) := by
    have hfive : (kind :: (toLe16 txn.toNat ++ toLe16 msgId.toNat)).length = 5 := by
      rw [List.length_cons, List.length_append, length_toLe16, length_toLe16]
    have hat := le16_at hfive (encodeTlvs tlvs).length (encodeTlvs tlvs)
    simpa only [encode, length_encodeTlvs, List.append_assoc, List.cons_append] using hat
  have hdrop : (encode kind txn msgId tlvs).drop 7 = encodeTlvs tlvs := by
    have hhead : (toLe16 txn.toNat ++ toLe16 msgId.toNat ++ toLe16 (encodeTlvs tlvs).length).length = 6 := by
      simp only [List.length_append, length_toLe16]
    exact List.drop_left' hhead
  have hroom : 7 + width tlvs % 65536 ≤ (encode kind txn msgId tlvs).length := by
    have hle := Nat.mod_le (width tlvs) 65536
    rw [encode]
    simp only [List.length_cons, List.length_append, length_toLe16, length_encodeTlvs]
    omega
  have hhead : (encode kind txn msgId tlvs).head? = some kind := rfl
  simp only [decode, hhead, htxn, hmsg, hlen, hdrop, if_pos hroom, Option.bind_eq_bind, Option.bind_some, UInt16.ofNat_toNat]
  cases decodeTlvs (width tlvs % 65536) ((encodeTlvs tlvs).take (width tlvs % 65536)) <;> rfl

/-- Either length may be the one that is cut off, but the inner one never is when the outer one fits. -/
theorem decode_encode_iff (kind : UInt8) (txn msgId : UInt16) (tlvs : List Tlv) :
    decode (encode kind txn msgId tlvs) = some ⟨kind, txn, msgId, tlvs⟩ ↔ width tlvs < 65536 := by
  rw [decode_encode]
  constructor
  · intro h
    obtain ⟨read, hread, heq⟩ := Option.map_eq_some_iff.mp h
    have hwidth := width_decodeTlvs hread
    rw [(Message.mk.inj heq).2.2.2, List.length_take] at hwidth
    have hlt := Nat.mod_lt (width tlvs) (show 0 < 65536 by decide)
    omega
  · intro h
    rw [Nat.mod_eq_of_lt h, ← length_encodeTlvs, List.take_length, decodeTlvs_encodeTlvs h (Nat.le_of_eq (length_encodeTlvs tlvs).symm)]
    rfl

end OpenU60.Qmi
