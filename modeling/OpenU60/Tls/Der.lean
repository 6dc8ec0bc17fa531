/-
  OpenU60.Tls.Der — DER elements (`zte-agent/src/tls/x509.rs`: `tlv`, `seq`, `uint`, `bits`, `next`,
  `expect`).

  The writer gives a length its shortest form, the reader takes lengths of four bytes at most.
  - `next_tlv`: what is written is read back, whatever follows it; `next_long`: from 2^32 bytes on it is not.
  - `next_raw`: what the reader takes for an element can stand before anything else.
  - `elements_encode`: elements written one after another are read back in order.
-/

import OpenU60.Lib.BigEndian

namespace OpenU60.Tls.Der

open OpenU60.Lib OpenU60.Lib.BigEndian

abbrev Bytes := List UInt8

def tagBool : UInt8 := 0x01
def tagInt : UInt8 := 0x02
def tagBits : UInt8 := 0x03
def tagOctets : UInt8 := 0x04
def tagOid : UInt8 := 0x06
def tagUtf8 : UInt8 := 0x0c
def tagUtcTime : UInt8 := 0x17
def tagGenTime : UInt8 := 0x18
def tagSeq : UInt8 := 0x30
def tagSet : UInt8 := 0x31

/-! ## Writing -/

def lengthOctets (n : Nat) : Bytes :=
  if n < 0x80 then [UInt8.ofNat n]
  else
    let be := dropZeros (toBytes 8 n)
    (0x80 ||| UInt8.ofNat be.length) :: be

def tlv (tag : UInt8) (content : Bytes) : Bytes := tag :: (lengthOctets content.length ++ content)

def seq (parts : List Bytes) : Bytes := tlv tagSeq parts.flatten

/-- A non-negative INTEGER from big-endian bytes: minimal, with a leading zero when the top bit is set. -/
def uint (bytes : Bytes) : Bytes :=
  match dropZeros bytes with
  | [] => tlv tagInt [0]
  | f :: b => if f &&& 0x80 ≠ 0 then tlv tagInt (0 :: f :: b) else tlv tagInt (f :: b)

def bits (b : Bytes) : Bytes := tlv tagBits (0 :: b)

/-! ## Reading -/

/-- A length and what follows it. -/
def readLength : Bytes → Option (Nat × Bytes)
  | [] => none
  | first :: rest =>
    if first < 0x80 then some (first.toNat, rest)
    else
      let n := (first &&& 0x7F).toNat
      if n = 0 ∨ 4 < n ∨ rest.length < n then none else some (ofBytes (rest.take n), rest.drop n)

/-- One element: its tag, content and what follows it. -/
def next : Bytes → Option (UInt8 × Bytes × Bytes)
  | [] => none
  | tag :: rest =>
    match readLength rest with
    | none => none
    | some (len, rest) => if len ≤ rest.length then some (tag, rest.take len, rest.drop len) else none

/-- The next element if it has `tag`. -/
def expect (input : Bytes) (tag : UInt8) : Option (Bytes × Bytes) :=
  ((next input).filter fun e => e.1 == tag).map fun e => (e.2.1, e.2.2)

/-- The next `n` elements at most. -/
def elementsUpTo : Nat → Bytes → List (UInt8 × Bytes)
  | 0, _ => []
  | n + 1, input =>
    match next input with
    | none => []
    | some (tag, content, rest) => (tag, content) :: elementsUpTo n rest

/-- The elements one after another, up to where none can be read: what a `while let` over `next` sees. -/
def elements (input : Bytes) : List (UInt8 × Bytes) := elementsUpTo input.length input

variable {tag : UInt8} {content input rest : Bytes} {len n : Nat}

/-! ## Lengths -/

theorem low_bits : ∀ n < 9, (0x80 ||| UInt8.ofNat n).toNat = 128 + n ∧ ((0x80 ||| UInt8.ofNat n) &&& 0x7F).toNat = n := by
  decide

theorem long_first (h : n < 9) : ¬ (0x80 ||| UInt8.ofNat n) < (0x80 : UInt8) := by
  rw [UInt8.lt_iff_toNat_lt, (low_bits n h).1]
  show ¬ 128 + n < 128
  omega

/-- The long form holds the length in no more bytes than it takes. -/
theorem long_form (hlong : ¬ len < 0x80) (h : len < 2 ^ 64) :
    ∃ be, lengthOctets len = (0x80 ||| UInt8.ofNat be.length) :: be ∧ ofBytes be = len ∧ 0 < be.length ∧ be.length ≤ 8 ∧
      (be.length ≤ 4 ↔ len < 2 ^ 32) := by
  have hvalue : ofBytes (dropZeros (toBytes 8 len)) = len := by
    rw [ofBytes_dropZeros, ofBytes_toBytes]
    exact Nat.mod_eq_of_lt h
  have hlength := length_dropZeros_le (toBytes 8 len)
  have hhead := head_dropZeros (toBytes 8 len)
  rw [length_toBytes] at hlength
  refine ⟨dropZeros (toBytes 8 len), if_neg hlong, hvalue, ?_, hlength, ?_⟩
  · by_contra hempty
    have hnil : dropZeros (toBytes 8 len) = [] := List.length_eq_zero_iff.mp (by omega)
    rw [hnil] at hvalue
    have hzero : len = 0 := hvalue.symm
    omega
  · generalize dropZeros (toBytes 8 len) = be at hvalue hlength hhead
    constructor
    · intro hshort
      have hlt := ofBytes_lt be
      have hpow : 256 ^ be.length ≤ 256 ^ 4 := Nat.pow_le_pow_right (by decide) hshort
      omega
    · intro hlen
      cases be with
      | nil => exact Nat.zero_le _
      | cons b be =>
        have hb : b.toNat ≠ 0 := fun hzero => hhead b rfl (UInt8.toNat_inj.mp hzero)
        rw [ofBytes_cons] at hvalue
        by_contra hbig
        have hpow : 256 ^ 4 ≤ 256 ^ be.length := Nat.pow_le_pow_right (by decide) (by
          rw [List.length_cons] at hbig
          omega)
        have hmul : 1 * 256 ^ be.length ≤ b.toNat * 256 ^ be.length := Nat.mul_le_mul_right _ (by omega)
        omega

theorem readLength_octets (h : len < 2 ^ 32) (rest : Bytes) : readLength (lengthOctets len ++ rest) = some (len, rest) := by
  by_cases hshort : len < 0x80
  · have hbyte : (UInt8.ofNat len).toNat = len := Nat.mod_eq_of_lt (by omega)
    have hlt : UInt8.ofNat len < 0x80 := by
      rw [UInt8.lt_iff_toNat_lt, hbyte]
      exact hshort
    rw [lengthOctets, if_pos hshort, List.singleton_append, readLength, if_pos hlt, hbyte]
  · obtain ⟨be, heq, hvalue, hpos, hle, hfour⟩ := long_form hshort (by omega)
    have hbits := (low_bits be.length (by omega)).2
    have hfits := hfour.mpr h
    rw [heq, List.cons_append, readLength, if_neg (long_first (by omega)), hbits]
    dsimp only
    rw [if_neg (by rw [List.length_append]; omega), List.take_left, List.drop_left, hvalue]

theorem readLength_long (hlong : 2 ^ 32 ≤ len) (h : len < 2 ^ 64) (rest : Bytes) : readLength (lengthOctets len ++ rest) = none := by
  obtain ⟨be, heq, -, -, hle, hfour⟩ := long_form (by omega) h
  have hbits := (low_bits be.length (by omega)).2
  have hbig : ¬ be.length ≤ 4 := fun hfits => absurd (hfour.mp hfits) (by omega)
  rw [heq, List.cons_append, readLength, if_neg (long_first (by omega)), hbits]
  exact if_pos (.inr (.inl (by omega)))

/-! ## Elements -/

theorem next_tlv (h : content.length < 2 ^ 32) (rest : Bytes) : next (tlv tag content ++ rest) = some (tag, content, rest) := by
  rw [tlv, List.cons_append, List.append_assoc, next, readLength_octets h]
  dsimp only
  rw [if_pos (by rw [List.length_append]; omega), List.take_left, List.drop_left]

theorem next_long (hlong : 2 ^ 32 ≤ content.length) (h : content.length < 2 ^ 64) (rest : Bytes) :
    next (tlv tag content ++ rest) = none := by
  rw [tlv, List.cons_append, List.append_assoc, next, readLength_long hlong h]

theorem expect_iff : expect input tag = some (content, rest) ↔ next input = some (tag, content, rest) := by
  unfold expect
  constructor
  · intro h
    obtain ⟨⟨t, c, r⟩, hfilter, heq⟩ := Option.map_eq_some_iff.mp h
    obtain ⟨hnext, htag⟩ := Option.filter_eq_some_iff.mp hfilter
    have htag : t = tag := beq_iff_eq.mp htag
    cases heq
    rw [hnext, htag]
  · intro h
    rw [h, Option.filter_some, if_pos (beq_self_eq_true tag)]
    rfl

theorem expect_tlv (h : content.length < 2 ^ 32) (rest : Bytes) : expect (tlv tag content ++ rest) tag = some (content, rest) :=
  expect_iff.mpr (next_tlv h rest)

theorem expect_other {tag' : UInt8} (hne : tag ≠ tag') (h : content.length < 2 ^ 32) (rest : Bytes) :
    expect (tlv tag content ++ rest) tag' = none := by
  rw [expect, next_tlv h, Option.filter_some, if_neg (by simpa using hne)]
  rfl

/-- The first bytes of `bytes` before anything else. -/
theorem front {bytes : Bytes} (h : n ≤ bytes.length) (rest' : Bytes) :
    n ≤ (bytes.take n ++ rest').length ∧ (bytes.take n ++ rest').take n = bytes.take n ∧ (bytes.take n ++ rest').drop n = rest' := by
  have hlength : (bytes.take n).length = n := List.length_take_of_le h
  exact ⟨by rw [List.length_append]; omega, List.take_left' hlength, List.drop_left' hlength⟩

theorem readLength_raw (h : readLength input = some (len, rest)) :
    ∃ used, input = used ++ rest ∧ used ≠ [] ∧ ∀ rest', readLength (used ++ rest') = some (len, rest') := by
  cases input with
  | nil => cases h
  | cons first input =>
    unfold readLength at h
    dsimp only at h
    by_cases hshort : first < 0x80
    · rw [if_pos hshort] at h
      cases h
      refine ⟨[first], rfl, List.cons_ne_nil _ _, fun rest' => ?_⟩
      rw [List.singleton_append, readLength, if_pos hshort]
    · rw [if_neg hshort] at h
      split at h
      · cases h
      · next hok =>
        rw [not_or, not_or] at hok
        obtain ⟨hpos, hfour, hroom⟩ := hok
        cases h
        refine ⟨first :: input.take (first &&& 0x7F).toNat, by rw [List.cons_append, List.take_append_drop], List.cons_ne_nil _ _,
          fun rest' => ?_⟩
        obtain ⟨hroom', htake, hdrop⟩ := front (Nat.le_of_not_lt hroom) rest'
        rw [List.cons_append, readLength, if_neg hshort]
        dsimp only
        rw [if_neg (by omega), htake, hdrop]

/-- What the reader takes for an element is one before anything else. -/
theorem next_raw (h : next input = some (tag, content, rest)) :
    ∃ raw, input = raw ++ rest ∧ raw ≠ [] ∧ ∀ rest', next (raw ++ rest') = some (tag, content, rest') := by
  cases input with
  | nil => cases h
  | cons t input =>
    unfold next at h
    dsimp only at h
    cases hlength : readLength input with
    | none =>
      rw [hlength] at h
      cases h
    | some found =>
      obtain ⟨len, body⟩ := found
      rw [hlength] at h
      dsimp only at h
      split at h
      · next hfits =>
        cases h
        obtain ⟨used, hused, -, hread⟩ := readLength_raw hlength
        refine ⟨tag :: (used ++ body.take len), ?_, List.cons_ne_nil _ _, fun rest' => ?_⟩
        · rw [List.cons_append, List.append_assoc, List.take_append_drop, hused]
        · obtain ⟨hroom, htake, hdrop⟩ := front hfits rest'
          rw [List.cons_append, List.append_assoc, next, hread]
          dsimp only
          rw [if_pos hroom, htake, hdrop]
      · cases h

theorem length_tlv (tag : UInt8) (content : Bytes) : content.length + 2 ≤ (tlv tag content).length := by
  have hpos : 1 ≤ (lengthOctets content.length).length := by
    unfold lengthOctets
    split
    · exact Nat.le_refl 1
    · exact Nat.succ_le_succ (Nat.zero_le _)
  rw [tlv, List.length_cons, List.length_append]
  omega

/-! ## What fits -/

/-- Shorter than the reader's lengths reach. -/
def Fits (bytes : Bytes) : Prop := bytes.length < 2 ^ 32

theorem Fits.inner (h : Fits (tlv tag content)) : Fits content := by
  have hlen := length_tlv tag content
  unfold Fits at *
  omega

theorem Fits.parts {a b : Bytes} (h : Fits (a ++ b)) : Fits a ∧ Fits b := by
  unfold Fits at *
  rw [List.length_append] at h
  omega

theorem Fits.next (h : Fits (tlv tag content ++ rest)) : next (tlv tag content ++ rest) = some (tag, content, rest) :=
  next_tlv h.parts.1.inner rest

theorem Fits.expect (h : Fits (tlv tag content ++ rest)) : expect (tlv tag content ++ rest) tag = some (content, rest) :=
  expect_tlv h.parts.1.inner rest

theorem Fits.expect_last (h : Fits (tlv tag content)) : Der.expect (tlv tag content) tag = some (content, []) := by
  rw [← List.append_nil (tlv tag content)] at h ⊢
  exact h.expect

/-! ## One after another -/

/-- Elements one after another. -/
def encode (es : List (UInt8 × Bytes)) : Bytes := es.flatMap fun e => tlv e.1 e.2

theorem encode_cons (e : UInt8 × Bytes) (es : List (UInt8 × Bytes)) : encode (e :: es) = tlv e.1 e.2 ++ encode es := rfl

theorem length_le_encode {es : List (UInt8 × Bytes)} {e : UInt8 × Bytes} (h : e ∈ es) : e.2.length ≤ (encode es).length := by
  induction es with
  | nil => cases h
  | cons e' es ih =>
    rw [encode_cons, List.length_append]
    have hlen := length_tlv e'.1 e'.2
    cases h with
    | head => omega
    | tail _ h => exact Nat.le_trans (ih h) (Nat.le_add_left _ _)

theorem elementsUpTo_encode (es : List (UInt8 × Bytes)) (hlen : ∀ e ∈ es, e.2.length < 2 ^ 32) (h : (encode es).length ≤ n) :
    elementsUpTo n (encode es) = es := by
  induction es generalizing n with
  | nil =>
    cases n with
    | zero => rfl
    | succ n => rfl
  | cons e es ih =>
    have hsize := length_tlv e.1 e.2
    rw [encode_cons, List.length_append] at h
    cases n with
    | zero => omega
    | succ n =>
      rw [encode_cons, elementsUpTo, next_tlv (hlen e List.mem_cons_self)]
      dsimp only
      rw [ih (fun e' he' => hlen e' (List.mem_cons_of_mem e he')) (by omega)]

theorem elements_encode {es : List (UInt8 × Bytes)} (h : Fits (encode es)) : elements (encode es) = es :=
  elementsUpTo_encode es (fun _ he => Nat.lt_of_le_of_lt (length_le_encode he) h) (Nat.le_refl _)

end OpenU60.Tls.Der
