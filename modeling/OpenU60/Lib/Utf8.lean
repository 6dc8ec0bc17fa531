/-
  OpenU60.Lib.Utf8 — text written in UTF-8 and read back.

  `utf8` is the bytes of a string, `lossy` (`Lib.ByteLines`) and `fromUtf8` read them as `from_utf8_lossy`
  and `str::from_utf8` do.
  - `lossy_utf8`, `fromUtf8_utf8`: text comes back as it is, whatever characters it holds.
  - `boundary_iff`: text is split at the positions between its characters and at no other.
-/

import Mathlib
import OpenU60.Lib.ByteLines

namespace OpenU60.Lib.Utf8

open OpenU60.Lib.ByteLines

/-- `str::as_bytes` -/
def utf8 (cs : List Char) : List UInt8 := cs.flatMap String.utf8EncodeChar

/-- `str::from_utf8` -/
def fromUtf8 (bytes : List UInt8) : Option (List Char) := if Text.utf8Valid bytes then some (lossy bytes) else none

/-- `s.get(..n)` and `s.get(n..)`: nothing inside of a character. -/
def splitAtByte : Nat → List Char → Option (List Char × List Char)
  | 0, cs => some ([], cs)
  | _ + 1, [] => none
  | n + 1, c :: cs =>
    if c.utf8Size ≤ n + 1 then (splitAtByte (n + 1 - c.utf8Size) cs).map fun (init, rest) => (c :: init, rest) else none

/-- The bytes after a first byte are in their ranges. -/
def InRanges (ranges : List (UInt8 × UInt8)) (tail : List UInt8) : Prop := List.Forall₂ (fun r b => r.1 ≤ b ∧ b ≤ r.2) ranges tail

/-- The character of its first bits and the bytes after. -/
def value (bits : Nat) (tail : List UInt8) : Nat := tail.foldl (fun n b => n * 64 + (b.toNat - 0x80)) bits

variable {bits : Nat} {ranges : List (UInt8 × UInt8)} {tail : List UInt8} {b : UInt8}

/-! ## Reading a character -/

theorem lossyFrom_tail (h : InRanges ranges tail) (hne : ranges ≠ []) (rest : List UInt8) :
    lossyFrom bits ranges (tail ++ rest) = Char.ofNat (value bits tail) :: lossy rest := by
  unfold InRanges at h
  induction h generalizing bits with
  | nil => exact absurd rfl hne
  | @cons r b ranges tail hb htail ih =>
    rw [List.cons_append, lossyFrom_in hb]
    by_cases hlast : ranges = []
    · subst hlast
      cases htail
      rw [if_pos rfl]
      rfl
    · rw [if_neg hlast, ih hlast, value, value, List.foldl_cons]

theorem utf8From_tail (h : InRanges ranges tail) (rest : List UInt8) : Text.utf8From ranges (tail ++ rest) = Text.utf8Valid rest := by
  unfold InRanges at h
  induction h with
  | nil => rfl
  | cons hb htail ih =>
    rw [List.cons_append]
    unfold Text.utf8From
    rw [ih, decide_eq_true hb.1, decide_eq_true hb.2]
    rfl

/-! ## Writing a character -/

/-- The ranges that each first byte asks for. -/
theorem utf8Next_first (b : UInt8) :
    (0xC2 ≤ b.toNat ∧ b.toNat ≤ 0xDF → Text.utf8Next b = some [(0x80, 0xBF)]) ∧
    (0xE0 ≤ b.toNat ∧ b.toNat ≤ 0xEF →
      Text.utf8Next b = some [(if b.toNat = 0xE0 then 0xA0 else 0x80, if b.toNat = 0xED then 0x9F else 0xBF), (0x80, 0xBF)]) ∧
    (0xF0 ≤ b.toNat ∧ b.toNat ≤ 0xF4 →
      Text.utf8Next b =
        some [(if b.toNat = 0xF0 then 0x90 else 0x80, if b.toNat = 0xF4 then 0x8F else 0xBF), (0x80, 0xBF), (0x80, 0xBF)]) ∧
    ((Text.utf8Next b).all fun ranges =>
      (decide (b.toNat < 0x80 → ranges = []) && ranges.all fun r => 0x80 ≤ r.1.toNat)) = true := by
  revert b
  exact BigEndian.forall_byte (by decide +kernel)

/-- A byte past the first: six bits. -/
theorem tail_byte (n : Nat) : (UInt8.ofNat (n % 64 + 128)).toNat = n % 64 + 128 := by
  rw [UInt8.toNat_ofNat']
  omega

theorem tail_range (n : Nat) : (0x80 : UInt8) ≤ UInt8.ofNat (n % 64 + 128) ∧ UInt8.ofNat (n % 64 + 128) ≤ 0xBF := by
  rw [UInt8.le_iff_toNat_le, UInt8.le_iff_toNat_le, tail_byte]
  show 128 ≤ n % 64 + 128 ∧ n % 64 + 128 ≤ 191
  omega

/-- A character's bytes are a first byte and what it asks for. -/
theorem encodeChar (c : Char) : ∃ b tail ranges, String.utf8EncodeChar c = b :: tail ∧ Text.utf8Next b = some ranges ∧
    InRanges ranges tail ∧ (if ranges = [] then b.toNat else value (lead b ranges.length) tail) = c.toNat := by
  have hvalid : c.toNat < 0xD800 ∨ (0xDFFF < c.toNat ∧ c.toNat < 0x110000) := c.valid
  have hval : c.val.toNat = c.toNat := rfl
  unfold String.utf8EncodeChar
  rw [hval]
  generalize c.toNat = v at hvalid
  dsimp only
  by_cases hone : v ≤ 0x7F
  · have hb : (UInt8.ofNat v).toNat = v := by
      rw [UInt8.toNat_ofNat']
      omega
    refine ⟨UInt8.ofNat v, [], [], if_pos hone, ?_, .nil, hb⟩
    unfold Text.utf8Next
    rw [if_pos]
    rw [UInt8.lt_iff_toNat_lt, hb]
    exact Nat.lt_succ_of_le hone
  rw [if_neg hone]
  by_cases htwo : v ≤ 0x7FF
  · have hb : (UInt8.ofNat (v / 64 % 32 + 192)).toNat = v / 64 + 192 := by
      rw [UInt8.toNat_ofNat']
      omega
    refine ⟨_, _, _, if_pos htwo, (utf8Next_first _).1 (by rw [hb]; omega), .cons (tail_range v) .nil, ?_⟩
    show ((UInt8.ofNat (v / 64 % 32 + 192)).toNat - 0xC0) * 64 + ((UInt8.ofNat (v % 64 + 128)).toNat - 0x80) = v
    rw [hb, tail_byte]
    omega
  rw [if_neg htwo]
  by_cases hthree : v ≤ 0xFFFF
  · have hb : (UInt8.ofNat (v / 4096 % 16 + 224)).toNat = v / 4096 + 224 := by
      rw [UInt8.toNat_ofNat']
      omega
    refine ⟨_, _, _, if_pos hthree, (utf8Next_first _).2.1 (by rw [hb]; omega), .cons ?_ (.cons (tail_range v) .nil), ?_⟩
    · rw [hb, UInt8.le_iff_toNat_le, UInt8.le_iff_toNat_le, tail_byte, apply_ite UInt8.toNat, apply_ite UInt8.toNat]
      show (if v / 4096 + 224 = 224 then 160 else 128) ≤ v / 64 % 64 + 128 ∧
        v / 64 % 64 + 128 ≤ if v / 4096 + 224 = 237 then 159 else 191
      split <;> split <;> omega
    · show (((UInt8.ofNat (v / 4096 % 16 + 224)).toNat - 0xE0) * 64 + ((UInt8.ofNat (v / 64 % 64 + 128)).toNat - 0x80)) * 64 +
        ((UInt8.ofNat (v % 64 + 128)).toNat - 0x80) = v
      rw [hb, tail_byte, tail_byte]
      omega
  · rw [if_neg hthree]
    have hb : (UInt8.ofNat (v / 262144 % 8 + 240)).toNat = v / 262144 + 240 := by
      rw [UInt8.toNat_ofNat']
      omega
    refine ⟨_, _, _, rfl, (utf8Next_first _).2.2.1 (by rw [hb]; omega), .cons ?_ (.cons (tail_range _) (.cons (tail_range v) .nil)), ?_⟩
    · rw [hb, UInt8.le_iff_toNat_le, UInt8.le_iff_toNat_le, tail_byte, apply_ite UInt8.toNat, apply_ite UInt8.toNat]
      show (if v / 262144 + 240 = 240 then 144 else 128) ≤ v / 4096 % 64 + 128 ∧
        v / 4096 % 64 + 128 ≤ if v / 262144 + 240 = 244 then 143 else 191
      split <;> split <;> omega
    · show ((((UInt8.ofNat (v / 262144 % 8 + 240)).toNat - 0xF0) * 64 + ((UInt8.ofNat (v / 4096 % 64 + 128)).toNat - 0x80)) * 64 +
        ((UInt8.ofNat (v / 64 % 64 + 128)).toNat - 0x80)) * 64 + ((UInt8.ofNat (v % 64 + 128)).toNat - 0x80) = v
      rw [hb, tail_byte, tail_byte, tail_byte]
      omega

theorem utf8Next_tail : ∀ b : UInt8, ∀ ranges, Text.utf8Next b = some ranges → (b.toNat < 0x80 → ranges = []) ∧ ∀ r ∈ ranges, 0x80 ≤ r.1.toNat := by
  intro b ranges h
  have hb := (utf8Next_first b).2.2.2
  rw [h] at hb
  obtain ⟨hone, htail⟩ := Bool.and_eq_true_iff.mp hb
  exact ⟨of_decide_eq_true hone, fun r hr => of_decide_eq_true (List.all_eq_true.mp htail r hr)⟩

/-- An ASCII byte is a character of its own. -/
theorem mem_utf8_ascii {cs : List Char} {b : UInt8} (h : b ∈ utf8 cs) (hb : b.toNat < 0x80) : ∃ c ∈ cs, c.toNat = b.toNat := by
  obtain ⟨c, hc, hbc⟩ := List.mem_flatMap.mp h
  refine ⟨c, hc, ?_⟩
  obtain ⟨first, tail, ranges, henc, hnext, hin, hvalue⟩ := encodeChar c
  rw [henc] at hbc
  obtain ⟨hone, hlow⟩ := utf8Next_tail first ranges hnext
  obtain rfl | htail := List.mem_cons.mp hbc
  · rw [if_pos (hone hb)] at hvalue
    exact hvalue.symm
  · obtain ⟨r, hr, hle⟩ : ∃ r ∈ ranges, r.1 ≤ b := by
      clear hvalue hnext hone hlow henc hbc
      induction hin with
      | nil => cases htail
      | cons hfirst _ ih =>
        obtain rfl | htail := List.mem_cons.mp htail
        · exact ⟨_, List.mem_cons_self, hfirst.1⟩
        · obtain ⟨r, hr, hle⟩ := ih htail
          exact ⟨r, List.mem_cons_of_mem _ hr, hle⟩
    have hrange := hlow r hr
    rw [UInt8.le_iff_toNat_le] at hle
    omega

/-! ## Round trips -/

theorem lossy_encodeChar (c : Char) (rest : List UInt8) : lossy (String.utf8EncodeChar c ++ rest) = c :: lossy rest := by
  obtain ⟨b, tail, ranges, hbytes, hnext, hranges, hvalue⟩ := encodeChar c
  have hchar : Char.ofNat c.toNat = c := Char.ofNat_toNat c
  rw [hbytes, List.cons_append]
  unfold lossy
  conv_lhs => unfold lossyFrom
  rw [hnext]
  cases ranges with
  | nil =>
    cases hranges
    rw [if_pos rfl] at hvalue
    dsimp only
    rw [hvalue, hchar]
    rfl
  | cons r ranges =>
    rw [if_neg (List.cons_ne_nil _ _)] at hvalue
    dsimp only
    rw [lossyFrom_tail hranges (List.cons_ne_nil _ _), hvalue, hchar]
    rfl

theorem utf8Valid_encodeChar (c : Char) (rest : List UInt8) :
    Text.utf8Valid (String.utf8EncodeChar c ++ rest) = Text.utf8Valid rest := by
  obtain ⟨b, tail, ranges, hbytes, hnext, hranges, -⟩ := encodeChar c
  rw [hbytes, List.cons_append, Text.utf8Valid, Text.utf8From, hnext]
  exact utf8From_tail hranges rest

theorem lossy_utf8 (cs : List Char) : lossy (utf8 cs) = cs := by
  induction cs with
  | nil => rfl
  | cons c cs ih =>
    rw [utf8, List.flatMap_cons, lossy_encodeChar]
    exact congrArg (c :: ·) ih

theorem utf8Valid_utf8 (cs : List Char) : Text.utf8Valid (utf8 cs) = true := by
  induction cs with
  | nil => rfl
  | cons c cs ih =>
    rw [utf8, List.flatMap_cons, utf8Valid_encodeChar]
    exact ih

theorem fromUtf8_utf8 (cs : List Char) : fromUtf8 (utf8 cs) = some cs := by
  rw [fromUtf8, if_pos (utf8Valid_utf8 cs), lossy_utf8]

theorem length_utf8 (cs : List Char) : (utf8 cs).length = Text.byteLen cs := by
  induction cs with
  | nil => rfl
  | cons c cs ih =>
    unfold utf8 Text.byteLen at *
    rw [List.flatMap_cons, List.length_append, ih, String.length_utf8EncodeChar, List.map_cons, List.sum_cons]

/-! ## Positions -/

theorem splitAtByte_append (cs rest : List Char) : splitAtByte (Text.byteLen cs) (cs ++ rest) = some (cs, rest) := by
  induction cs with
  | nil => cases rest <;> rfl
  | cons c cs ih =>
    have hsize := c.utf8Size_pos
    have hlen : Text.byteLen (c :: cs) = Text.byteLen cs + (c.utf8Size - 1) + 1 := by
      rw [Text.byteLen_cons]
      omega
    have hleft : Text.byteLen cs + (c.utf8Size - 1) + 1 - c.utf8Size = Text.byteLen cs := by omega
    rw [hlen, List.cons_append, splitAtByte, if_pos (by omega), hleft, ih]
    rfl

theorem splitAtByte_spec {n : Nat} {cs init rest : List Char} (h : splitAtByte n cs = some (init, rest)) :
    cs = init ++ rest ∧ Text.byteLen init = n := by
  induction cs generalizing n init with
  | nil =>
    cases n with
    | zero =>
      cases h
      exact ⟨rfl, rfl⟩
    | succ n => cases h
  | cons c cs ih =>
    cases n with
    | zero =>
      cases h
      exact ⟨rfl, rfl⟩
    | succ n =>
      rw [splitAtByte] at h
      split at h
      · obtain ⟨⟨init', rest'⟩, hsplit, heq⟩ := Option.map_eq_some_iff.mp h
        cases heq
        obtain ⟨happend, hlen⟩ := ih hsplit
        refine ⟨congrArg (c :: ·) happend, ?_⟩
        rw [Text.byteLen_cons, hlen]
        omega
      · cases h

/-- A position between characters. -/
def Boundary (cs : List Char) (n : Nat) : Prop := ∃ init rest, cs = init ++ rest ∧ Text.byteLen init = n

theorem boundary_iff {cs : List Char} {n : Nat} : Boundary cs n ↔ ∃ init rest, splitAtByte n cs = some (init, rest) := by
  constructor
  · intro h
    obtain ⟨init, rest, rfl, rfl⟩ := h
    exact ⟨init, rest, splitAtByte_append init rest⟩
  · intro h
    obtain ⟨init, rest, hsplit⟩ := h
    exact ⟨init, rest, splitAtByte_spec hsplit⟩

theorem boundary_zero (cs : List Char) : Boundary cs 0 := ⟨[], cs, rfl, rfl⟩

theorem boundary_append (init rest : List Char) (n : Nat) : Boundary (init ++ rest) (Text.byteLen init + n) ↔ Boundary rest n := by
  constructor
  · intro h
    obtain ⟨u, v, happend, hlen⟩ := h
    obtain ⟨mid, rfl, rfl⟩ | ⟨mid, rfl, rfl⟩ := List.append_eq_append_iff.mp happend
    · rw [Text.byteLen_append] at hlen
      exact ⟨mid, v, rfl, by omega⟩
    · -- the position is not past the text before
      rw [Text.byteLen_append] at hlen
      have hzero : n = 0 := by omega
      rw [hzero]
      exact boundary_zero _
  · intro h
    obtain ⟨u, v, rfl, rfl⟩ := h
    exact ⟨init ++ u, v, (List.append_assoc ..).symm, Text.byteLen_append init u⟩

end OpenU60.Lib.Utf8
