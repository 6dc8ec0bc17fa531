/-
  OpenU60.Lib.Decimal — numbers written in decimal with leading zeros, and read back.

  `padded` is `{:0width}`, `parseSigned` `str::parse` for a signed type.
  - `padded_digits`: a number that fits the width is written as so many digits.
  - `parse_padded`: and such digits are read as the number.
-/

import OpenU60.Lib.Text

namespace OpenU60.Lib.Decimal

/-- `{:0width}` of a signed number: the sign counts. -/
def padded (width : Nat) (n : Int) : List Char :=
  let digits := Nat.toDigits 10 n.natAbs
  if n < 0 then '-' :: digits.leftpad (width - 1) '0' else digits.leftpad width '0'

/-- `str::parse` for a signed type whose largest value is `max`. -/
def parseSigned (max : Nat) : List Char → Option Int
  | ['-'] => none
  | '-' :: cs => (Text.digitsFrom 10 (max + 1) 0 cs).map fun n => -(n : Int)
  | cs => (Text.parseUnsigned max cs).map fun n => (n : Int)

def i64Max : Nat := 2 ^ 63 - 1

def AllDigits (cs : List Char) : Prop := ∀ c ∈ cs, c.isDigit = true

variable {cs : List Char} {acc max width n : Nat}

/-! ## Digits -/

theorem isDigit_iff (c : Char) : c.isDigit = true ↔ 48 ≤ c.toNat ∧ c.toNat ≤ 57 := by
  simp only [Char.isDigit, Bool.and_eq_true, decide_eq_true_eq, ge_iff_le, UInt32.le_iff_toNat_le]
  exact Iff.rfl

theorem digitVal_digit {c : Char} (h : c.isDigit = true) : Text.digitVal 10 c = some (c.toNat - '0'.toNat) := by
  obtain ⟨hlow, hhigh⟩ := (isDigit_iff c).mp h
  have hlow : '0' ≤ c := hlow
  have hhigh' : c ≤ '9' := hhigh
  have hlt : c.toNat - '0'.toNat < 10 := by
    show c.toNat - 48 < 10
    omega
  simp only [Text.digitVal, hlow, hhigh', and_self, if_true, Option.filter_some, hlt, decide_true]

theorem byteLen_digits (h : AllDigits cs) : Text.byteLen cs = cs.length := by
  refine Text.byteLen_ascii fun c hc => ?_
  obtain ⟨-, hhigh⟩ := (isDigit_iff c).mp (h c hc)
  omega

theorem toString_digits (n : Nat) : AllDigits (toString n).toList := by
  intro c hc
  have hmem : c ∈ Nat.toDigits 10 n := Nat.toList_repr ▸ hc
  exact Nat.isDigit_of_mem_toDigits (by decide) (by decide) hmem

theorem not_mem_toString {c : Char} (h : c.isDigit = false) (n : Nat) : c ∉ (toString n).toList := by
  intro hc
  rw [toString_digits n c hc] at h
  cases h

theorem toString_inj {m n : Nat} (h : (toString m).toList = (toString n).toList) : m = n := by
  have hm : Nat.ofDigitChars 10 (Nat.toDigits 10 m) 0 = m := Nat.ofDigitChars_toDigits (by decide) (by decide)
  have hn : Nat.ofDigitChars 10 (Nat.toDigits 10 n) 0 = n := Nat.ofDigitChars_toDigits (by decide) (by decide)
  have hdigits : Nat.toDigits 10 m = Nat.toDigits 10 n := by
    rw [← Nat.toList_repr, ← Nat.toList_repr]
    exact h
  rw [← hm, ← hn, hdigits]

theorem le_ofDigitChars (acc : Nat) (cs : List Char) : acc ≤ Nat.ofDigitChars 10 cs acc := by
  induction cs generalizing acc with
  | nil => exact Nat.le_of_eq Nat.ofDigitChars_nil.symm
  | cons c cs ih =>
    rw [Nat.ofDigitChars_cons]
    exact Nat.le_trans (by omega) (ih _)

/-- Digits whose number fits are read as it. -/
theorem digitsFrom_eq (h : AllDigits cs) (hmax : Nat.ofDigitChars 10 cs acc ≤ max) :
    Text.digitsFrom 10 max acc cs = some (Nat.ofDigitChars 10 cs acc) := by
  induction cs generalizing acc with
  | nil =>
    rw [Nat.ofDigitChars_nil]
    rfl
  | cons c cs ih =>
    have htail : AllDigits cs := fun d hd => h d (List.mem_cons_of_mem c hd)
    rw [Nat.ofDigitChars_cons] at hmax ⊢
    have hstep : 10 * acc + (c.toNat - '0'.toNat) ≤ max := Nat.le_trans (le_ofDigitChars _ cs) hmax
    unfold Text.digitsFrom
    rw [digitVal_digit (h c List.mem_cons_self), Nat.mul_comm acc 10]
    dsimp only
    rw [if_pos hstep]
    exact ih htail hmax

theorem parseUnsigned_digits (h : AllDigits cs) (hne : cs ≠ []) (hmax : Nat.ofDigitChars 10 cs 0 ≤ max) :
    Text.parseUnsigned max cs = some (Nat.ofDigitChars 10 cs 0) := by
  have hplus : ∀ rest, cs ≠ '+' :: rest := by
    intro rest heq
    have hsign := h '+' (heq ▸ List.mem_cons_self)
    cases hsign
  rw [Text.parseUnsigned]
  unfold Text.parseRadix
  split
  · exact absurd rfl hne
  · exact absurd rfl (hplus [])
  · next rest _ => exact absurd rfl (hplus rest)
  · exact digitsFrom_eq h hmax

/-- A number is read as it is written. -/
theorem parseUnsigned_toString {n : Nat} (h : n ≤ max) : Text.parseUnsigned max (toString n).toList = some n := by
  have hvalue : Nat.ofDigitChars 10 (toString n).toList 0 = n := by
    rw [show (toString n).toList = Nat.toDigits 10 n from Nat.toList_repr]
    exact Nat.ofDigitChars_toDigits (by decide) (by decide)
  have hne : (toString n).toList ≠ [] := by
    rw [show (toString n).toList = Nat.toDigits 10 n from Nat.toList_repr]
    exact Nat.toDigits_ne_nil
  rw [parseUnsigned_digits (toString_digits n) hne (by rw [hvalue]; exact h), hvalue]

theorem parseSigned_digits (h : AllDigits cs) (hne : cs ≠ []) (hmax : Nat.ofDigitChars 10 cs 0 ≤ max) :
    parseSigned max cs = some (Nat.ofDigitChars 10 cs 0 : Nat) := by
  have hminus : ∀ rest, cs ≠ '-' :: rest := by
    intro rest heq
    have hsign := h '-' (heq ▸ List.mem_cons_self)
    cases hsign
  unfold parseSigned
  split
  · exact absurd rfl (hminus [])
  · next rest _ => exact absurd rfl (hminus rest)
  · rw [parseUnsigned_digits h hne hmax]
    rfl

/-! ## Padding -/

theorem padded_eq (width n : Nat) :
    padded width n = List.replicate (width - (Nat.toDigits 10 n).length) '0' ++ Nat.toDigits 10 n := by
  unfold padded
  rw [if_neg (by omega)]
  rfl

theorem padded_digits (width n : Nat) : AllDigits (padded width n) := by
  rw [padded_eq]
  intro c hc
  rcases List.mem_append.mp hc with hzero | hdigit
  · rw [List.eq_of_mem_replicate hzero]
    rfl
  · exact Nat.isDigit_of_mem_toDigits (by decide) (by decide) hdigit

theorem length_padded (hwidth : 0 < width) (h : n < 10 ^ width) : (padded width n).length = width := by
  have hle := (Nat.length_toDigits_le_iff (by decide) hwidth).mpr h
  rw [padded_eq, List.length_append, List.length_replicate]
  omega

theorem parse_padded (h : n ≤ max) : parseSigned max (padded width n) = some (n : Int) := by
  have hvalue : Nat.ofDigitChars 10 (padded width n) 0 = n := by
    rw [padded_eq, Nat.ofDigitChars_append, Nat.ofDigitChars_replicate_zero, Nat.mul_zero, Nat.ofDigitChars_ten_toDigits]
  have hne : padded width n ≠ [] := by
    rw [padded_eq]
    exact List.append_ne_nil_of_right_ne_nil _ Nat.toDigits_ne_nil
  have hparse := parseSigned_digits (padded_digits width n) hne (Nat.le_trans (Nat.le_of_eq hvalue) h)
  rwa [hvalue] at hparse

end OpenU60.Lib.Decimal
