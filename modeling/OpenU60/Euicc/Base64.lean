/-
  OpenU60.Euicc.Base64 — the lenient reader (`euicc/src/b64.rs`: `decode`, in `OpenU60.Euicc.Bpp`)
  against the standard encoding.

  - `b64Decode_encode`: what was encoded is read back, padded or not, up to the first character
    outside the alphabet.
  - `length_b64Decode`: at most three bytes for four characters.
-/

import OpenU60.Euicc.Bpp

namespace OpenU60.Euicc

open OpenU60.Lib OpenU60.Euicc.Der

/-! ## The standard encoding -/

def alphabet : List Char := "ABCDEFGHIJKLMNOPQRSTUVWXYZabcdefghijklmnopqrstuvwxyz0123456789+/".toList

def letter (n : Nat) : Char := alphabet.getD n 'A'

/-- `padding` is what stands for a missing character. -/
def b64Encode (padding : List Char) : Bytes → List Char
  | a :: b :: c :: rest =>
    letter (a.toNat / 4) :: letter (a.toNat % 4 * 16 + b.toNat / 16) :: letter (b.toNat % 16 * 4 + c.toNat / 64) :: letter (c.toNat % 64) ::
      b64Encode padding rest
  | [a, b] => [letter (a.toNat / 4), letter (a.toNat % 4 * 16 + b.toNat / 16), letter (b.toNat % 16 * 4)] ++ padding
  | [a] => [letter (a.toNat / 4), letter (a.toNat % 4 * 16)] ++ padding ++ padding
  | [] => []

/-- Nothing of what follows belongs to the text. -/
def Foreign (suffix : List Char) : Prop := ∀ c ∈ suffix.head?, sextet c = none

variable {padding suffix : List Char}

/-! ## Reading -/

theorem sextet_letter {n : Nat} (h : n < 64) : sextet (letter n) = some n := by
  have hall : ∀ n < 64, sextet (letter n) = some n := by decide +kernel
  exact hall n h

/-- The sextets of the leading run. -/
def sextets (text : List Char) : List Nat := (text.takeWhile fun c => (sextet c).isSome).filterMap sextet

theorem sextets_letter {n : Nat} (h : n < 64) (text : List Char) : sextets (letter n :: text) = n :: sextets text := by
  have hsome := sextet_letter h
  unfold sextets
  rw [List.takeWhile_cons, hsome, Option.isSome_some, if_pos rfl, List.filterMap_cons, hsome]

theorem sextets_foreign (h : Foreign suffix) : sextets suffix = [] := by
  cases suffix with
  | nil => rfl
  | cons c suffix =>
    unfold sextets
    rw [List.takeWhile_cons, h c rfl]
    rfl

theorem b64Decode_eq (text : List Char) : b64Decode text = (Split.chunks 4 (sextets text)).flatMap fromSextets := rfl

theorem foreign_append (hpadding : Foreign padding) (hsuffix : Foreign suffix) : Foreign (padding ++ suffix) := by
  cases padding with
  | nil => exact hsuffix
  | cons c padding => exact fun d hd => hpadding d hd

theorem byte_eq {n : Nat} {b : UInt8} (h : n % 256 = b.toNat) : UInt8.ofNat n = b := by
  apply UInt8.toNat_inj.mp
  rw [UInt8.toNat_ofNat']
  exact h

/-- What was encoded is read back, whatever foreign text follows. -/
theorem b64Decode_encode (hpadding : Foreign padding) (hsuffix : Foreign suffix) (x : Bytes) : b64Decode (b64Encode padding x ++ suffix) = x := by
  rw [b64Decode_eq]
  fun_induction b64Encode padding x with
  | case1 a b c rest ih =>
    have ha := a.toNat_lt
    have hb := b.toNat_lt
    have hc := c.toNat_lt
    have hgroup : ∀ w x y z : Nat, ∀ l : List Nat, Split.chunks 4 (w :: x :: y :: z :: l) = [w, x, y, z] :: Split.chunks 4 l :=
      fun w x y z l => Split.chunks_append (c := [w, x, y, z]) (Nat.succ_pos 3) rfl l
    rw [List.cons_append, List.cons_append, List.cons_append, List.cons_append, sextets_letter (by omega), sextets_letter (by omega),
      sextets_letter (by omega), sextets_letter (by omega), hgroup, List.flatMap_cons, ih, fromSextets, byte_eq (b := a) (by omega),
      byte_eq (b := b) (by omega), byte_eq (b := c) (by omega)]
    rfl
  | case2 a b =>
    have ha := a.toNat_lt
    have hb := b.toNat_lt
    have hrest := sextets_foreign (foreign_append hpadding hsuffix)
    rw [List.append_assoc, List.cons_append, List.cons_append, List.cons_append, List.nil_append, sextets_letter (by omega),
      sextets_letter (by omega), sextets_letter (by omega), hrest]
    show fromSextets [_, _, _] ++ [] = _
    rw [fromSextets, byte_eq (b := a) (by omega), byte_eq (b := b) (by omega)]
    rfl
  | case3 a =>
    have ha := a.toNat_lt
    have hrest := sextets_foreign (foreign_append hpadding (foreign_append hpadding hsuffix))
    rw [List.append_assoc, List.append_assoc, List.cons_append, List.cons_append, List.nil_append, sextets_letter (by omega),
      sextets_letter (by omega), hrest]
    show fromSextets [_, _] ++ [] = _
    rw [fromSextets, byte_eq (b := a) (by omega)]
    rfl
  | case4 =>
    rw [List.nil_append, sextets_foreign hsuffix]
    rfl

/-! ## Lengths -/

theorem length_fromSextets (group : List Nat) : 4 * (fromSextets group).length ≤ 3 * group.length := by
  unfold fromSextets
  split
  · show 4 * 1 ≤ 3 * 2
    omega
  · show 4 * 2 ≤ 3 * 3
    omega
  · show 4 * 3 ≤ 3 * 4
    omega
  · exact Nat.zero_le _

theorem length_b64Decode (text : List Char) : 4 * (b64Decode text).length ≤ 3 * text.length := by
  have hgroups : ∀ groups : List (List Nat), 4 * (groups.flatMap fromSextets).length ≤ 3 * groups.flatten.length := by
    intro groups
    induction groups with
    | nil => exact Nat.le_refl _
    | cons g groups ih =>
      have hg := length_fromSextets g
      rw [List.flatMap_cons, List.flatten_cons, List.length_append, List.length_append]
      omega
  have hall := hgroups (Split.chunks 4 (sextets text))
  rw [Split.flatten_chunks (by decide)] at hall
  have hrun : (sextets text).length ≤ text.length :=
    Nat.le_trans (List.length_filterMap_le _ _) (List.takeWhile_sublist _).length_le
  rw [b64Decode_eq]
  omega

/-! ## The reader -/

/-- The standard encoding with `=`, and without. -/
def standard : Bytes → List Char := b64Encode ['=']

def standardNoPad : Bytes → List Char := b64Encode []

theorem b64_reader (x : Bytes) :
    (∀ suffix, Foreign suffix → b64Decode (standard x ++ suffix) = x ∧ b64Decode (standardNoPad x ++ suffix) = x) ∧
    ∀ text, 4 * (b64Decode text).length ≤ 3 * text.length := by
  have hpad : Foreign ['='] := by
    intro c hc
    cases hc
    decide
  have hnone : Foreign [] := fun c hc => nomatch hc
  refine ⟨?_, length_b64Decode⟩
  intro suffix hsuffix
  exact ⟨b64Decode_encode hpad hsuffix x, b64Decode_encode hnone hsuffix x⟩

/-- Two bytes, and an URL-safe character behind them. -/
theorem b64_reader_suffix : b64Decode (standard [0xFF, 0x00] ++ ['-', 'A']) = [0xFF, 0x00] ∧ b64Decode (standardNoPad [0xFF, 0x00] ++ ['-', 'A']) = [0xFF, 0x00] := by
  refine (b64_reader [0xFF, 0x00]).1 ['-', 'A'] ?_
  intro c hc
  cases hc
  decide

end OpenU60.Euicc
