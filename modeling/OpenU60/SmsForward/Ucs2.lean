/-
  OpenU60.SmsForward.Ucs2 — message text as UCS-2 hex (`encode_ucs2_hex`, `decode_ucs2_hex`).

  The encoder writes UTF-16 code units, the decoder reads each group of four digits as a
  character of its own:
  - `decode_encode`: what comes back is the text without its characters outside the Basic
    Multilingual Plane, whose surrogates are no characters.
  - `text_survives_iff_basic`: so a text comes back if and only if it has none.
  - `emoji_lost`: one that has.
-/

import OpenU60.SmsForward.Fetch

namespace OpenU60.SmsForward

open OpenU60.Lib

/-! ## The code -/

/-- `char::encode_utf16`. -/
def encodeUtf16 (c : Char) : List Nat :=
  if c.toNat < 0x10000 then [c.toNat]
  else [0xD800 + (c.toNat - 0x10000) / 0x400, 0xDC00 + (c.toNat - 0x10000) % 0x400]

def encodeUcs2Hex (text : String) : String := String.ofList ((text.toList.flatMap encodeUtf16).flatMap Text.hex4)

/-! ## Groups -/

theorem hexChars_of_hex {units : List Nat} {c : Char} (h : c ∈ units.flatMap Text.hex4) : Text.isWhitespace c = false := by
  obtain ⟨n, -, hc⟩ := List.mem_flatMap.mp h
  simp only [Text.hex4, List.mem_cons, List.not_mem_nil, or_false] at hc
  rcases hc with rfl | rfl | rfl | rfl <;> exact (Text.hexChar_ascii _).1

theorem trim_hex (units : List Nat) : Text.trim (units.flatMap Text.hex4) = units.flatMap Text.hex4 :=
  Text.trim_eq_self (fun _ hc => hexChars_of_hex (List.mem_of_mem_head? hc)) fun _ hc => hexChars_of_hex (List.mem_of_mem_getLast? hc)

theorem decodeUcs2_hex {units : List Nat} (h : ∀ n ∈ units, n < 65536) :
    decodeUcs2 (units.flatMap Text.hex4) = units.filterMap charOfCode := by
  induction units with
  | nil => rfl
  | cons n units ih =>
    have hgroup : (Text.parseRadix 16 Text.u16Max (Text.hex4 n)).bind charOfCode = charOfCode n := by
      rw [Text.parseRadix_hex4 (h n (List.mem_cons_self ..))]
      rfl
    rw [List.flatMap_cons]
    show ((Text.parseRadix 16 Text.u16Max (Text.hex4 n)).bind charOfCode).toList ++ decodeUcs2 (units.flatMap Text.hex4) = _
    rw [ih fun m hm => h m (List.mem_cons_of_mem _ hm), hgroup]
    cases hn : charOfCode n with
    | none => rw [List.filterMap_cons_none hn]; rfl
    | some c => rw [List.filterMap_cons_some hn]; rfl

/-! ## Characters -/

theorem toNat_valid (c : Char) : c.toNat.isValidChar := c.valid

theorem toNat_small (c : Char) : c.toNat < 0x110000 := by
  have hvalid := toNat_valid c
  unfold Nat.isValidChar at hvalid
  omega

theorem units_small (c : Char) : ∀ n ∈ encodeUtf16 c, n < 65536 := by
  have hc := toNat_small c
  intro n hn
  unfold encodeUtf16 at hn
  split at hn
  · rw [List.mem_singleton.mp hn]
    assumption
  · simp only [List.mem_cons, List.not_mem_nil, or_false] at hn
    obtain hn | hn := hn <;> omega

/-- A basic character is its unit, the units of another are no characters. -/
theorem decoded_units (c : Char) : (encodeUtf16 c).filterMap charOfCode = if c.toNat < 0x10000 then [c] else [] := by
  have hc := toNat_small c
  unfold encodeUtf16
  by_cases hbasic : c.toNat < 0x10000
  · rw [if_pos hbasic, if_pos hbasic]
    have hvalid : charOfCode c.toNat = some c := by
      unfold charOfCode
      rw [dif_pos (toNat_valid c)]
      rfl
    rw [List.filterMap_cons_some hvalid]
    rfl
  · rw [if_neg hbasic, if_neg hbasic]
    have hsurrogate : ∀ n, 0xD800 ≤ n → n < 0xE000 → charOfCode n = none := by
      intro n hlow hhigh
      have hinvalid : ¬ n.isValidChar := by
        unfold Nat.isValidChar
        omega
      unfold charOfCode
      rw [dif_neg hinvalid]
    rw [List.filterMap_cons_none (hsurrogate _ (by omega) (by omega)), List.filterMap_cons_none (hsurrogate _ (by omega) (by omega))]
    rfl

theorem filterMap_units (cs : List Char) : (cs.flatMap encodeUtf16).filterMap charOfCode = cs.filter fun c => c.toNat < 0x10000 := by
  induction cs with
  | nil => rfl
  | cons c cs ih =>
    rw [List.flatMap_cons, List.filterMap_append, decoded_units, ih, List.filter_cons]
    by_cases hbasic : c.toNat < 0x10000 <;> simp [hbasic]

theorem text_units_small (cs : List Char) : ∀ n ∈ cs.flatMap encodeUtf16, n < 65536 := by
  intro n hn
  obtain ⟨c, -, hn⟩ := List.mem_flatMap.mp hn
  exact units_small c n hn

/-- What comes back of a text. -/
theorem decode_encode (text : String) :
    decodeUcs2Hex (encodeUcs2Hex text) = String.ofList (text.toList.filter fun c => c.toNat < 0x10000) := by
  unfold decodeUcs2Hex encodeUcs2Hex
  rw [String.toList_ofList, trim_hex, decodeUcs2_hex (text_units_small text.toList), filterMap_units]

/-- A text comes back if and only if every character of it is in the Basic Multilingual Plane. -/
theorem text_survives_iff_basic (text : String) :
    decodeUcs2Hex (encodeUcs2Hex text) = text ↔ ∀ c ∈ text.toList, c.toNat < 0x10000 := by
  rw [decode_encode, ← String.toList_inj, String.toList_ofList, List.filter_eq_self]
  simp only [decide_eq_true_eq]

theorem emoji_lost : decodeUcs2Hex (encodeUcs2Hex "😀!") = "!" ∧ decodeUcs2Hex (encodeUcs2Hex "😀!") ≠ "😀!" := by decide

end OpenU60.SmsForward
