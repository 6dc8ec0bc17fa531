/-
  OpenU60.Web.SmsText — a text written as UCS-2 hex is read back (`encode_ucs2`, `content`).

  The encoder writes upper-case digits, four for a code unit, and the decoder collects the
  code units before it pairs surrogates:
  - `quads_hex`: the groups of four are the code units.
  - `lossy_units`: and these are the characters, emoji included.
  - `content_encode`: so a text that keeps all its characters comes back, unless it is empty.
-/

import OpenU60.Web.Sms

namespace OpenU60.Web.Sms

open OpenU60.Lib

/-! ## Digits -/

def hexByte (n : Nat) : UInt8 := UInt8.ofNat (Text.hexChar n).toNat

theorem hexChar_mod (n : Nat) : Text.hexChar n = Text.hexChar (n % 16) := by simp [Text.hexChar]

theorem encode_hexChar (n : Nat) : String.utf8EncodeChar (Text.hexChar n) = [hexByte n] := by
  have hall : ∀ d < 16, String.utf8EncodeChar (Text.hexChar d) = [hexByte d] := by decide
  have hmod := hall (n % 16) (Nat.mod_lt _ (by omega))
  unfold hexByte at hmod ⊢
  rw [hexChar_mod n]
  exact hmod

theorem hexDigit_hexByte (n : Nat) : hexDigit (hexByte n) = some (n % 16) := by
  have hall : ∀ d < 16, hexDigit (hexByte d) = some d := by decide
  have hmod := hall (n % 16) (Nat.mod_lt _ (by omega))
  unfold hexByte at hmod ⊢
  rw [hexChar_mod n]
  exact hmod

theorem utf8_hex4 (n : Nat) : Utf8.utf8 (Text.hex4 n) = [hexByte (n / 4096), hexByte (n / 256), hexByte (n / 16), hexByte n] := by
  unfold Utf8.utf8 Text.hex4
  simp only [List.flatMap_cons, List.flatMap_nil, encode_hexChar]
  rfl

theorem group4_hex {n : Nat} (h : n < 65536) :
    group4 (hexByte (n / 4096)) (hexByte (n / 256)) (hexByte (n / 16)) (hexByte n) = some n := by
  unfold group4
  simp only [List.foldlM_cons, List.foldlM_nil, hexDigit_hexByte, Option.map_some, Option.bind_eq_bind, Option.bind_some]
  refine congrArg some ?_
  omega

/-! ## Code units -/

theorem utf8_units (n : Nat) (units : List Nat) : Utf8.utf8 ((n :: units).flatMap Text.hex4) =
    [hexByte (n / 4096), hexByte (n / 256), hexByte (n / 16), hexByte n] ++ Utf8.utf8 (units.flatMap Text.hex4) := by
  rw [List.flatMap_cons, ← utf8_hex4]
  exact List.flatMap_append

theorem quads_hex {units : List Nat} (h : ∀ n ∈ units, n < 65536) : quads (Utf8.utf8 (units.flatMap Text.hex4)) = units := by
  induction units with
  | nil => rfl
  | cons n units ih =>
    rw [utf8_units]
    show (group4 _ _ _ _).toList ++ quads (Utf8.utf8 (units.flatMap Text.hex4)) = _
    rw [group4_hex (h n (List.mem_cons_self ..)), ih fun m hm => h m (List.mem_cons_of_mem _ hm)]
    rfl

theorem isHex_units (units : List Nat) : isHex (Utf8.utf8 (units.flatMap Text.hex4)) = true := by
  have hboth : (Utf8.utf8 (units.flatMap Text.hex4)).length % 4 = 0 ∧
      ∀ b ∈ Utf8.utf8 (units.flatMap Text.hex4), (hexDigit b).isSome = true := by
    induction units with
    | nil => exact ⟨rfl, fun b hb => absurd hb List.not_mem_nil⟩
    | cons n units ih =>
      rw [utf8_units]
      constructor
      · rw [List.length_append]
        simp only [List.length_cons, List.length_nil]
        omega
      · intro b hb
        obtain hb | hb := List.mem_append.mp hb
        · simp only [List.mem_cons, List.not_mem_nil, or_false] at hb
          obtain rfl | rfl | rfl | rfl := hb <;> rw [hexDigit_hexByte] <;> rfl
        · exact ih.2 b hb
  unfold isHex
  rw [Bool.and_eq_true, beq_iff_eq, List.all_eq_true]
  exact hboth

theorem lossy_plain {u : Nat} (h : isSurrogate u = false) (rest : List Nat) :
    fromUtf16Lossy (u :: rest) = unitChar u :: fromUtf16Lossy rest := by
  rw [fromUtf16Lossy.eq_def]
  simp only [h, Bool.not_false, if_true]

theorem lossy_pair {u v : Nat} (hu : u < 0x400) (hv : v < 0x400) (rest : List Nat) :
    fromUtf16Lossy ((0xD800 + u) :: (0xDC00 + v) :: rest) = Char.ofNat (0x10000 + u * 0x400 + v) :: fromUtf16Lossy rest := by
  have hhigh : isSurrogate (0xD800 + u) = true := by
    simp only [isSurrogate, Bool.and_eq_true, decide_eq_true_eq]
    omega
  have hlow : (decide (0xDC00 ≤ 0xDC00 + v) && decide (0xDC00 + v ≤ 0xDFFF)) = true := by
    simp only [Bool.and_eq_true, decide_eq_true_eq]
    omega
  have hfirst : ¬ 0xDC00 ≤ 0xD800 + u := by omega
  rw [fromUtf16Lossy.eq_def]
  simp only [hhigh, Bool.not_true, Bool.false_eq_true, if_false, if_neg hfirst, hlow, if_true, Nat.add_sub_cancel_left]

theorem lossy_encodeUtf16 (c : Char) (rest : List Nat) :
    fromUtf16Lossy (SmsForward.encodeUtf16 c ++ rest) = c :: fromUtf16Lossy rest := by
  have hsmall := SmsForward.toNat_small c
  have hvalid := SmsForward.toNat_valid c
  unfold Nat.isValidChar at hvalid
  unfold SmsForward.encodeUtf16
  by_cases hbasic : c.toNat < 0x10000
  · have hplain : isSurrogate c.toNat = false := by
      simp only [isSurrogate, Bool.and_eq_false_iff, decide_eq_false_iff_not]
      omega
    rw [if_pos hbasic, List.singleton_append, lossy_plain hplain]
    exact congrArg (· :: fromUtf16Lossy rest) (Char.ofNat_toNat c)
  · have hpair := lossy_pair (u := (c.toNat - 0x10000) / 0x400) (v := (c.toNat - 0x10000) % 0x400) (by omega) (by omega) rest
    have hvalue : 0x10000 + (c.toNat - 0x10000) / 0x400 * 0x400 + (c.toNat - 0x10000) % 0x400 = c.toNat := by omega
    rw [if_neg hbasic, List.cons_append, List.singleton_append, hpair, hvalue, Char.ofNat_toNat]

theorem lossy_units (cs : List Char) : fromUtf16Lossy (cs.flatMap SmsForward.encodeUtf16) = cs := by
  induction cs with
  | nil => rfl
  | cons c cs ih => rw [List.flatMap_cons, lossy_encodeUtf16, ih]

/-! ## Text -/

theorem content_encode {text : String} (hne : text ≠ "") (hkeep : ∀ c ∈ text.toList, keep c = true) :
    content (encodeUcs2 text) = text := by
  have hdecoded : decodeUcs2 (Utf8.utf8 (encodeUcs2 text).toList) = text.toList := by
    unfold decodeUcs2 encodeUcs2
    rw [String.toList_ofList, quads_hex (SmsForward.text_units_small _), lossy_units]
  have hhex : isHex (Utf8.utf8 (encodeUcs2 text).toList) = true := by
    unfold encodeUcs2
    rw [String.toList_ofList]
    exact isHex_units _
  have hfilled : text.toList.isEmpty = false := by
    rw [List.isEmpty_eq_false_iff]
    intro hempty
    exact hne (String.toList_inj.mp hempty)
  unfold content
  simp only [hhex, if_true, hdecoded, List.filter_eq_self.mpr hkeep, hfilled, Bool.false_eq_true, if_false, String.ofList_toList]

end OpenU60.Web.Sms
