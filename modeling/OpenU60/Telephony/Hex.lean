/-
  OpenU60.Telephony.Hex — the octets and septets of a reply's hex (`zte-agent/src/telephony.rs`:
  `hex_to_bytes`, the loop of `decode_gsm7`).

  - `slices_iff`: the slices of a text panic exactly if one ends inside of a character.
  - `hexToBytes_hex`: hex of either case is read as its octets.
  - `septetsFrom_eq`: the loop finds the septets of its octets, `septetsFrom_pack` those that were packed
    (`Stk.Command.pack`) unless they leave just a septet's room.
-/

import OpenU60.Lib.Fallible
import OpenU60.Stk.Input
import OpenU60.Telephony.Ussd

namespace OpenU60.Telephony

open OpenU60.Lib OpenU60.Lib.Fallible OpenU60.Lib.Utf8

/-! ## Slices -/

theorem slicesFrom_iff {n turns : Nat} {text : Chars} :
    (∃ slices, slicesFrom n turns text = some slices) ↔ ∀ k ≤ turns, Boundary text (k * n) := by
  induction turns generalizing text with
  | zero =>
    refine iff_of_true ⟨[], rfl⟩ ?_
    intro k hk
    rw [Nat.le_zero.mp hk, Nat.zero_mul]
    exact boundary_zero text
  | succ turns ih =>
    cases hsplit : splitAtByte n text with
    | none =>
      refine iff_of_false ?_ ?_
      · intro h
        obtain ⟨slices, h⟩ := h
        rw [slicesFrom, hsplit] at h
        cases h
      · intro h
        have hone := h 1 (by omega)
        rw [Nat.one_mul] at hone
        obtain ⟨init, rest, hsome⟩ := boundary_iff.mp hone
        cases hsplit.symm.trans hsome
    | some p =>
      obtain ⟨init, rest⟩ := p
      obtain ⟨rfl, rfl⟩ := splitAtByte_spec hsplit
      have hrest : (∃ slices, slicesFrom (Text.byteLen init) (turns + 1) (init ++ rest) = some slices) ↔
          ∃ slices, slicesFrom (Text.byteLen init) turns rest = some slices := by
        rw [slicesFrom, hsplit]
        exact exists_bind_pure
      rw [hrest, ih]
      constructor
      · intro h k hk
        cases k with
        | zero =>
          rw [Nat.zero_mul]
          exact boundary_zero _
        | succ k =>
          rw [Nat.succ_mul, Nat.add_comm, boundary_append]
          exact h k (by omega)
      · intro h k hk
        have hnext := h (k + 1) (by omega)
        rw [Nat.succ_mul, Nat.add_comm, boundary_append] at hnext
        exact hnext

/-- The loop panics exactly if a slice ends inside of a character. -/
theorem slices_iff {n : Nat} (hn : 0 < n) {text : Chars} :
    (∃ pieces, slices n text = some pieces) ↔ ∀ k, k * n ≤ Text.byteLen text → Boundary text (k * n) := by
  unfold slices
  rw [slicesFrom_iff]
  constructor
  · intro h k hk
    exact h k ((Nat.le_div_iff_mul_le hn).mpr hk)
  · intro h k hk
    exact h k ((Nat.le_div_iff_mul_le hn).mp hk)

theorem slicesFrom_flatten {n : Nat} {pieces : List Chars} (h : ∀ piece ∈ pieces, Text.byteLen piece = n) :
    slicesFrom n pieces.length pieces.flatten = some pieces := by
  induction pieces with
  | nil => rfl
  | cons piece pieces ih =>
    have hsplit := splitAtByte_append piece pieces.flatten
    rw [h piece List.mem_cons_self] at hsplit
    rw [List.flatten_cons, List.length_cons, slicesFrom, hsplit]
    show (slicesFrom n pieces.length pieces.flatten >>= fun slices => some (piece :: slices)) = _
    rw [ih fun piece hpiece => h piece (List.mem_cons_of_mem _ hpiece)]
    rfl

theorem slices_flatten {n : Nat} (hn : 0 < n) {pieces : List Chars} (h : ∀ piece ∈ pieces, Text.byteLen piece = n) :
    slices n pieces.flatten = some pieces := by
  have hlen : Text.byteLen pieces.flatten = pieces.length * n := by
    clear hn
    induction pieces with
    | nil => rw [List.length_nil, Nat.zero_mul]; rfl
    | cons piece pieces ih =>
      rw [List.flatten_cons, Text.byteLen_append, h piece List.mem_cons_self, ih fun piece hpiece => h piece (List.mem_cons_of_mem _ hpiece),
        List.length_cons, Nat.succ_mul, Nat.add_comm]
  unfold slices
  rw [hlen, Nat.mul_div_cancel _ hn]
  exact slicesFrom_flatten h

/-! ## Hex -/

/-- Two digits for each octet, of either case. -/
inductive Hex : Bytes → Chars → Prop
  | nil : Hex [] []
  | cons {byte : UInt8} {a b : Char} {bytes : Bytes} {hex : Chars} : Text.digitVal 16 a = some (byte.toNat / 16) →
      Text.digitVal 16 b = some (byte.toNat % 16) → Hex bytes hex → Hex (byte :: bytes) (a :: b :: hex)

theorem Hex.of_nil {bytes : Bytes} (h : Hex bytes []) : bytes = [] := by
  cases h
  rfl

theorem digitVal_some {c : Char} {d : Nat} (h : Text.digitVal 16 c = some d) : c.utf8Size = 1 ∧ c ≠ '+' ∧ d < 16 := by
  unfold Text.digitVal at h
  obtain ⟨hdigit, hlt⟩ := Option.filter_eq_some_iff.mp h
  have hlow : '0' ≤ c := by
    split at hdigit
    · rename_i hin
      exact hin.1
    · split at hdigit
      · rename_i hin
        exact Char.le_trans (by decide) hin.1
      · split at hdigit
        · rename_i hin
          exact Char.le_trans (by decide) hin.1
        · cases hdigit
  have hhigh : c ≤ 'f' := by
    split at hdigit
    · rename_i hin
      exact Char.le_trans hin.2 (by decide)
    · split at hdigit
      · rename_i hin
        exact hin.2
      · split at hdigit
        · rename_i hin
          exact Char.le_trans hin.2 (by decide)
        · cases hdigit
  refine ⟨if_pos (Char.le_trans hhigh (by decide) : c ≤ '\x7f'), ?_, of_decide_eq_true hlt⟩
  rintro rfl
  exact absurd hlow (by decide)

theorem parse_pair {byte : UInt8} {a b : Char} (ha : Text.digitVal 16 a = some (byte.toNat / 16))
    (hb : Text.digitVal 16 b = some (byte.toNat % 16)) : Text.parseRadix 16 Text.u8Max [a, b] = some byte.toNat := by
  have hmax : Text.u8Max = 255 := rfl
  have hbyte := byte.toNat_lt
  rw [Text.parseRadix_digits (digitVal_some ha).2.1]
  simp only [Text.digitsFrom, ha, hb]
  rw [if_pos (by omega), if_pos (by omega)]
  congr 1
  omega

/-- Hex in slices of two. -/
theorem Hex.pairs {bytes : Bytes} {hex : Chars} (h : Hex bytes hex) : ∃ pairs : List Chars, hex = pairs.flatten ∧
    (∀ pair ∈ pairs, Text.byteLen pair = 2) ∧
    pairs.filterMap (fun pair => (Text.parseRadix 16 Text.u8Max pair).map UInt8.ofNat) = bytes := by
  induction h with
  | nil => exact ⟨[], rfl, nofun, rfl⟩
  | @cons byte a b bytes hex ha hb _ ih =>
    obtain ⟨pairs, rfl, hlen, hparse⟩ := ih
    refine ⟨[a, b] :: pairs, rfl, ?_, ?_⟩
    · intro pair hpair
      cases List.mem_cons.mp hpair with
      | inl hfirst =>
        rw [hfirst, Text.byteLen_cons, Text.byteLen_cons, (digitVal_some ha).1, (digitVal_some hb).1]
        rfl
      | inr hlater => exact hlen pair hlater
    · have hfirst : (Text.parseRadix 16 Text.u8Max [a, b]).map UInt8.ofNat = some byte := by
        rw [parse_pair ha hb, Option.map_some, UInt8.ofNat_toNat]
      exact (List.filterMap_cons_some (a := [a, b]) hfirst).trans (congrArg (byte :: ·) hparse)

theorem hexToBytes_hex {bytes : Bytes} {hex : Chars} (h : Hex bytes hex) : hexToBytes hex = some bytes := by
  obtain ⟨pairs, rfl, hlen, hparse⟩ := h.pairs
  unfold hexToBytes
  rw [slices_flatten (by decide) hlen]
  exact congrArg some hparse

/-! ## Septets -/

theorem toNat_septet (data : Bytes) (bit : Nat) : (Stk.septet data bit).toNat =
    ((data.getD (bit / 8) 0).toNat + (data.getD (bit / 8 + 1) 0).toNat * 256) / 2 ^ (bit % 8) % 128 := by
  unfold Stk.septet
  dsimp only
  rw [UInt8.toNat_ofNat']
  omega

/-- The bits of two octets from bit `8 - r` of the first on. -/
theorem joint (p byte : Nat) {r : Nat} (hr : r ≤ 8) : (p + byte * 256) / 2 ^ (8 - r) = byte * 2 ^ r + p / 2 ^ (8 - r) := by
  have hwhole : byte * 256 = 2 ^ (8 - r) * (byte * 2 ^ r) := by
    rw [Nat.mul_left_comm, ← Nat.pow_add]
    congr 1
    rw [show 8 - r + r = 8 by omega]
  rw [hwhole, Nat.add_mul_div_left _ _ (Nat.two_pow_pos _), Nat.add_comm]

/-- What the loop makes of an octet and the one before. -/
def joined (shift : Nat) (before : Option UInt8) (byte : UInt8) : Nat :=
  match before with
  | some before => byte.toNat * 2 ^ shift + before.toNat / 2 ^ (8 - shift)
  | none => byte.toNat

/-- Eight bits an octet, seven a septet. -/
theorem septets_of_octets (n : Nat) : n * 8 / 7 = n + n / 7 := by omega

theorem joined_septet (past bytes : Bytes) (byte : UInt8) : joined (past.length % 7) past.getLast? byte % 128 =
    (Stk.septet (past ++ byte :: bytes) (past.length * 8 / 7 * 7)).toNat := by
  rw [toNat_septet, septets_of_octets]
  by_cases hwhole : past.length % 7 = 0
  · have hindex : (past.length + past.length / 7) * 7 / 8 = past.length := by omega
    have hbit : (past.length + past.length / 7) * 7 % 8 = 0 := by omega
    have hown : joined (past.length % 7) past.getLast? byte = byte.toNat := by
      unfold joined
      cases past.getLast? with
      | none => rfl
      | some before =>
        have hlt := before.toNat_lt
        dsimp only
        rw [hwhole, Nat.pow_zero, Nat.mul_one, Nat.sub_zero, Nat.div_eq_of_lt hlt, Nat.add_zero]
    rw [hown, hindex, hbit]
    simp only [List.getD_eq_getElem?_getD, List.getElem?_append_right (Nat.le_refl _), Nat.sub_self, List.getElem?_cons_zero, Option.getD_some]
    omega
  · obtain rfl | ⟨init, before, rfl⟩ := past.eq_nil_or_concat'
    · exact absurd rfl hwhole
    · rw [List.length_append, List.length_singleton] at hwhole ⊢
      have hindex : (init.length + 1 + (init.length + 1) / 7) * 7 / 8 = init.length := by omega
      have hbit : (init.length + 1 + (init.length + 1) / 7) * 7 % 8 = 8 - (init.length + 1) % 7 := by omega
      rw [List.getLast?_concat, hindex, hbit, List.append_assoc, List.singleton_append]
      have hfirst : (init ++ before :: byte :: bytes).getD init.length 0 = before := by
        simp [List.getD_eq_getElem?_getD]
      have hsecond : (init ++ before :: byte :: bytes).getD (init.length + 1) 0 = byte := by
        simp [List.getD_eq_getElem?_getD]
      rw [hfirst, hsecond, joint _ _ (by omega)]
      rfl

/-- Every seventh octet ends with a septet of its own. -/
theorem last_septet (past bytes : Bytes) (byte : UInt8) (h : past.length % 7 = 6) : byte.toNat / 2 =
    (Stk.septet (past ++ byte :: bytes) ((past.length * 8 / 7 + 1) * 7)).toNat := by
  have hindex : (past.length * 8 / 7 + 1) * 7 / 8 = past.length := by omega
  have hbit : (past.length * 8 / 7 + 1) * 7 % 8 = 1 := by omega
  have hbyte := byte.toNat_lt
  rw [toNat_septet, hindex, hbit]
  simp only [List.getD_eq_getElem?_getD, List.getElem?_append_right (Nat.le_refl _), Nat.sub_self, List.getElem?_cons_zero, Option.getD_some]
  omega

/-- The loop after the octets `past`: it is as many bits into the last of them as there are octets since
    the last whole seven, and finds the septets from there on. -/
theorem septetsFrom_eq (past bytes : Bytes) : septetsFrom (past.length % 7) past.getLast? bytes =
    (List.range' (past.length * 8 / 7) ((past.length + bytes.length) * 8 / 7 - past.length * 8 / 7)).map fun j =>
      (Stk.septet (past ++ bytes) (j * 7)).toNat := by
  induction bytes generalizing past with
  | nil => simp [septetsFrom]
  | cons byte bytes ih =>
    have hnext := ih (past ++ [byte])
    rw [List.length_append, List.length_singleton, List.append_assoc, List.singleton_append, List.getLast?_concat] at hnext
    have hval := joined_septet past bytes byte
    have hlen : past.length + (byte :: bytes).length = past.length + 1 + bytes.length := by
      rw [List.length_cons]
      omega
    rw [hlen]
    show joined (past.length % 7) past.getLast? byte % 128 :: _ = _
    by_cases hseventh : past.length % 7 = 6
    · have hshift : (past.length + 1) % 7 = 0 := by omega
      have hstart : (past.length + 1) * 8 / 7 = past.length * 8 / 7 + 1 + 1 := by omega
      have hcount : (past.length + 1 + bytes.length) * 8 / 7 - past.length * 8 / 7 =
          (past.length + 1 + bytes.length) * 8 / 7 - (past.length * 8 / 7 + 1 + 1) + 1 + 1 := by omega
      rw [hshift, hstart] at hnext
      rw [if_pos (by omega), hnext, hval, last_septet past bytes byte hseventh, hcount, List.range'_succ, List.range'_succ,
        List.map_cons, List.map_cons]
    · have hshift : (past.length + 1) % 7 = past.length % 7 + 1 := by omega
      have hstart : (past.length + 1) * 8 / 7 = past.length * 8 / 7 + 1 := by
        rw [septets_of_octets, septets_of_octets]
        omega
      have hcount : (past.length + 1 + bytes.length) * 8 / 7 - past.length * 8 / 7 =
          (past.length + 1 + bytes.length) * 8 / 7 - (past.length * 8 / 7 + 1) + 1 := by omega
      rw [hshift, hstart] at hnext
      rw [if_neg (by omega), hnext, hval, hcount, List.range'_succ, List.map_cons]

theorem septetsFrom_pack {septets : List Nat} (h : ∀ s ∈ septets, s < 128) (hseven : septets.length % 8 ≠ 7) :
    septetsFrom 0 none (Stk.Command.pack septets) = septets := by
  have hloop := septetsFrom_eq [] (Stk.Command.pack septets)
  simp only [List.length_nil, Nat.zero_mod, Nat.zero_mul, Nat.zero_div, Nat.zero_add, Nat.sub_zero, List.getLast?_nil, List.nil_append] at hloop
  have hunpack := Stk.unpack_pack h
  rw [if_neg hseven, List.append_nil] at hunpack
  have hback : (septets.map UInt8.ofNat).map UInt8.toNat = septets := by
    rw [List.map_map]
    refine (List.map_congr_left ?_).trans (List.map_id septets)
    intro s hs
    have hlt := h s hs
    show (UInt8.ofNat s).toNat = s
    rw [UInt8.toNat_ofNat']
    omega
  rw [← hunpack, List.map_map] at hback
  rw [hloop, ← List.range_eq_range']
  exact hback

end OpenU60.Telephony
