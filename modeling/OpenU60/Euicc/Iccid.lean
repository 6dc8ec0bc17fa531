/-
  OpenU60.Euicc.Iccid — ICCIDs in swapped BCD (`euicc/src/hex.rs`: `encode`, `decode`,
  `iccid_to_bcd`; `bcd_to_iccid` is in `OpenU60.Euicc.Bpp`).

  Both directions are about nibbles, the low one of a byte first: `nibbles` takes bytes apart and
  `pack` puts them together, an odd one with an F.
  - `iccidToBcd_text`: digits become the packed nibbles, padded.
  - `iccidToBcd_bcdToIccid`: a card value that was printed is read back, padded.
  - `bcdToIccid_iccidToBcd`: digits are printed as they were, if there are any.
-/

import OpenU60.Euicc.Bpp
import OpenU60.Lib.Decimal
import OpenU60.Lib.Fallible
import OpenU60.Lib.Utf8

namespace OpenU60.Euicc

open OpenU60.Lib OpenU60.Lib.Fallible OpenU60.Euicc.Der

/-! ## The code -/

/-- `hex::encode` -/
def hexEncode (bin : Bytes) : List Char := bin.flatMap fun b => [bcdDigit (b.toNat / 16), bcdDigit (b.toNat % 16)]

/-- `(c as char).to_digit(16)` -/
def hexDigit (c : UInt8) : Option Nat := Text.digitVal 16 (Char.ofNat c.toNat)

/-- `hex::decode`, of the text's bytes. -/
def hexDecode : Bytes → Option Bytes
  | [] => some []
  | [_] => none
  | h :: l :: rest => do
    let h ← hexDigit h
    let l ← hexDigit l
    let rest ← hexDecode rest
    some (UInt8.ofNat (h * 16 + l) :: rest)

def swapPairs {α : Type} : List α → List α
  | a :: b :: rest => b :: a :: swapPairs rest
  | rest => rest

/-- `resize` with FF. -/
def padded (n : Nat) (b : Bytes) : Bytes := b ++ List.replicate (n - b.length) 0xFF

def iccidToBcd (digits : List Char) (paddingTo : Nat) : Option Bytes := do
  let chars := Utf8.utf8 digits
  let chars := if chars.length % 2 = 0 then chars else chars ++ [0x66]
  let chars := swapPairs chars
  let _ ← Utf8.fromUtf8 chars
  let out ← hexDecode chars
  if paddingTo < out.length then none else some (padded paddingTo out)

/-! ## Nibbles -/

/-- The low nibble first. -/
def nibbles (b : Bytes) : List Nat := b.flatMap fun x => [x.toNat % 16, x.toNat / 16]

def pack : List Nat → Bytes
  | a :: b :: rest => UInt8.ofNat (b * 16 + a) :: pack rest
  | [a] => [UInt8.ofNat (15 * 16 + a)]
  | [] => []

/-- Without the Fs at the end, the first nibble kept. -/
def trimmed (ds : List Nat) : List Nat := ds.take 1 ++ ((ds.drop 1).reverse.dropWhile (· == 15)).reverse

def Nibbles (ds : List Nat) : Prop := ∀ d ∈ ds, d < 16

variable {ds es : List Nat} {n k : Nat} {b : Bytes}

theorem nibbles_lt (b : Bytes) : Nibbles (nibbles b) := by
  intro d hd
  obtain ⟨x, -, hx⟩ := List.mem_flatMap.mp hd
  have hlt := x.toNat_lt
  cases List.mem_cons.mp hx with
  | inl heq => omega
  | inr hx =>
    have heq := List.mem_singleton.mp hx
    omega

theorem nibbles_append (u v : Bytes) : nibbles (u ++ v) = nibbles u ++ nibbles v := List.flatMap_append

theorem nibbles_replicate (k : Nat) : nibbles (List.replicate k 0xFF) = List.replicate (2 * k) 15 := by
  induction k with
  | zero => rfl
  | succ k ih =>
    rw [List.replicate_succ, Nat.mul_succ, List.replicate_succ, List.replicate_succ, ← ih]
    rfl

theorem length_nibbles (b : Bytes) : (nibbles b).length = 2 * b.length := by
  induction b with
  | nil => rfl
  | cons x b ih =>
    show (nibbles b).length + 2 = _
    rw [ih, List.length_cons]
    omega

theorem pack_nibbles (b : Bytes) : pack (nibbles b) = b := by
  induction b with
  | nil => rfl
  | cons x b ih =>
    have hx : UInt8.ofNat (x.toNat / 16 * 16 + x.toNat % 16) = x := by
      rw [Nat.div_add_mod']
      exact UInt8.ofNat_toNat
    show UInt8.ofNat (x.toNat / 16 * 16 + x.toNat % 16) :: pack (nibbles b) = _
    rw [hx, ih]

theorem length_pack (ds : List Nat) : (pack ds).length = (ds.length + 1) / 2 := by
  fun_induction pack ds with
  | case1 a b rest ih =>
    simp only [List.length_cons, ih]
    omega
  | case2 a => simp only [List.length_singleton]
  | case3 => rfl

theorem pack_replicate (k : Nat) : pack (List.replicate k 15) = List.replicate ((k + 1) / 2) 0xFF := by
  induction k using Nat.strongRecOn with
  | ind k ih =>
    cases k with
    | zero => rfl
    | succ k =>
      cases k with
      | zero => rfl
      | succ k =>
        have hhalf : (k + 1 + 1 + 1) / 2 = (k + 1) / 2 + 1 := by omega
        rw [hhalf, List.replicate_succ, List.replicate_succ, pack, ih k (by omega), List.replicate_succ]
        rfl

/-- Fs behind nibbles are FFs behind bytes. -/
theorem pack_append (ds : List Nat) (k : Nat) : pack (ds ++ List.replicate k 15) = padded ((ds.length + k + 1) / 2) (pack ds) := by
  have hlen := length_pack ds
  unfold padded
  fun_induction pack ds generalizing k with
  | case1 a b rest ih =>
    have hrest := ih k (length_pack rest)
    have hcount : ((a :: b :: rest).length + k + 1) / 2 - (UInt8.ofNat (b * 16 + a) :: pack rest).length = (rest.length + k + 1) / 2 - (pack rest).length := by
      simp only [List.length_cons]
      omega
    rw [List.cons_append, List.cons_append, pack, hrest, hcount]
    rfl
  | case2 a =>
    have hcount : ([a].length + k + 1) / 2 - [UInt8.ofNat (15 * 16 + a)].length = k / 2 := by
      simp only [List.length_singleton]
      omega
    rw [hcount]
    cases k with
    | zero => rfl
    | succ k =>
      rw [List.replicate_succ, List.singleton_append, pack, pack_replicate]
      rfl
  | case3 =>
    rw [List.nil_append, pack_replicate, List.length_nil, Nat.zero_add]
    rfl

/-- What was packed is taken apart with an F for an odd nibble. -/
theorem nibbles_pack (h : Nibbles ds) : nibbles (pack ds) = ds ++ List.replicate (ds.length % 2) 15 := by
  fun_induction pack ds with
  | case1 a b rest ih =>
    have ha : a < 16 := h a List.mem_cons_self
    have hb : b < 16 := h b (List.mem_cons_of_mem a List.mem_cons_self)
    have hrest := ih fun d hd => h d (List.mem_cons_of_mem a (List.mem_cons_of_mem b hd))
    have hbyte : (UInt8.ofNat (b * 16 + a)).toNat = b * 16 + a := by
      rw [UInt8.toNat_ofNat']
      omega
    have hlow : (b * 16 + a) % 16 = a := by omega
    have hhigh : (b * 16 + a) / 16 = b := by omega
    have hparity : (a :: b :: rest).length % 2 = rest.length % 2 := by
      simp only [List.length_cons]
      omega
    show (UInt8.ofNat (b * 16 + a)).toNat % 16 :: (UInt8.ofNat (b * 16 + a)).toNat / 16 :: nibbles (pack rest) = _
    rw [hbyte, hlow, hhigh, hrest, hparity]
    rfl
  | case2 a =>
    have ha : a < 16 := h a List.mem_cons_self
    have hbyte : (UInt8.ofNat (15 * 16 + a)).toNat = 15 * 16 + a := by
      rw [UInt8.toNat_ofNat']
      omega
    have hlow : (15 * 16 + a) % 16 = a := by omega
    have hhigh : (15 * 16 + a) / 16 = 15 := by omega
    show [(UInt8.ofNat (15 * 16 + a)).toNat % 16, (UInt8.ofNat (15 * 16 + a)).toNat / 16] = _
    rw [hbyte, hlow, hhigh]
    rfl
  | case3 => rfl

/-! ## Text -/

def hexCode (d : Nat) : UInt8 := if d < 10 then UInt8.ofNat (0x30 + d) else UInt8.ofNat (0x61 + d - 10)

theorem digit_spec : ∀ d < 16, String.utf8EncodeChar (bcdDigit d) = [hexCode d] ∧ hexDigit (hexCode d) = some d ∧ (bcdDigit d = 'f' ↔ d = 15) ∧
    hexCode d ≠ 0 := by decide +kernel

theorem utf8_digits (h : Nibbles ds) : Utf8.utf8 (ds.map bcdDigit) = ds.map hexCode := by
  induction ds with
  | nil => rfl
  | cons d ds ih =>
    rw [List.map_cons, Utf8.utf8, List.flatMap_cons, (digit_spec d (h d List.mem_cons_self)).1, List.map_cons]
    exact congrArg (hexCode d :: ·) (ih fun e he => h e (List.mem_cons_of_mem d he))

theorem swapPairs_map {α β : Type} (f : α → β) (l : List α) : swapPairs (l.map f) = (swapPairs l).map f := by
  fun_induction swapPairs l with
  | case1 a b rest ih => rw [List.map_cons, List.map_cons, swapPairs, ih, List.map_cons, List.map_cons]
  | case2 rest hne =>
    cases rest with
    | nil => rfl
    | cons a rest =>
      cases rest with
      | nil => rfl
      | cons b rest => exact absurd rfl (hne a b rest)

theorem mem_swapPairs {α : Type} {l : List α} {a : α} : a ∈ swapPairs l ↔ a ∈ l := by
  fun_induction swapPairs l with
  | case1 b c rest ih =>
    simp only [List.mem_cons, ih]
    exact or_left_comm
  | case2 rest => exact Iff.rfl

theorem hexDecode_swapped (h : Nibbles ds) (heven : ds.length % 2 = 0) : hexDecode ((swapPairs ds).map hexCode) = some (pack ds) := by
  fun_induction pack ds with
  | case1 a b rest ih =>
    have ha := (digit_spec a (h a List.mem_cons_self)).2.1
    have hb := (digit_spec b (h b (List.mem_cons_of_mem a List.mem_cons_self))).2.1
    have hrest := ih (fun d hd => h d (List.mem_cons_of_mem a (List.mem_cons_of_mem b hd))) (by simp only [List.length_cons] at heven; omega)
    rw [swapPairs, List.map_cons, List.map_cons, hexDecode, hrest, ha, hb]
    rfl
  | case2 a => cases heven
  | case3 => rfl

theorem iccidToBcd_text (h : Nibbles ds) (n : Nat) :
    iccidToBcd (ds.map bcdDigit) n = if n < (pack ds).length then none else some (padded n (pack ds)) := by
  -- the digits with an F behind an odd one
  have hpadded : ∃ es, Nibbles es ∧ es.length % 2 = 0 ∧ pack es = pack ds ∧
      (if (ds.map hexCode).length % 2 = 0 then ds.map hexCode else ds.map hexCode ++ [0x66]) = es.map hexCode := by
    rw [List.length_map]
    by_cases heven : ds.length % 2 = 0
    · exact ⟨ds, h, heven, rfl, if_pos heven⟩
    · refine ⟨ds ++ [15], ?_, ?_, ?_, ?_⟩
      · intro d hd
        cases List.mem_append.mp hd with
        | inl hd => exact h d hd
        | inr hd =>
          cases List.mem_singleton.mp hd
          decide
      · rw [List.length_append, List.length_singleton]
        omega
      · have hone := pack_append ds 1
        have hzero : (ds.length + 1 + 1) / 2 - (pack ds).length = 0 := by
          rw [length_pack]
          omega
        rw [padded, hzero] at hone
        exact hone.trans (List.append_nil _)
      · rw [if_neg heven, List.map_append]
        rfl
  obtain ⟨es, hes, heven, hpack, htext⟩ := hpadded
  have hswapped : Nibbles (swapPairs es) := fun d hd => hes d (mem_swapPairs.mp hd)
  have hvalid : Utf8.fromUtf8 ((swapPairs es).map hexCode) = some ((swapPairs es).map bcdDigit) := by
    rw [← utf8_digits hswapped]
    exact Utf8.fromUtf8_utf8 _
  unfold iccidToBcd
  dsimp only
  rw [utf8_digits h, htext, swapPairs_map, bind_of_eq hvalid, bind_of_eq (hexDecode_swapped hes heven), hpack]

theorem bcdToIccid_text (b : Bytes) : (bcdToIccid b).toList = dropPadding ((nibbles b).map bcdDigit) := by
  unfold bcdToIccid nibbles
  rw [String.toList_ofList, List.map_flatMap]
  rfl

theorem dropPadding_text (h : Nibbles ds) : dropPadding (ds.map bcdDigit) = (trimmed ds).map bcdDigit := by
  have hdrop : ∀ es : List Nat, Nibbles es → (es.map bcdDigit).dropWhile (· == 'f') = (es.dropWhile (· == 15)).map bcdDigit := by
    intro es
    induction es with
    | nil => exact fun _ => rfl
    | cons d es ih =>
      intro hes
      have hf := (digit_spec d (hes d List.mem_cons_self)).2.2.1
      have hrest := ih fun e he => hes e (List.mem_cons_of_mem d he)
      rw [List.map_cons, List.dropWhile_cons, List.dropWhile_cons]
      by_cases hd : d = 15
      · rw [if_pos (beq_iff_eq.mpr (hf.mpr hd)), if_pos (beq_iff_eq.mpr hd), hrest]
      · rw [if_neg fun heq => hd (hf.mp (beq_iff_eq.mp heq)), if_neg fun heq => hd (beq_iff_eq.mp heq), List.map_cons]
  have hrev : Nibbles (ds.drop 1).reverse := fun d hd => h d (List.mem_of_mem_drop (List.mem_reverse.mp hd))
  unfold dropPadding trimmed
  rw [← List.map_take, ← List.map_drop, ← List.map_reverse, hdrop _ hrev, ← List.map_reverse, List.map_append]

/-! ## Both ways -/

theorem padded_append (p : Bytes) (m n : Nat) (h : p.length + m ≤ n) : padded n (p ++ List.replicate m 0xFF) = padded n p := by
  unfold padded
  rw [List.append_assoc, List.length_append, List.length_replicate, List.replicate_append_replicate]
  congr 2
  omega

theorem length_padded (h : b.length ≤ n) : (padded n b).length = n := by
  unfold padded
  rw [List.length_append, List.length_replicate]
  omega

theorem dropWhile_replicate (k : Nat) (es : List Nat) : (List.replicate k 15 ++ es).dropWhile (· == 15) = es.dropWhile (· == 15) := by
  induction k with
  | zero => rfl
  | succ k ih =>
    rw [List.replicate_succ, List.cons_append, List.dropWhile_cons_of_pos rfl]
    exact ih

/-- Only Fs are dropped. -/
theorem trimmed_append (ds : List Nat) : ∃ k, ds = trimmed ds ++ List.replicate k 15 := by
  have hsplit : ∀ es : List Nat, ∃ k, es = List.replicate k 15 ++ es.dropWhile (· == 15) := by
    intro es
    induction es with
    | nil => exact ⟨0, rfl⟩
    | cons d es ih =>
      obtain ⟨k, hk⟩ := ih
      rw [List.dropWhile_cons]
      by_cases hd : d = 15
      · refine ⟨k + 1, ?_⟩
        rw [if_pos (beq_iff_eq.mpr hd), List.replicate_succ, List.cons_append, ← hk, hd]
      · refine ⟨0, ?_⟩
        rw [if_neg fun heq => hd (beq_iff_eq.mp heq)]
        rfl
  obtain ⟨k, hk⟩ := hsplit (ds.drop 1).reverse
  refine ⟨k, ?_⟩
  have hrev := congrArg List.reverse hk
  rw [List.reverse_reverse, List.reverse_append, List.reverse_replicate] at hrev
  unfold trimmed
  rw [List.append_assoc, ← hrev, List.take_append_drop]

/-- Fs at the end make no difference behind a nibble. -/
theorem trimmed_replicate (hne : ds ≠ []) (k : Nat) : trimmed (ds ++ List.replicate k 15) = trimmed ds := by
  cases ds with
  | nil => exact absurd rfl hne
  | cons d ds =>
    show [d] ++ (((ds ++ List.replicate k 15).reverse).dropWhile (· == 15)).reverse = [d] ++ (ds.reverse.dropWhile (· == 15)).reverse
    rw [List.reverse_append, List.reverse_replicate, dropWhile_replicate]

theorem trimmed_eq (h : ∀ d ∈ ds, d ≠ 15) : trimmed ds = ds := by
  obtain ⟨k, hk⟩ := trimmed_append ds
  cases k with
  | zero => exact (hk.trans (List.append_nil _)).symm
  | succ k =>
    have hmem : 15 ∈ ds := by
      rw [hk]
      exact List.mem_append_right _ List.mem_cons_self
    exact absurd rfl (h 15 hmem)

theorem trimmed_lt (h : Nibbles ds) : Nibbles (trimmed ds) := by
  obtain ⟨k, hk⟩ := trimmed_append ds
  intro d hd
  refine h d ?_
  rw [hk]
  exact List.mem_append_left _ hd

theorem bcdToIccid_eq (b : Bytes) : (bcdToIccid b).toList = (trimmed (nibbles b)).map bcdDigit := by
  rw [bcdToIccid_text, dropPadding_text (nibbles_lt b)]

/-- Padding is not printed. -/
theorem bcdToIccid_padded (hne : b ≠ []) (n : Nat) : bcdToIccid (padded n b) = bcdToIccid b := by
  have hnib : nibbles b ≠ [] := by
    cases b with
    | nil => exact absurd rfl hne
    | cons x b => exact List.cons_ne_nil _ _
  apply String.toList_inj.mp
  rw [bcdToIccid_eq, bcdToIccid_eq, padded, nibbles_append, nibbles_replicate, trimmed_replicate hnib]

/-- A value that was printed is read back, padded. -/
theorem iccidToBcd_bcdToIccid (h : b.length ≤ n) : iccidToBcd (bcdToIccid b).toList n = some (padded n b) := by
  obtain ⟨k, hk⟩ := trimmed_append (nibbles b)
  have hpack := pack_append (trimmed (nibbles b)) k
  rw [← hk, pack_nibbles] at hpack
  rw [bcdToIccid_eq, iccidToBcd_text (trimmed_lt (nibbles_lt b))]
  generalize pack (trimmed (nibbles b)) = p at hpack
  unfold padded at hpack
  generalize ((trimmed (nibbles b)).length + k + 1) / 2 - p.length = m at hpack
  have hlen := congrArg List.length hpack
  rw [List.length_append, List.length_replicate] at hlen
  rw [if_neg (by omega), hpack, padded_append p m n (by omega)]

/-- Digits are printed as they were, if there are any. -/
theorem bcdToIccid_iccidToBcd {d : List Char} (hne : d ≠ []) (hd : Decimal.AllDigits d) (h : d.length ≤ 2 * n) :
    ∃ b, iccidToBcd d n = some b ∧ (bcdToIccid b).toList = d := by
  have hdigit : ∀ k < 10, bcdDigit k = Char.ofNat (48 + k) := fun k hk => if_pos hk
  obtain ⟨ds, hds, hlt⟩ : ∃ ds : List Nat, ds.map bcdDigit = d ∧ ∀ k ∈ ds, k < 10 := by
    refine ⟨d.map fun c => c.toNat - 48, ?_, ?_⟩
    · rw [List.map_map]
      refine (List.map_congr_left fun c hc => ?_).trans (List.map_id d)
      obtain ⟨hlow, hhigh⟩ := (Decimal.isDigit_iff c).mp (hd c hc)
      show bcdDigit (c.toNat - 48) = c
      rw [hdigit _ (by omega), Nat.add_sub_of_le hlow, Char.ofNat_toNat]
    · intro k hk
      obtain ⟨c, hc, rfl⟩ := List.mem_map.mp hk
      obtain ⟨hlow, hhigh⟩ := (Decimal.isDigit_iff c).mp (hd c hc)
      omega
  have hnib : Nibbles ds := fun k hk => Nat.lt_trans (hlt k hk) (by decide)
  have hlen : ds.length ≤ 2 * n := by
    rw [← hds, List.length_map] at h
    exact h
  have hfits : ¬ n < (pack ds).length := by
    rw [length_pack]
    omega
  refine ⟨padded n (pack ds), ?_, ?_⟩
  · rw [← hds, iccidToBcd_text hnib, if_neg hfits]
  · have hfs : nibbles (padded n (pack ds)) = ds ++ List.replicate (ds.length % 2 + 2 * (n - (pack ds).length)) 15 := by
      rw [padded, nibbles_append, nibbles_pack hnib, nibbles_replicate, List.append_assoc, List.replicate_append_replicate]
    have hno : ∀ k ∈ ds, k ≠ 15 := by
      intro k hk
      have hten := hlt k hk
      omega
    have hds' : ds ≠ [] := by
      intro hnil
      rw [hnil] at hds
      exact hne hds.symm
    rw [bcdToIccid_eq, hfs, trimmed_replicate hds', trimmed_eq hno, hds]

end OpenU60.Euicc
