/-
  OpenU60.Stk.Input — the text that is typed for the card, as it is sent (`zte-agent/src/stk/codec.rs`:
  `input_response`, `text_string`).

  A text goes out in UCS-2, a byte a character, or eight septets in seven bytes. `sentText` takes the text
  string out of a terminal response and reads it as the texts of the card are read.
  - `septet_pack`: the septets of packed text are the ones that were packed, and zeros after them.
  - `decoded_iff`: so the text comes back, unless it is packed and its septets leave just a septet's room:
    zeros there are an `@` (`seven_septets`).
-/

import Mathlib
import OpenU60.Stk.Codec

namespace OpenU60.Stk

open OpenU60.Lib

/-! ## Septets -/

theorem testBit_foldl_or (l : List Nat) (a b : Nat) : (l.foldl (· ||| ·) a).testBit b = (a.testBit b || l.any (·.testBit b)) := by
  induction l generalizing a with
  | nil => simp
  | cons x l ih => rw [List.foldl_cons, ih, Nat.testBit_or, List.any_cons, Bool.or_assoc]

theorem testBit_septet {s : Nat} (hs : s < 128) {k : Nat} (hk : 7 ≤ k) : s.testBit k = false :=
  Nat.testBit_lt_two_pow (Nat.lt_of_lt_of_le hs (Nat.pow_le_pow_right (n := 2) (i := 7) (by omega) hk))

/-- What a septet adds to a byte: its bits from bit 7 `j` of the whole on. -/
theorem testBit_part {s : Nat} (hs : s < 128) (i j : Nat) {b : Nat} (hb : b < 8) :
    (if i = j * 7 / 8 then s * 2 ^ (j * 7 % 8) else if i = j * 7 / 8 + 1 ∧ 1 < j * 7 % 8 then s / 2 ^ (8 - j * 7 % 8) else 0).testBit b =
      (decide (j = (8 * i + b) / 7) && s.testBit ((8 * i + b) % 7)) := by
  have hown : ∀ k, 7 * j + k = 8 * i + b → s.testBit k = (decide (j = (8 * i + b) / 7) && s.testBit ((8 * i + b) % 7)) := by
    intro k hk
    by_cases hin : k < 7
    · have hj : j = (8 * i + b) / 7 := by omega
      have hk' : (8 * i + b) % 7 = k := by omega
      rw [hk', decide_eq_true hj, Bool.true_and]
    · have hj : ¬ j = (8 * i + b) / 7 := by omega
      rw [testBit_septet hs (by omega), decide_eq_false hj, Bool.false_and]
  split
  · rename_i hi
    rw [Nat.testBit_mul_two_pow]
    by_cases hle : j * 7 % 8 ≤ b
    · rw [decide_eq_true hle, Bool.true_and]
      exact hown _ (by omega)
    · have hj : ¬ j = (8 * i + b) / 7 := by omega
      rw [decide_eq_false hle, decide_eq_false hj, Bool.false_and, Bool.false_and]
  · split
    · rw [Nat.testBit_div_two_pow]
      exact hown _ (by omega)
    · have hj : ¬ j = (8 * i + b) / 7 := by omega
      rw [decide_eq_false hj, Bool.false_and, Nat.zero_testBit]

theorem length_pack (septets : List Nat) : (Command.pack septets).length = (septets.length * 7 + 7) / 8 := by
  rw [Command.pack, List.length_map, List.length_range]

theorem getD_lt {septets : List Nat} (h : ∀ s ∈ septets, s < 128) (j : Nat) : septets.getD j 0 < 128 := by
  rw [List.getD_eq_getElem?_getD]
  cases hj : septets[j]? with
  | none => exact Nat.zero_lt_succ _
  | some s => exact h s (List.mem_of_getElem? hj)

/-- Packed text is the bits of its septets. -/
theorem testBit_pack {septets : List Nat} (h : ∀ s ∈ septets, s < 128) (i : Nat) {b : Nat} (hb : b < 8) :
    ((Command.pack septets).getD i 0).toNat.testBit b = (septets.getD ((8 * i + b) / 7) 0).testBit ((8 * i + b) % 7) := by
  have hbeyond : septets.length ≤ (8 * i + b) / 7 → (septets.getD ((8 * i + b) / 7) 0).testBit ((8 * i + b) % 7) = false := by
    intro hlen
    rw [List.getD_eq_default _ _ hlen, Nat.zero_testBit]
  by_cases hi : i < (septets.length * 7 + 7) / 8
  · rw [Command.pack, List.getD_eq_getElem?_getD, List.getElem?_map, List.getElem?_range hi, Option.map_some, Option.getD_some,
      UInt8.toNat_ofNat', Nat.testBit_mod_two_pow, decide_eq_true hb, Bool.true_and, testBit_foldl_or, Nat.zero_testBit, Bool.false_or,
      Bool.eq_iff_iff, List.any_map, List.any_eq_true]
    constructor
    · rintro ⟨j, -, hj⟩
      rw [Function.comp, testBit_part (getD_lt h j) i j hb, Bool.and_eq_true, decide_eq_true_eq] at hj
      rw [← hj.1]
      exact hj.2
    · intro hbit
      have hj : (8 * i + b) / 7 < septets.length := by
        by_contra hlen
        rw [hbeyond (by omega)] at hbit
        cases hbit
      refine ⟨(8 * i + b) / 7, List.mem_range.mpr hj, ?_⟩
      rw [Function.comp, testBit_part (getD_lt h _) i _ hb, hbit, decide_eq_true rfl]
      rfl
  · rw [List.getD_eq_default _ _ (by rw [length_pack]; omega), hbeyond (by omega)]
    exact Nat.zero_testBit b

theorem septet_pack {septets : List Nat} (h : ∀ s ∈ septets, s < 128) (j : Nat) :
    septet (Command.pack septets) (j * 7) = UInt8.ofNat (septets.getD j 0) := by
  unfold septet
  dsimp only
  congr 1
  apply Nat.eq_of_testBit_eq
  intro t
  have hlow : ((Command.pack septets).getD (j * 7 / 8) 0).toNat < 2 ^ 8 := UInt8.toNat_lt _
  rw [show 128 = 2 ^ 7 from rfl, Nat.testBit_mod_two_pow, Nat.testBit_div_two_pow, Nat.add_comm, Nat.mul_comm _ 256, show 256 = 2 ^ 8 from rfl,
    Nat.testBit_two_pow_mul_add _ hlow]
  by_cases ht : t < 7
  · rw [decide_eq_true ht, Bool.true_and]
    split
    · rename_i hfirst
      rw [testBit_pack h _ hfirst]
      have hj : (8 * (j * 7 / 8) + (t + j * 7 % 8)) / 7 = j := by omega
      have hbit : (8 * (j * 7 / 8) + (t + j * 7 % 8)) % 7 = t := by omega
      rw [hj, hbit]
    · rw [testBit_pack h _ (by omega)]
      have hj : (8 * (j * 7 / 8 + 1) + (t + j * 7 % 8 - 8)) / 7 = j := by omega
      have hbit : (8 * (j * 7 / 8 + 1) + (t + j * 7 % 8 - 8)) % 7 = t := by omega
      rw [hj, hbit]
  · rw [decide_eq_false ht, Bool.false_and]
    exact (testBit_septet (getD_lt h j) (by omega)).symm

/-- What is unpacked: as many septets as fit in the bytes. -/
theorem unpack_pack {septets : List Nat} (h : ∀ s ∈ septets, s < 128) :
    (List.range ((Command.pack septets).length * 8 / 7)).map (fun i => septet (Command.pack septets) (i * 7)) =
      septets.map UInt8.ofNat ++ if septets.length % 8 = 7 then [0] else [] := by
  have hown : (List.range septets.length).map (fun i => septet (Command.pack septets) (i * 7)) = septets.map UInt8.ofNat := by
    apply List.ext_getElem
    · simp
    · intro i hi _
      rw [List.getElem_map, List.getElem_map, List.getElem_range, septet_pack h, List.getD_eq_getElem]
  have hbytes : (septets.length * 7 + 7) / 8 = 7 * (septets.length / 8) + septets.length % 8 := by omega
  split
  · rename_i hseven
    have hcount : (Command.pack septets).length * 8 / 7 = septets.length + 1 := by
      rw [length_pack]
      omega
    rw [hcount, List.range_succ, List.map_append, hown, List.map_singleton, septet_pack h, List.getD_eq_default _ _ (Nat.le_refl _)]
    rfl
  · have hcount : (Command.pack septets).length * 8 / 7 = septets.length := by
      rw [length_pack]
      omega
    rw [hcount, hown, List.append_nil]

/-! ## Alphabets -/

set_option maxRecDepth 2000 in
/-- The table's literal, taken apart once. -/
theorem gsmTable_eq : gsmTable = ['@', '£', '$', '¥', 'è', 'é', 'ù', 'ì', 'ò', 'Ç', '\n', 'Ø', 'ø', '\r', 'Å', 'å', 'Δ', '_', 'Φ', 'Γ', 'Λ', 'Ω',
    'Π', 'Ψ', 'Σ', 'Θ', 'Ξ', '\x1b', 'Æ', 'æ', 'ß', 'É', ' ', '!', '"', '#', '¤', '%', '&', '\'', '(', ')', '*', '+', ',', '-', '.', '/',
    '0', '1', '2', '3', '4', '5', '6', '7', '8', '9', ':', ';', '<', '=', '>', '?', '¡', 'A', 'B', 'C', 'D', 'E', 'F', 'G', 'H', 'I', 'J', 'K',
    'L', 'M', 'N', 'O', 'P', 'Q', 'R', 'S', 'T', 'U', 'V', 'W', 'X', 'Y', 'Z', 'Ä', 'Ö', 'Ñ', 'Ü', '§', '¿', 'a', 'b', 'c', 'd', 'e', 'f', 'g',
    'h', 'i', 'j', 'k', 'l', 'm', 'n', 'o', 'p', 'q', 'r', 's', 't', 'u', 'v', 'w', 'x', 'y', 'z', 'ä', 'ö', 'ñ', 'ü', 'à'] :=
  String.toList_ofList

theorem gsmTable_spec : gsmTable.length = 128 ∧ gsmTable[0]? = some '@' ∧ gsmTable[27]? = some '\x1b' := by
  rw [gsmTable_eq]
  exact ⟨rfl, rfl, rfl⟩

theorem gsmFrom_nil : gsmFrom false [] = .ok [] := rfl

theorem gsmFrom_plain {b : UInt8} {c : Char} (hb : b ≠ 27) (hc : gsmTable[b.toNat]? = some c) (data : Bytes) :
    gsmFrom false (b :: data) = (gsmFrom false data).map (c :: ·) := by
  refine (if_neg hb).trans ?_
  rw [hc]

/-- Zero bits are a character. -/
theorem gsmFrom_zero : gsmFrom false [0] = .ok ['@'] := by
  have hfirst : gsmTable[(0 : UInt8).toNat]? = some '@' := by
    rw [show (0 : UInt8).toNat = 0 from rfl]
    exact gsmTable_spec.2.1
  rw [gsmFrom_plain (by decide) hfirst, gsmFrom_nil]
  rfl

theorem index_spec {c : Char} {i : Nat} (h : (if c = '\x1b' then none else gsmTable.idxOf? c) = some i) :
    i < 128 ∧ i ≠ 27 ∧ gsmTable[i]? = some c := by
  split at h
  · cases h
  · rename_i hescape
    obtain ⟨hi, hget, -⟩ := List.findIdx?_eq_some_iff_getElem.mp h
    have hc : gsmTable[i] = c := by simpa using hget
    have hget : gsmTable[i]? = some c := by rw [List.getElem?_eq_getElem hi, hc]
    refine ⟨gsmTable_spec.1 ▸ hi, ?_, hget⟩
    rintro rfl
    rw [gsmTable_spec.2.2] at hget
    exact hescape (Option.some.inj hget).symm

theorem gsmFrom_index {c : Char} {i : Nat} (h : (if c = '\x1b' then none else gsmTable.idxOf? c) = some i) (data : Bytes) :
    gsmFrom false (UInt8.ofNat i :: data) = (gsmFrom false data).map (c :: ·) := by
  obtain ⟨hi, hescape, hget⟩ := index_spec h
  have hbyte : (UInt8.ofNat i).toNat = i := by
    rw [UInt8.toNat_ofNat', Nat.mod_eq_of_lt (by omega)]
  have hplain : UInt8.ofNat i ≠ 27 := by
    intro heq
    rw [heq] at hbyte
    exact hescape hbyte.symm
  exact gsmFrom_plain hplain (by rw [hbyte, hget]) data

theorem gsmFrom_indices {text : Chars} {septets : List Nat}
    (h : (text.mapM fun c => if c = '\x1b' then none else gsmTable.idxOf? c) = some septets) :
    septets.length = text.length ∧ (∀ s ∈ septets, s < 128) ∧
      ∀ data, gsmFrom false (septets.map UInt8.ofNat ++ data) = (gsmFrom false data).map (text ++ ·) := by
  induction text generalizing septets with
  | nil =>
    rw [List.mapM_nil] at h
    cases h
    refine ⟨rfl, nofun, fun data => ?_⟩
    show gsmFrom false data = (gsmFrom false data).map ([] ++ ·)
    cases gsmFrom false data <;> rfl
  | cons c text ih =>
    rw [List.mapM_cons] at h
    obtain ⟨i, hi, h⟩ := Option.bind_eq_some_iff.mp h
    obtain ⟨septets', hrest, heq⟩ := Option.bind_eq_some_iff.mp h
    cases heq
    obtain ⟨hlength, hlt, hgsm⟩ := ih hrest
    refine ⟨congrArg (· + 1) hlength, ?_, fun data => ?_⟩
    · intro s hs
      rcases List.mem_cons.mp hs with rfl | hs
      · exact (index_spec hi).1
      · exact hlt s hs
    · rw [List.map_cons, List.cons_append, gsmFrom_index hi, hgsm]
      cases gsmFrom false data <;> rfl

theorem ucs2Pairs_text {text : Chars} (h : ∀ c ∈ text, c.toNat < 65536) :
    ucs2Pairs (text.flatMap fun c => BigEndian.toBytes 2 c.toNat) = .ok text := by
  induction text with
  | nil => rfl
  | cons c text ih =>
    have hc : c.toNat < 65536 := h c List.mem_cons_self
    have hcode : (UInt8.ofNat (c.toNat / 256)).toNat * 256 + (UInt8.ofNat c.toNat).toNat = c.toNat := by
      rw [UInt8.toNat_ofNat', UInt8.toNat_ofNat']
      omega
    have hchar : charOf c.toNat = some c := by
      have hvalid : c.toNat.isValidChar := c.valid
      rw [charOf, if_pos hvalid, Char.ofNat_toNat]
    rw [List.flatMap_cons]
    show ucs2Pairs (UInt8.ofNat (c.toNat / 256) :: UInt8.ofNat c.toNat :: text.flatMap fun c => BigEndian.toBytes 2 c.toNat) = _
    rw [ucs2Pairs, hcode, hchar, ih fun c hc => h c (List.mem_cons_of_mem _ hc)]
    rfl

theorem ucs2_text {text : Chars} (h : ∀ c ∈ text, c.toNat < 65536) : ucs2 (text.flatMap fun c => BigEndian.toBytes 2 c.toNat) = .ok text := by
  have heven : (text.flatMap fun c => BigEndian.toBytes 2 c.toNat).length % 2 = 0 := by
    simp only [List.length_flatMap, BigEndian.length_toBytes]
    simp
  rw [ucs2, if_neg (by omega), ucs2Pairs_text h]

/-! ## The text string -/

namespace Command

def Packs (cmd : Command) : Prop := cmd.kind = 0x23 ∧ cmd.qualifier &&& 8 ≠ 0 ∧ cmd.qualifier &&& 2 = 0

theorem encoded_iff {cmd : Command} {text : Chars} {bytes : Bytes} (h : cmd.encoded text = .ok bytes) :
    textString bytes = .ok text ↔ ¬ (cmd.Packs ∧ text.length % 8 = 7) := by
  unfold encoded at h
  split at h
  · rename_i hucs2
    refine iff_of_true ?_ fun hpacks => hucs2 hpacks.1.2.2
    split at h
    · rename_i hall
      cases h
      exact ucs2_text fun c hc => of_decide_eq_true (List.all_eq_true.mp hall c hc)
    · cases h
  · rename_i hgsm
    split at h
    · cases h
    · rename_i septets hindices
      obtain ⟨hlength, hlt, hdecode⟩ := gsmFrom_indices hindices
      cases h
      split
      · rename_i hpacked
        have hpacks : cmd.Packs := ⟨hpacked.1, hpacked.2, not_not.mp hgsm⟩
        show gsmFrom false ((List.range _).map _) = _ ↔ _
        rw [unpack_pack hlt, hdecode, hlength]
        by_cases hseven : text.length % 8 = 7
        · refine iff_of_false ?_ (not_not.mpr ⟨hpacks, hseven⟩)
          rw [if_pos hseven, gsmFrom_zero]
          intro heq
          have := congrArg List.length (Except.ok.inj heq)
          simp at this
        · refine iff_of_true ?_ fun h => hseven h.2
          rw [if_neg hseven, gsmFrom_nil, Except.map, List.append_nil]
      · rename_i hplain
        refine iff_of_true ?_ fun h => hplain ⟨h.1.1, h.1.2.1⟩
        have hown := hdecode []
        rw [gsmFrom_nil, Except.map, List.append_nil, List.append_nil] at hown
        exact hown

def AsksText (cmd : Command) : Prop := cmd.kind = 0x22 ∧ cmd.qualifier &&& 4 = 0 ∨ cmd.kind = 0x23

end Command

/-- The value of the text string among the elements of an answer. -/
def textElement : Nat → Bytes → Except String Bytes
  | fuel + 1, tag :: data => do
    let (n, data) ← length data
    let (val, data) ← takeBytes data n
    if tag &&& 0x7F = 13 then return val else textElement fuel data
  | _, _ => .error "no text string"

def sentText (out : Bytes) : Except String Chars := do textString (← textElement out.length out)

theorem takeBytes_append (val data : Bytes) : takeBytes (val ++ data) val.length = .ok (val, data) := by
  rw [takeBytes, if_neg (by rw [List.length_append]; omega), List.take_left, List.drop_left]

theorem length_short {n : UInt8} (hn : n ≤ 0x7F) (data : Bytes) : length (n :: data) = .ok (n.toNat, data) := by
  have htake : takeBytes (n :: data) 1 = .ok ([n], data) := takeBytes_append [n] data
  have h81 : n ≠ 0x81 := by
    rintro rfl
    revert hn
    decide
  have h82 : n ≠ 0x82 := by
    rintro rfl
    revert hn
    decide
  simp only [length, htake, bind, Except.bind, List.headD_cons, h81, h82, hn, if_false, if_true]
  rfl

theorem length_long (n : UInt8) (data : Bytes) : length (0x81 :: n :: data) = .ok (n.toNat, data) := by
  have hfirst : takeBytes (0x81 :: n :: data) 1 = .ok ([0x81], n :: data) := takeBytes_append [0x81] (n :: data)
  have hsecond : takeBytes (n :: data) 1 = .ok ([n], data) := takeBytes_append [n] data
  simp only [length, hfirst, hsecond, bind, Except.bind, List.headD_cons, if_true]
  show Except.ok (BigEndian.ofBytes [n], data) = _
  rw [BigEndian.ofBytes_cons, BigEndian.ofBytes_nil, List.length_nil, Nat.pow_zero, Nat.mul_one, Nat.add_zero]

/-- The length that is written before the text. -/
theorem length_written {n : Nat} (hn : n ≤ 255) (data : Bytes) :
    length ((if 128 ≤ n then [0x81] else []) ++ [UInt8.ofNat n] ++ data) = .ok (n, data) := by
  have hbyte : (UInt8.ofNat n).toNat = n := by
    rw [UInt8.toNat_ofNat', Nat.mod_eq_of_lt (by omega)]
  split
  · exact (length_long _ data).trans (by rw [hbyte])
  · rename_i hshort
    have hle : UInt8.ofNat n ≤ 0x7F := by
      rw [UInt8.le_iff_toNat_le, hbyte]
      exact Nat.lt_succ_iff.mp (Nat.not_le.mp hshort)
    exact (length_short hle data).trans (by rw [hbyte])

theorem textElement_next {tag : UInt8} {val data rest : Bytes} (fuel : Nat) (hlength : length data = .ok (val.length, val ++ rest)) :
    textElement (fuel + 1) (tag :: data) = if tag &&& 0x7F = 13 then .ok val else textElement fuel rest := by
  simp only [textElement, hlength, takeBytes_append, bind, Except.bind]
  rfl

theorem textElement_skip {tag n : UInt8} (hn : n ≤ 0x7F) (htag : tag &&& 0x7F ≠ 13) {val : Bytes} (hval : val.length = n.toNat) (rest : Bytes)
    (fuel : Nat) : textElement (fuel + 1) (tag :: n :: (val ++ rest)) = textElement fuel rest := by
  have hlength : length (n :: (val ++ rest)) = .ok (val.length, val ++ rest) := (length_short hn _).trans (by rw [hval])
  rw [textElement_next fuel hlength, if_neg htag]

theorem sentText_response (cmd : Command) {bytes : Bytes} (h : bytes.length ≤ 255) :
    sentText (cmd.response 0 ([0x8D] ++ (if 128 ≤ bytes.length then [0x81] else []) ++ [UInt8.ofNat bytes.length] ++ bytes)) = textString bytes := by
  generalize hrest : (if 128 ≤ bytes.length then [0x81] else []) ++ [UInt8.ofNat bytes.length] ++ bytes = rest
  have hlength : length rest = .ok (bytes.length, bytes ++ []) := by
    rw [← hrest, length_written h, List.append_nil]
  have hout : cmd.response 0 ([0x8D] ++ (if 128 ≤ bytes.length then [0x81] else []) ++ [UInt8.ofNat bytes.length] ++ bytes) =
      0x81 :: 3 :: ([cmd.number, cmd.kind, cmd.qualifier] ++ 0x82 :: 2 :: ([0x82, 0x81] ++ 0x83 :: 1 :: ([0] ++ 0x8D :: rest))) := by
    rw [← hrest]
    simp [Command.response]
  have helement : ∀ fuel, textElement (fuel + 4) (0x81 :: 3 :: ([cmd.number, cmd.kind, cmd.qualifier] ++ 0x82 :: 2 :: ([0x82, 0x81] ++
      0x83 :: 1 :: ([0] ++ 0x8D :: rest)))) = .ok bytes := by
    intro fuel
    rw [textElement_skip (by decide) (by decide) rfl, textElement_skip (by decide) (by decide) rfl,
      textElement_skip (by decide) (by decide) rfl, textElement_next _ hlength, if_pos (by decide)]
  rw [hout, sentText]
  exact congrArg (fun x : Except String Bytes => x >>= textString) (helement (rest.length + 9))

/-- What is typed is what the card is told, but for packed text that leaves a septet's room. -/
theorem decoded_iff {cmd : Command} {value : Json} {text : String} {out : Bytes} (hout : cmd.inputResponse value = .ok out)
    (hasks : cmd.AsksText) (htext : (value.get "text").asStr = some text) :
    sentText out = .ok text.toList ↔ ¬ (cmd.Packs ∧ text.toList.length % 8 = 7) := by
  have hkind : cmd.kind = 0x22 ∨ cmd.kind = 0x23 := hasks.imp_left And.left
  have hyesNo : ¬ (cmd.kind = 0x22 ∧ cmd.qualifier &&& 4 ≠ 0) := by
    rintro ⟨hkey, hyes⟩
    rcases hasks with hasks | hinput
    · exact hyes hasks.2
    · rw [hkey] at hinput
      revert hinput
      decide
  have hdisplay : cmd.kind ≠ 0x21 := by
    rcases hkind with h | h <;> (rw [h]; decide)
  unfold Command.inputResponse at hout
  rw [if_neg hdisplay, if_neg fun h => hkind.elim h.1 h.2] at hout
  obtain ⟨bytes, hbytes, hout⟩ : ∃ bytes, cmd.inputBytes value = .ok bytes ∧ bytes.length ≤ 255 ∧
      cmd.response 0 ([0x8D] ++ (if 128 ≤ bytes.length then [0x81] else []) ++ [UInt8.ofNat bytes.length] ++ bytes) = out := by
    cases hbytes : cmd.inputBytes value with
    | error e =>
      rw [hbytes] at hout
      cases hout
    | ok bytes =>
      rw [hbytes] at hout
      change (if 255 < bytes.length then _ else _) = _ at hout
      split at hout
      · cases hout
      · exact ⟨bytes, rfl, by omega, Except.ok.inj hout⟩
  have hencoded : cmd.encoded text.toList = .ok bytes := by
    unfold Command.inputBytes at hbytes
    rw [if_neg hyesNo, htext] at hbytes
    dsimp only at hbytes
    generalize (if cmd.kind = 0x22 then (1, 1) else (cmd.min.toNat, cmd.max.toNat)) = limits at hbytes
    split at hbytes
    · cases hbytes
    · split at hbytes
      · cases hbytes
      · exact hbytes
  rw [← hout.2, sentText_response cmd hout.1]
  exact Command.encoded_iff hencoded

/-- GET INPUT: up to ten characters of any kind, packed. -/
def packedInput : Command := { number := 1, kind := 0x23, qualifier := 9, title := [], text := [], items := [], min := 0, max := 10 }

theorem six_septets : ∃ out, packedInput.inputResponse (.obj [("text", .str "123456")]) = .ok out ∧ sentText out = .ok "123456".toList := by
  have hout : packedInput.inputResponse (.obj [("text", .str "123456")]) =
      .ok (packedInput.response 0 [0x8D, 7, 0, 0x31, 0xD9, 0x8C, 0x56, 0xB3, 0x01]) := by decide +kernel
  have hasks : packedInput.AsksText := .inr rfl
  have hsix : "123456".toList.length % 8 = 6 := by decide +kernel
  exact ⟨_, hout, (decoded_iff hout hasks rfl).mpr fun h => by omega⟩

theorem seven_septets : ∃ out, packedInput.inputResponse (.obj [("text", .str "1234567")]) = .ok out ∧ sentText out ≠ .ok "1234567".toList :=
  ⟨packedInput.response 0 [0x8D, 8, 0, 0x31, 0xD9, 0x8C, 0x56, 0xB3, 0xDD, 0x00], by decide +kernel⟩

end OpenU60.Stk
