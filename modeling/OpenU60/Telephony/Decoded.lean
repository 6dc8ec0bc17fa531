/-
  OpenU60.Telephony.Decoded — what is left of a reply once it is decoded (`zte-agent/src/telephony.rs`).

  Text in the default alphabet comes as hex of its packed septets, other text as hex of its UTF-16.
  - `tables_agree`: the table that names the septets lacks fourteen letters of the alphabet.
  - `gsm_iff`: so the text comes back exactly if it stays within the table's first letters, or is a single
    letter that is read as ASCII.
  - `ucs2_iff`: UTF-16 comes back exactly if the text has no surrogates.
  - `format_iff`: a reply is formatted exactly if each slice of its body ends between characters.

  One of each kind that is not: `replies_garbled`.
-/

import OpenU60.SmsForward.Ucs2
import OpenU60.Telephony.Hex

namespace OpenU60.Telephony

open OpenU60.Lib OpenU60.Lib.Fallible OpenU60.Lib.Utf8

/-! ## The default alphabet -/

/-- The text the septets stand for; the escape stands for none. -/
def Spelled (text : Chars) (septets : List Nat) : Prop := List.Forall₂ (fun c s => s ≠ 27 ∧ Stk.gsmTable[s]? = some c) text septets

theorem tables_check : (gsm7Table.length == 114 && (gsm7Table.zip Stk.gsmTable).zipIdx.all fun ((name, letter), s) =>
    (name == letter) == (decide (s < 16) || decide (s = 17))) = true := by
  rw [Stk.gsmTable_eq]
  decide +kernel

theorem length_gsm7Table : gsm7Table.length = 114 :=
  beq_iff_eq.mp ((Bool.and_eq_true _ _).mp tables_check).1

/-- The table lacks the letter after its sixteenth, and those after the eighteenth. -/
theorem tables_agree {s : Nat} {letter : Char} (h : Stk.gsmTable[s]? = some letter) : gsm7Table[s]? = some letter ↔ s < 16 ∨ s = 17 := by
  have hall := ((Bool.and_eq_true _ _).mp tables_check).2
  cases hname : gsm7Table[s]? with
  | none =>
    have hlen := List.getElem?_eq_none_iff.mp hname
    rw [length_gsm7Table] at hlen
    exact iff_of_false (fun h => nomatch h) (by omega)
  | some name =>
    have hzip : (gsm7Table.zip Stk.gsmTable)[s]? = some (name, letter) := List.getElem?_zip_eq_some.mpr ⟨hname, h⟩
    have hone := beq_iff_eq.mp (List.all_eq_true.mp hall _ (List.mk_mem_zipIdx_iff_getElem?.mpr hzip))
    rw [Option.some.injEq, ← beq_iff_eq, hone, Bool.or_eq_true, decide_eq_true_eq, decide_eq_true_eq]

theorem Spelled.lt {text : Chars} {septets : List Nat} (h : Spelled text septets) : ∀ s ∈ septets, s < 128 := by
  induction h with
  | nil => exact nofun
  | cons hfirst _ ih =>
    intro s hs
    cases List.mem_cons.mp hs with
    | inl hsame =>
      obtain ⟨hlt, -⟩ := List.getElem?_eq_some_iff.mp hfirst.2
      rw [hsame, ← Stk.gsmTable_spec.1]
      exact hlt
    | inr hlater => exact ih s hlater

theorem named_iff {text : Chars} {septets : List Nat} (h : Spelled text septets) :
    septets.filterMap (gsm7Table[·]?) = text ↔ ∀ s ∈ septets, s < 16 ∨ s = 17 := by
  have hlt := h.lt
  induction h with
  | nil => exact iff_of_true rfl nofun
  | @cons c s text septets hfirst hrest ih =>
    have hagree := tables_agree hfirst.2
    have hlater : septets.filterMap (gsm7Table[·]?) = text ↔ ∀ s ∈ septets, s < 16 ∨ s = 17 :=
      ih fun s hs => hlt s (List.mem_cons_of_mem _ hs)
    rw [List.forall_mem_cons, ← hagree, ← hlater]
    cases hname : gsm7Table[s]? with
    | none =>
      rw [List.filterMap_cons_none hname]
      refine iff_of_false ?_ (fun hboth => nomatch hboth.1)
      -- a letter is missing
      intro hall
      have hshort := List.length_filterMap_le (gsm7Table[·]?) septets
      have hlen := hrest.length_eq
      rw [hall, List.length_cons] at hshort
      omega
    | some name =>
      rw [List.filterMap_cons_some hname, List.cons.injEq, Option.some.injEq]

/-! ## Letters past the table -/

/-- A letter alone that is its own octet. -/
def LoneLetter (text : Chars) : Prop := ∃ c, text = [c] ∧ 'r' ≤ c ∧ c ≤ 'z'

theorem late_check : (Stk.gsmTable.zipIdx.all fun (c, s) =>
    if s < 114 then !decide ('r' ≤ c ∧ c ≤ 'z')
    else (Text.digitVal 16 c == none) && (decide (s ≤ 122) == decide (c = Char.ofNat s)) && (decide (s ≤ 122) == decide (c.toNat < 128)) &&
      (decide (s ≤ 122) == decide ('r' ≤ c ∧ c ≤ 'z'))) = true := by
  rw [Stk.gsmTable_eq]
  decide +kernel

structure Late (s : Nat) (c : Char) : Prop where
  notHex : Text.digitVal 16 c = none
  own : s ≤ 122 ↔ c = Char.ofNat s
  ascii : s ≤ 122 ↔ c.toNat < 128
  lone : s ≤ 122 ↔ 'r' ≤ c ∧ c ≤ 'z'

/-- The letters the table does not reach are no hex digits, and ASCII up to `z`. -/
theorem late {s : Nat} {c : Char} (hlate : 114 ≤ s) (hc : Stk.gsmTable[s]? = some c) : Late s c := by
  have hone := List.all_eq_true.mp late_check _ (List.mk_mem_zipIdx_iff_getElem?.mpr hc)
  dsimp only at hone
  rw [if_neg (by omega), Bool.and_eq_true, Bool.and_eq_true, Bool.and_eq_true, beq_iff_eq, beq_iff_eq, beq_iff_eq, beq_iff_eq] at hone
  obtain ⟨⟨⟨hhex, hown⟩, hascii⟩, hlone⟩ := hone
  exact ⟨hhex, decide_eq_decide.mp hown, decide_eq_decide.mp hascii, decide_eq_decide.mp hlone⟩

theorem lone_late {s : Nat} {c : Char} (hc : Stk.gsmTable[s]? = some c) (hlone : 'r' ≤ c ∧ c ≤ 'z') : 114 ≤ s := by
  by_contra hearly
  have hone := List.all_eq_true.mp late_check _ (List.mk_mem_zipIdx_iff_getElem?.mpr hc)
  dsimp only at hone
  rw [if_pos (Nat.not_le.mp hearly), decide_eq_true hlone] at hone
  cases hone

/-- The octets of text that are shown when nothing was decoded. -/
def printable (bytes : Bytes) : Chars := (bytes.filter fun b => 32 ≤ b && b < 127).map fun b => Char.ofNat b.toNat

theorem fallback_hex {bytes : Bytes} {hex : Chars} (h : Hex bytes hex) :
    fallback hex = some (if printable bytes ≠ [] then printable bytes else hex) := by
  unfold fallback
  rw [hexToBytes_hex h]
  rfl

/-- Hex is not taken for text that begins with no hex digit. -/
theorem fallback_text {c : Char} {bytes : Bytes} {hex text : Chars} (h : Hex bytes hex) (hc : Text.digitVal 16 c = none) :
    fallback hex = some (c :: text) ↔ printable bytes = c :: text := by
  rw [fallback_hex h, Option.some.injEq]
  by_cases hshown : printable bytes = []
  · rw [if_neg (not_not_intro hshown), hshown]
    refine iff_of_false ?_ (fun h => nomatch h)
    intro hsame
    cases h with
    | nil => cases hsame
    | cons ha _ _ =>
      cases hsame
      cases hc.symm.trans ha
  · rw [if_pos hshown]

theorem printable_one (b : UInt8) : printable [b] = if 32 ≤ b && b < 127 then [Char.ofNat b.toNat] else [] := by
  unfold printable
  rw [List.filter_cons]
  split <;> rfl

theorem pack_one (s : Nat) : Stk.Command.pack [s] = [UInt8.ofNat s] := by
  simp [Stk.Command.pack]

theorem fallback_one {c : Char} {s : Nat} {hex : Chars} (hlate : 114 ≤ s) (hs : s < 128) (hc : Stk.gsmTable[s]? = some c)
    (hhex : Hex (Stk.Command.pack [s]) hex) : fallback hex = some [c] ↔ 'r' ≤ c ∧ c ≤ 'z' := by
  have hletter := late hlate hc
  have hbyte : (UInt8.ofNat s).toNat = s := by
    rw [UInt8.toNat_ofNat']
    omega
  rw [pack_one] at hhex
  rw [fallback_text hhex hletter.notHex, printable_one, hbyte, ← hletter.lone]
  split
  · rw [hletter.own, List.cons.injEq]
    exact ⟨fun h => h.1.symm, fun h => ⟨h.symm, rfl⟩⟩
  · rename_i hhidden
    refine iff_of_false (fun h => nomatch h) ?_
    intro hascii
    refine hhidden ?_
    rw [Bool.and_eq_true, decide_eq_true_eq, decide_eq_true_eq, UInt8.le_iff_toNat_le, UInt8.lt_iff_toNat_lt, hbyte]
    exact ⟨Nat.le_trans (by decide) hlate, Nat.lt_of_le_of_lt hascii (by decide)⟩

theorem toNat_ofNat_small {n : Nat} (h : n < 128) : (Char.ofNat n).toNat = n := by
  have hvalid : n.isValidChar := Or.inl (by omega)
  rw [Char.ofNat, dif_pos hvalid]
  rfl

/-- Two letters share bits of an octet: the second is not its own. -/
theorem printable_more {c d : Char} {s t : Nat} {text : Chars} {septets : List Nat} (h : Spelled (c :: d :: text) (s :: t :: septets))
    (ht : 114 ≤ t) : printable (Stk.Command.pack (s :: t :: septets)) ≠ c :: d :: text := by
  intro hsame
  have hlt := h.lt
  have hd : Stk.gsmTable[t]? = some d := by
    obtain ⟨-, hrest⟩ := List.forall₂_cons.mp h
    exact (List.forall₂_cons.mp hrest).1.2
  have hletter := late ht hd
  have hspelled := h.length_eq
  have hbytes := Stk.length_pack (s :: t :: septets)
  have hsecond := congrArg UInt8.toNat (Stk.septet_pack hlt 1)
  rw [toNat_septet, show (s :: t :: septets).getD 1 0 = t from rfl, UInt8.toNat_ofNat'] at hsecond
  generalize Stk.Command.pack (s :: t :: septets) = bytes at hsame hbytes hsecond
  -- so short a text has as many octets as letters, and all are shown
  have hcount : (bytes.filter fun b => 32 ≤ b && b < 127).length = bytes.length := by
    have hshown := congrArg List.length hsame
    have hle := List.length_filter_le (fun b : UInt8 => 32 ≤ b && b < 127) bytes
    rw [printable, List.length_map] at hshown
    omega
  have hall := List.length_filter_eq_length_iff.mp hcount
  rw [printable, List.filter_eq_self.mpr hall] at hsame
  obtain ⟨a, later, rfl, -, hlater⟩ := List.map_eq_cons_iff.mp hsame
  obtain ⟨b, rest, rfl, hown, -⟩ := List.map_eq_cons_iff.mp hlater
  have hb := hall b (List.mem_cons_of_mem _ List.mem_cons_self)
  rw [Bool.and_eq_true, decide_eq_true_eq, decide_eq_true_eq, UInt8.lt_iff_toNat_lt] at hb
  have hsmall : b.toNat < 127 := hb.2
  have hd' : d.toNat = b.toNat := by rw [← hown, toNat_ofNat_small (by omega)]
  have hshort : t ≤ 122 := hletter.ascii.mpr (by omega)
  have ht' : d.toNat = t := by rw [hletter.own.mp hshort, toNat_ofNat_small (by omega)]
  have ha := a.toNat_lt
  have hbits : (a.toNat + b.toNat * 256) / 2 ^ 7 % 128 = t % 2 ^ 8 := hsecond
  omega

theorem decodeGsm7_pack {text : Chars} {septets : List Nat} {hex : Chars} (h : Spelled text septets) (hseven : text.length % 8 ≠ 7)
    (hhex : Hex (Stk.Command.pack septets) hex) (hne : hex ≠ []) : decodeGsm7 hex = some (septets.filterMap (gsm7Table[·]?)) := by
  unfold decodeGsm7
  rw [if_neg hne, hexToBytes_hex hhex]
  show some ((septetsFrom 0 none (Stk.Command.pack septets)).filterMap (gsm7Table[·]?)) = _
  rw [septetsFrom_pack h.lt (h.length_eq ▸ hseven)]

/-- Nothing of the text is in the table. -/
theorem unnamed_late {septets : List Nat} (h : septets.filterMap (gsm7Table[·]?) = []) : ∀ s ∈ septets, 114 ≤ s := by
  intro s hs
  have hnone := List.filterMap_eq_nil_iff.mp h s hs
  have hlen := List.getElem?_eq_none_iff.mp hnone
  rw [length_gsm7Table] at hlen
  exact hlen

theorem fallback_iff {text : Chars} {septets : List Nat} {hex : Chars} (h : Spelled text septets) (hne : text ≠ [])
    (hlate : ∀ s ∈ septets, 114 ≤ s) (hhex : Hex (Stk.Command.pack septets) hex) : fallback hex = some text ↔ LoneLetter text := by
  have hlt := h.lt
  cases h with
  | nil => exact absurd rfl hne
  | @cons c s text septets hfirst hrest =>
    have hs : 114 ≤ s := hlate s List.mem_cons_self
    cases hrest with
    | nil =>
      rw [fallback_one hs (hlt s List.mem_cons_self) hfirst.2 hhex]
      constructor
      · intro hlone
        exact ⟨c, rfl, hlone⟩
      · intro hlone
        obtain ⟨c', hsame, hlone⟩ := hlone
        cases hsame
        exact hlone
    | @cons d t text septets hsecond hrest =>
      have hletter := late hs hfirst.2
      rw [fallback_text hhex hletter.notHex]
      refine iff_of_false ?_ ?_
      · exact printable_more (.cons hfirst (.cons hsecond hrest)) (hlate t (List.mem_cons_of_mem _ List.mem_cons_self))
      · intro hlone
        obtain ⟨_, hsame, -⟩ := hlone
        cases hsame

/-- Text in the default alphabet comes back within the table's first letters, or as a letter alone. -/
theorem gsm_iff {text : Chars} {septets : List Nat} {hex : Chars} {dcs : Nat} (h : Spelled text septets) (hseven : text.length % 8 ≠ 7)
    (hhex : Hex (Stk.Command.pack septets) hex) (hdcs : dcs % 16 = 0 ∨ dcs % 16 = 15) :
    decodeUssdResponse hex dcs = some text ↔ (∀ s ∈ septets, s < 16 ∨ s = 17) ∨ LoneLetter text := by
  by_cases hempty : text = []
  · subst hempty
    cases h
    cases hhex
    exact iff_of_true rfl (Or.inl nofun)
  · have hsome : hex ≠ [] := by
      intro hnil
      subst hnil
      have hbytes : Stk.Command.pack septets = [] := hhex.of_nil
      have hlen := Stk.length_pack septets
      rw [hbytes, List.length_nil, ← h.length_eq] at hlen
      exact hempty (List.eq_nil_of_length_eq_zero (by omega))
    have hnamed := named_iff h
    unfold decodeUssdResponse
    dsimp only
    rw [if_neg hsome, if_neg (by omega), if_pos hdcs, decodeGsm7_pack h hseven hhex hsome]
    show (if septets.filterMap (gsm7Table[·]?) ≠ [] then some (septets.filterMap (gsm7Table[·]?)) else fallback hex) = some text ↔ _
    by_cases hdecoded : septets.filterMap (gsm7Table[·]?) = []
    · rw [if_neg (not_not_intro hdecoded), fallback_iff h hempty (unnamed_late hdecoded) hhex, ← hnamed, hdecoded]
      exact ⟨Or.inr, fun hor => hor.resolve_left fun hnil => hempty hnil.symm⟩
    · rw [if_pos hdecoded, Option.some.injEq, hnamed]
      refine ⟨Or.inl, fun hor => hor.resolve_right ?_⟩
      -- such a letter is past the table
      intro hlone
      obtain ⟨c, rfl, hlone⟩ := hlone
      obtain ⟨s, rest, hfirst, hrest, rfl⟩ := List.forall₂_cons_left_iff.mp h
      cases hrest
      have hlate := lone_late hfirst.2 hlone
      refine hdecoded (List.filterMap_cons_none ?_)
      rw [List.getElem?_eq_none_iff, length_gsm7Table]
      exact hlate

/-! ## UTF-16 -/

/-- The octets of a text in UTF-16, big end first. -/
def utf16be (text : Chars) : Bytes := (text.flatMap SmsForward.encodeUtf16).flatMap (BigEndian.toBytes 2)

theorem parse_unit {n : Nat} {a b c d : Char} (hn : n < 65536) (ha : Text.digitVal 16 a = some ((UInt8.ofNat (n / 256)).toNat / 16))
    (hb : Text.digitVal 16 b = some ((UInt8.ofNat (n / 256)).toNat % 16)) (hc : Text.digitVal 16 c = some ((UInt8.ofNat n).toNat / 16))
    (hd : Text.digitVal 16 d = some ((UInt8.ofNat n).toNat % 16)) : Text.parseRadix 16 (2 ^ 32 - 1) [a, b, c, d] = some n := by
  rw [Text.parseRadix_digits (digitVal_some ha).2.1]
  simp only [Text.digitsFrom, ha, hb, hc, hd, UInt8.toNat_ofNat']
  rw [if_pos (by omega), if_pos (by omega), if_pos (by omega), if_pos (by omega)]
  congr 1
  omega

/-- Hex of units in slices of four. -/
theorem Hex.units {units : List Nat} {hex : Chars} (h : Hex (units.flatMap (BigEndian.toBytes 2)) hex) (hsmall : ∀ n ∈ units, n < 65536) :
    ∃ slices : List Chars, hex = slices.flatten ∧ (∀ slice ∈ slices, Text.byteLen slice = 4) ∧
      slices.filterMap (fun unit => (Text.parseRadix 16 (2 ^ 32 - 1) unit).bind SmsForward.charOfCode) = units.filterMap SmsForward.charOfCode := by
  induction units generalizing hex with
  | nil =>
    cases h
    exact ⟨[], rfl, nofun, rfl⟩
  | cons n units ih =>
    have hn := hsmall n List.mem_cons_self
    rw [List.flatMap_cons] at h
    cases h with
    | @cons _ a b _ _ ha hb h =>
      cases h with
      | @cons _ c d _ _ hc hd h =>
        obtain ⟨slices, rfl, hlen, hparse⟩ := ih h fun n hn => hsmall n (List.mem_cons_of_mem _ hn)
        have hunit := parse_unit hn ha hb hc hd
        refine ⟨[a, b, c, d] :: slices, rfl, ?_, ?_⟩
        · intro slice hslice
          cases List.mem_cons.mp hslice with
          | inl hfirst =>
            rw [hfirst, Text.byteLen_cons, Text.byteLen_cons, Text.byteLen_cons, Text.byteLen_cons, (digitVal_some ha).1, (digitVal_some hb).1,
              (digitVal_some hc).1, (digitVal_some hd).1]
            rfl
          | inr hlater => exact hlen slice hlater
        · have hfirst : (Text.parseRadix 16 (2 ^ 32 - 1) [a, b, c, d]).bind SmsForward.charOfCode = SmsForward.charOfCode n := by
            rw [hunit, Option.bind_some]
          cases hchar : SmsForward.charOfCode n with
          | none =>
            rw [hchar] at hfirst
            rw [List.filterMap_cons_none hchar, ← hparse]
            exact List.filterMap_cons_none (a := [a, b, c, d]) hfirst
          | some char =>
            rw [hchar] at hfirst
            rw [List.filterMap_cons_some hchar, ← hparse]
            exact List.filterMap_cons_some (a := [a, b, c, d]) hfirst

theorem decodeUcs2_hex {text hex : Chars} (h : Hex (utf16be text) hex) (hne : hex ≠ []) :
    decodeUcs2 hex = some (text.filter fun c => c.toNat < 0x10000) := by
  obtain ⟨slices, rfl, hlen, hparse⟩ := h.units (SmsForward.text_units_small text)
  rw [SmsForward.filterMap_units] at hparse
  unfold decodeUcs2
  rw [if_neg hne, slices_flatten (by decide) hlen]
  exact congrArg some hparse

theorem utf16be_nil {text : Chars} (h : utf16be text = []) : text = [] := by
  cases text with
  | nil => rfl
  | cons c text =>
    unfold utf16be SmsForward.encodeUtf16 at h
    rw [List.flatMap_cons] at h
    split at h <;> cases h

/-- Other text comes back without surrogates. -/
theorem ucs2_iff {text hex : Chars} {dcs : Nat} (hne : text ≠ []) (h : Hex (utf16be text) hex) (hdcs : dcs % 16 = 8) :
    decodeUssdResponse hex dcs = some text ↔ ∀ c ∈ text, c.toNat < 0x10000 := by
  have hsome : hex ≠ [] := by
    intro hnil
    subst hnil
    exact hne (utf16be_nil h.of_nil)
  unfold decodeUssdResponse
  dsimp only
  rw [if_neg hsome, if_pos hdcs, decodeUcs2_hex h hsome, Option.some.injEq, List.filter_eq_self]
  simp

/-! ## Panics -/

/-- The slices a coding is read in. -/
def width (dcs : Nat) : Nat := if dcs % 16 = 8 then 4 else 2

/-- Every slice ends between characters. -/
def Sliceable (parsed : Cusd) : Prop :=
  ∀ k, k * width parsed.dcs ≤ Text.byteLen parsed.body → Boundary parsed.body (k * width parsed.dcs)

theorem hexToBytes_iff {hex : Chars} : (∃ bytes, hexToBytes hex = some bytes) ↔ ∃ pieces, slices 2 hex = some pieces := by
  unfold hexToBytes
  exact exists_bind_pure

theorem fallback_some_iff {hex : Chars} : (∃ out, fallback hex = some out) ↔ ∃ bytes, hexToBytes hex = some bytes := by
  unfold fallback
  exact exists_bind_pure

theorem decode_some_iff {hex : Chars} {dcs : Nat} (hne : hex ≠ []) :
    (∃ out, decodeUssdResponse hex dcs = some out) ↔ ∃ pieces, slices (width dcs) hex = some pieces := by
  unfold decodeUssdResponse width
  dsimp only
  rw [if_neg hne]
  by_cases hucs2 : dcs % 16 = 8
  · rw [if_pos hucs2, if_pos hucs2]
    unfold decodeUcs2
    rw [if_neg hne]
    exact exists_bind_pure
  · rw [if_neg hucs2, if_neg hucs2, ← hexToBytes_iff]
    by_cases hgsm : dcs % 16 = 0 ∨ dcs % 16 = 15
    · rw [if_pos hgsm]
      unfold decodeGsm7
      rw [if_neg hne]
      cases hbytes : hexToBytes hex with
      | none => exact iff_of_false (fun ⟨_, h⟩ => nomatch h) (fun ⟨_, h⟩ => nomatch h)
      | some bytes =>
        refine iff_of_true ?_ ⟨bytes, rfl⟩
        show ∃ out, (if (septetsFrom 0 none bytes).filterMap (gsm7Table[·]?) ≠ [] then _ else fallback hex) = some out
        split
        · exact ⟨_, rfl⟩
        · exact fallback_some_iff.mpr ⟨bytes, hbytes⟩
    · rw [if_neg hgsm]
      exact fallback_some_iff

theorem format_iff (parsed : Cusd) : (∃ response, formatUssdResponse parsed = some response) ↔ Sliceable parsed := by
  have hwidth : 0 < width parsed.dcs := by
    unfold width
    split <;> decide
  have hformat : (∃ response, formatUssdResponse parsed = some response) ↔ ∃ out, decodeUssdResponse parsed.body parsed.dcs = some out := by
    unfold formatUssdResponse
    exact exists_bind_pure
  rw [hformat]
  unfold Sliceable
  by_cases hempty : parsed.body = []
  · refine iff_of_true ?_ ?_
    · rw [hempty]
      exact ⟨[], rfl⟩
    · intro k hk
      rw [hempty] at hk ⊢
      have hzero : k * width parsed.dcs = 0 := Nat.le_zero.mp hk
      rw [hzero]
      exact boundary_zero _
  · rw [decode_some_iff hempty, slices_iff hwidth]

/-- Each kind of reply is decoded as the network meant it on these inputs and no others. -/
theorem ussd_decodes_iff (text : Chars) (septets : List Nat) (hex : Chars) (dcs : Nat) (raw : Chars) (parsed : Cusd) :
    (Spelled text septets → text.length % 8 ≠ 7 → Hex (Stk.Command.pack septets) hex → dcs % 16 = 0 ∨ dcs % 16 = 15 →
      (decodeUssdResponse hex dcs = some text ↔ (∀ s ∈ septets, s < 16 ∨ s = 17) ∨ LoneLetter text)) ∧
    (text ≠ [] → Hex (utf16be text) hex → dcs % 16 = 8 → (decodeUssdResponse hex dcs = some text ↔ ∀ c ∈ text, c.toNat < 0x10000)) ∧
    (parseCusd raw = some parsed → ((∃ response, formatUssdResponse parsed = some response) ↔ Sliceable parsed)) :=
  ⟨fun h hseven hhex hdcs => gsm_iff h hseven hhex hdcs, fun hne hhex hdcs => ucs2_iff hne hhex hdcs, fun _ => format_iff parsed⟩

theorem ussd_decodes_first_letters : decodeUssdResponse "808000".toList 15 = some ['@', '£', '$'] := by
  have hspelled : Spelled ['@', '£', '$'] [0, 1, 2] := by
    unfold Spelled
    rw [Stk.gsmTable_eq]
    exact .cons ⟨by decide, rfl⟩ (.cons ⟨by decide, rfl⟩ (.cons ⟨by decide, rfl⟩ .nil))
  have hhex : Hex (Stk.Command.pack [0, 1, 2]) "808000".toList := by
    rw [show Stk.Command.pack [0, 1, 2] = [0x80, 0x80, 0] by decide]
    exact .cons rfl rfl (.cons rfl rfl (.cons rfl rfl .nil))
  exact ((ussd_decodes_iff _ _ _ _ [] ⟨0, [], 15⟩).1 hspelled (by decide) hhex (Or.inr rfl)).mpr (Or.inl (by decide))

/-- An `H` in the default alphabet, an emoji in UTF-16, and a body with a letter outside ASCII. -/
theorem replies_garbled :
    ¬ (∀ text septets hex dcs, Spelled text septets → text.length % 8 ≠ 7 → Hex (Stk.Command.pack septets) hex → dcs % 16 = 0 ∨ dcs % 16 = 15 →
      decodeUssdResponse hex dcs = some text) ∧
    ¬ (∀ text hex dcs, text ≠ [] → Hex (utf16be text) hex → dcs % 16 = 8 → decodeUssdResponse hex dcs = some text) ∧
    ¬ (∀ raw parsed, parseCusd raw = some parsed → ∃ response, formatUssdResponse parsed = some response) := by
  refine ⟨?_, ?_, ?_⟩
  · intro h
    have hspelled : Spelled ['H'] [72] := by
      unfold Spelled
      rw [Stk.gsmTable_eq]
      exact .cons ⟨by decide, rfl⟩ .nil
    have hhex : Hex (Stk.Command.pack [72]) ['4', '8'] := .cons rfl rfl .nil
    exact absurd (h ['H'] [72] ['4', '8'] 15 hspelled (by decide) hhex (Or.inr rfl)) (by decide)
  · intro h
    have hhex : Hex (utf16be ['😀']) "D83DDE00".toList := .cons rfl rfl (.cons rfl rfl (.cons rfl rfl (.cons rfl rfl .nil)))
    exact absurd (h ['😀'] "D83DDE00".toList 72 (List.cons_ne_nil _ _) hhex rfl) (by decide)
  · intro h
    obtain ⟨response, hresponse⟩ := h "+CUSD: 0,\"aé\",15".toList ⟨0, ['a', 'é'], 15⟩ (by decide)
    have hpanics : formatUssdResponse ⟨0, ['a', 'é'], 15⟩ = none := by decide
    cases hpanics.symm.trans hresponse

end OpenU60.Telephony
