/-
  OpenU60.Euicc.Es9pText — the strings and numbers of the ES9+ JSON reader (`euicc/src/es9p.rs`:
  `Parser::string`, `utf16_literal`, `hex4`, `Parser::number`, `strtod_len`), and their grammar.

  A string is found in two passes, as cJSON finds it: the closing quote first, where no byte after a
  backslash closes, then what the bytes before it spell. A `\u` takes the four bytes after it
  whatever they are, so the second pass may find a backslash last, and reads the closing quote again.
  - `string_iff`: the two passes against `Content` and `Spells`;
  - `number_iff`: a number is the longest prefix of the form `strtod` takes.
-/

import OpenU60.Euicc.Der

namespace OpenU60.Euicc.Es9p

open OpenU60.Euicc.Der (Bytes)

def quote : UInt8 := 0x22
def backslash : UInt8 := 0x5C

/-! ## Strings -/

/-- How many bytes there are before the closing quote, stepping over the byte after each backslash. -/
def closing : Bytes → Option Nat
  | [] => none
  | b :: rest =>
    if b = quote then some 0
    else if b = backslash then
      match rest with
      | [] => none
      | _ :: rest => (closing rest).map (· + 2)
    else (closing rest).map (· + 1)

def hexDigit (b : UInt8) : Option Nat :=
  if 0x30 ≤ b ∧ b ≤ 0x39 then some (b.toNat - 0x30)
  else if 0x41 ≤ b ∧ b ≤ 0x46 then some (b.toNat - 0x41 + 10)
  else if 0x61 ≤ b ∧ b ≤ 0x66 then some (b.toNat - 0x61 + 10)
  else none

/-- Four hex digits, or 0 if any is not one. -/
def hex4 (s : Bytes) : Nat := ((s.take 4).foldlM (fun h b => (hexDigit b).map (h * 16 + ·)) 0).getD 0

/-- `encode_utf8`. -/
def utf8 (codepoint : Nat) : Bytes := String.utf8EncodeChar (Char.ofNat codepoint)

def isHigh (unit : Nat) : Prop := 0xD800 ≤ unit ∧ unit ≤ 0xDBFF
def isLow (unit : Nat) : Prop := 0xDC00 ≤ unit ∧ unit ≤ 0xDFFF

instance (unit : Nat) : Decidable (isHigh unit) := inferInstanceAs (Decidable (_ ∧ _))
instance (unit : Nat) : Decidable (isLow unit) := inferInstanceAs (Decidable (_ ∧ _))

/-- The character of a surrogate pair. -/
def paired (first second : Nat) : Nat := 0x10000 + (first % 0x400 * 0x400 + second % 0x400)

/-- From the backslash to the closing quote: the UTF-8, and how many bytes spell it. -/
def utf16Literal (s : Bytes) : Option (Bytes × Nat) :=
  if s.length < 6 then none
  else
    let first := hex4 (s.drop 2)
    if isLow first then none
    else if isHigh first then
      if s.length < 12 then none
      else if s.drop 6 |>.take 2 |> (· ≠ [backslash, 0x75]) then none
      else
        let second := hex4 (s.drop 8)
        if isLow second then some (utf8 (paired first second), 12) else none
    else some (utf8 first, 6)

/-- The escapes of one letter. -/
def escape (b : UInt8) : Option UInt8 :=
  if b = 0x62 then some 0x08
  else if b = 0x66 then some 0x0C
  else if b = 0x6E then some 0x0A
  else if b = 0x72 then some 0x0D
  else if b = 0x74 then some 0x09
  else if b = quote ∨ b = backslash ∨ b = 0x2F then some b
  else none

/-- What the bytes spell of which `left` are before the closing quote; every step takes one at least. -/
def unescape : Nat → Bytes → Nat → Option Bytes
  | _, _, 0 => some []
  | 0, _, _ + 1 => none
  | _ + 1, [], _ + 1 => none
  | fuel + 1, b :: rest, left + 1 =>
    if b ≠ backslash then (unescape fuel rest left).map (b :: ·)
    else
      match rest with
      | [] => none
      | c :: rest' =>
        if c = 0x75 then (utf16Literal ((b :: rest).take (left + 1))).bind fun (out, used) =>
          (unescape fuel ((b :: rest).drop used) (left + 1 - used)).map (out ++ ·)
        else (escape c).bind fun e => (unescape fuel rest' (left - 1)).map (e :: ·)

/-- A string at its opening quote, and what follows it. -/
def string (s : Bytes) : Option (Bytes × Bytes) :=
  (closing s.tail).bind fun length => (unescape length s.tail length).map fun out => (out, s.tail.drop (length + 1))

/-- Bytes a quote after them closes. -/
inductive Content : Bytes → Prop
  | nil : Content []
  | plain {b : UInt8} {c : Bytes} : b ≠ quote → b ≠ backslash → Content c → Content (b :: c)
  | escaped {b : UInt8} {c : Bytes} : Content c → Content (backslash :: b :: c)

/-- What the content of a string spells. -/
inductive Spells : Bytes → Bytes → Prop
  | nil : Spells [] []
  | plain {b : UInt8} {c v : Bytes} : b ≠ backslash → Spells c v → Spells (b :: c) (b :: v)
  | escape {b e : UInt8} {c v : Bytes} : escape b = some e → Spells c v → Spells (backslash :: b :: c) (e :: v)
  /-- The closing quote, read again as escaped. -/
  | closing : Spells [backslash] [quote]
  | unit {digits c v : Bytes} : digits.length = 4 → ¬ isLow (hex4 digits) → ¬ isHigh (hex4 digits) → Spells c v →
      Spells (backslash :: 0x75 :: (digits ++ c)) (utf8 (hex4 digits) ++ v)
  | pair {high low c v : Bytes} : high.length = 4 → low.length = 4 → isHigh (hex4 high) → isLow (hex4 low) → Spells c v →
      Spells (backslash :: 0x75 :: (high ++ backslash :: 0x75 :: (low ++ c))) (utf8 (paired (hex4 high) (hex4 low)) ++ v)

/-- A string that starts here, what it spells and what follows. -/
def StringLit (s v r : Bytes) : Prop := ∃ content, s = quote :: (content ++ quote :: r) ∧ Content content ∧ Spells content v

theorem closing_quote (r : Bytes) : closing (quote :: r) = some 0 := by rw [closing.eq_def]; exact if_pos rfl

theorem closing_plain {b : UInt8} (hq : b ≠ quote) (hb : b ≠ backslash) (c : Bytes) : closing (b :: c) = (closing c).map (· + 1) := by
  rw [closing.eq_def]
  exact (if_neg hq).trans (if_neg hb)

theorem closing_escaped (b : UInt8) (c : Bytes) : closing (backslash :: b :: c) = (closing c).map (· + 2) := by
  rw [closing.eq_def]
  exact (if_neg (by decide)).trans (if_pos rfl)

theorem closing_of_content {content : Bytes} (h : Content content) (r : Bytes) : closing (content ++ quote :: r) = some content.length := by
  induction h with
  | nil => exact closing_quote r
  | plain hq hb _ ih => rw [List.cons_append, closing_plain hq hb, ih]; rfl
  | escaped _ ih => rw [List.cons_append, List.cons_append, closing_escaped, ih]; rfl

theorem content_of_closing {s : Bytes} {n : Nat} (h : closing s = some n) :
    ∃ content r, s = content ++ quote :: r ∧ content.length = n ∧ Content content := by
  induction hlen : s.length using Nat.strongRecOn generalizing s n with
  | ind len ih =>
    subst hlen
    cases s with
    | nil => cases h
    | cons b rest =>
      by_cases hq : b = quote
      · rw [hq, closing_quote] at h
        cases h
        exact ⟨[], rest, by rw [hq]; rfl, rfl, .nil⟩
      · by_cases hb : b = backslash
        · subst hb
          cases rest with
          | nil => cases h
          | cons c rest =>
            rw [closing_escaped] at h
            obtain ⟨m, hm, rfl⟩ := Option.map_eq_some_iff.mp h
            obtain ⟨content, r, rfl, rfl, hcontent⟩ := ih rest.length (by simp only [List.length_cons]; omega) hm rfl
            exact ⟨backslash :: c :: content, r, rfl, rfl, hcontent.escaped⟩
        · rw [closing_plain hq hb] at h
          obtain ⟨m, hm, rfl⟩ := Option.map_eq_some_iff.mp h
          obtain ⟨content, r, rfl, rfl, hcontent⟩ := ih rest.length (by simp) hm rfl
          exact ⟨b :: content, r, rfl, rfl, hcontent.plain hq hb⟩

/-! ### The second pass -/

theorem hex4_append {digits : Bytes} (h : digits.length = 4) (c : Bytes) : hex4 (digits ++ c) = hex4 digits := by
  unfold hex4
  rw [List.take_append_of_le_length (Nat.le_of_eq h.symm), List.take_of_length_le (Nat.le_of_eq h)]

theorem utf16Literal_unit {digits : Bytes} (hdigits : digits.length = 4) (hlow : ¬ isLow (hex4 digits)) (hhigh : ¬ isHigh (hex4 digits)) (c : Bytes) :
    utf16Literal (backslash :: 0x75 :: (digits ++ c)) = some (utf8 (hex4 digits), 6) := by
  unfold utf16Literal
  have hlong : ¬ (backslash :: 0x75 :: (digits ++ c)).length < 6 := by simp [hdigits]
  have hfirst : hex4 ((backslash :: 0x75 :: (digits ++ c)).drop 2) = hex4 digits := hex4_append hdigits c
  dsimp only
  rw [if_neg hlong, hfirst, if_neg hlow, if_neg hhigh]

theorem utf16Literal_pair {high low : Bytes} (hh : high.length = 4) (hl : low.length = 4) (hhigh : isHigh (hex4 high)) (hlow : isLow (hex4 low))
    (c : Bytes) : utf16Literal (backslash :: 0x75 :: (high ++ backslash :: 0x75 :: (low ++ c))) = some (utf8 (paired (hex4 high) (hex4 low)), 12) := by
  have hnot : ¬ isLow (hex4 high) := by
    unfold isLow isHigh at *
    omega
  obtain ⟨h₁, h₂, h₃, h₄, rfl⟩ : ∃ h₁ h₂ h₃ h₄, high = [h₁, h₂, h₃, h₄] := by
    match high, hh with
    | [h₁, h₂, h₃, h₄], _ => exact ⟨h₁, h₂, h₃, h₄, rfl⟩
  unfold utf16Literal
  have hfirst : hex4 ((backslash :: 0x75 :: ([h₁, h₂, h₃, h₄] ++ backslash :: 0x75 :: (low ++ c))).drop 2) = hex4 [h₁, h₂, h₃, h₄] :=
    hex4_append rfl _
  have hsecond : hex4 ((backslash :: 0x75 :: ([h₁, h₂, h₃, h₄] ++ backslash :: 0x75 :: (low ++ c))).drop 8) = hex4 low := hex4_append hl c
  dsimp only
  rw [if_neg (by simp), hfirst, if_neg hnot, if_pos hhigh, if_neg (by simp [hl]), if_neg (by simp), hsecond, if_pos hlow]

/-- The ways a `\u` is read. -/
theorem utf16Literal_some {s out : Bytes} {used : Nat} (h : utf16Literal (backslash :: 0x75 :: s) = some (out, used)) :
    (∃ digits c, s = digits ++ c ∧ digits.length = 4 ∧ ¬ isLow (hex4 digits) ∧ ¬ isHigh (hex4 digits) ∧ out = utf8 (hex4 digits) ∧ used = 6) ∨
    ∃ high low c, s = high ++ backslash :: 0x75 :: (low ++ c) ∧ high.length = 4 ∧ low.length = 4 ∧ isHigh (hex4 high) ∧ isLow (hex4 low) ∧
      out = utf8 (paired (hex4 high) (hex4 low)) ∧ used = 12 := by
  unfold utf16Literal at h
  split at h
  · cases h
  · rename_i hlong
    obtain ⟨h₁, h₂, h₃, h₄, c, rfl⟩ : ∃ h₁ h₂ h₃ h₄ c, s = h₁ :: h₂ :: h₃ :: h₄ :: c := by
      match s, hlong with
      | h₁ :: h₂ :: h₃ :: h₄ :: c, _ => exact ⟨h₁, h₂, h₃, h₄, c, rfl⟩
      | [], hlong | [_], hlong | [_, _], hlong | [_, _, _], hlong => exact absurd (by simp) hlong
    have hfirst : hex4 ((backslash :: 0x75 :: h₁ :: h₂ :: h₃ :: h₄ :: c).drop 2) = hex4 [h₁, h₂, h₃, h₄] := rfl
    dsimp only at h
    rw [hfirst] at h
    split at h
    · cases h
    · rename_i hlow
      split at h
      · rename_i hhigh
        split at h
        · cases h
        · rename_i hlonger
          split at h
          · cases h
          · rename_i hu
            split at h
            · rename_i hsecond
              cases h
              obtain ⟨c', rfl⟩ : ∃ c', c = backslash :: 0x75 :: c' := by
                have htake : c.take 2 = [backslash, 0x75] := by simpa using hu
                exact ⟨c.drop 2, by rw [← List.take_append_drop 2 c, htake]; rfl⟩
              have hlong' : 4 ≤ c'.length := by simpa using hlonger
              refine .inr ⟨[h₁, h₂, h₃, h₄], c'.take 4, c'.drop 4, ?_, rfl, ?_, hhigh, ?_, ?_, rfl⟩
              · rw [List.take_append_drop]
                rfl
              · rw [List.length_take]
                omega
              · have heq : hex4 (c'.take 4) = hex4 c' := by
                  unfold hex4
                  rw [List.take_take, Nat.min_self]
                rw [heq]
                exact hsecond
              · have heq : hex4 (c'.take 4) = hex4 c' := by
                  unfold hex4
                  rw [List.take_take, Nat.min_self]
                rw [heq]
                rfl
            · cases h
      · rename_i hhigh
        cases h
        exact .inl ⟨[h₁, h₂, h₃, h₄], c, rfl, rfl, hlow, hhigh, rfl, rfl⟩

theorem unescape_zero (fuel : Nat) (s : Bytes) : unescape fuel s 0 = some [] := by
  cases fuel <;> rfl

theorem unescape_plain {b : UInt8} (hb : b ≠ backslash) (fuel left : Nat) (s : Bytes) :
    unescape (fuel + 1) (b :: s) (left + 1) = (unescape fuel s left).map (b :: ·) := if_pos hb

theorem unescape_escape {b e : UInt8} (hb : escape b = some e) (fuel left : Nat) (s : Bytes) :
    unescape (fuel + 1) (backslash :: b :: s) (left + 1) = (unescape fuel s (left - 1)).map (e :: ·) := by
  have hu : b ≠ 0x75 := by
    rintro rfl
    cases hb
  exact (if_neg fun h => h rfl).trans ((if_neg hu).trans (by rw [hb]; rfl))

theorem unescape_unicode (fuel left : Nat) (s : Bytes) : unescape (fuel + 1) (backslash :: 0x75 :: s) (left + 1) =
    (utf16Literal ((backslash :: 0x75 :: s).take (left + 1))).bind fun (out, used) =>
      (unescape fuel ((backslash :: 0x75 :: s).drop used) (left + 1 - used)).map (out ++ ·) :=
  (if_neg fun h => h rfl).trans (if_pos rfl)

/-- A `\u` whose spelling ends before the quote: the second pass goes on after it. -/
theorem unescape_literal {spelled out : Bytes} {used : Nat} {c : Bytes} (hlit : utf16Literal (spelled ++ c) = some (out, used))
    (hhead : ∃ s, spelled = backslash :: 0x75 :: s) (hused : spelled.length = used) (fuel : Nat) (r : Bytes) :
    unescape (fuel + 1) (spelled ++ c ++ quote :: r) (spelled ++ c).length = (unescape fuel (c ++ quote :: r) c.length).map (out ++ ·) := by
  obtain ⟨s, rfl⟩ := hhead
  have htake : (backslash :: 0x75 :: s ++ c ++ quote :: r).take (backslash :: 0x75 :: s ++ c).length = backslash :: 0x75 :: s ++ c := List.take_left
  have hdrop : (backslash :: 0x75 :: s ++ c ++ quote :: r).drop used = c ++ quote :: r := by
    rw [List.append_assoc, ← hused, List.drop_left]
  have hleft : (backslash :: 0x75 :: s ++ c).length - used = c.length := by
    rw [List.length_append, hused, Nat.add_sub_cancel_left]
  have hstep := unescape_unicode fuel (0x75 :: s ++ c).length (s ++ c ++ quote :: r)
  calc unescape (fuel + 1) (backslash :: 0x75 :: s ++ c ++ quote :: r) (backslash :: 0x75 :: s ++ c).length
      = (utf16Literal ((backslash :: 0x75 :: s ++ c ++ quote :: r).take (backslash :: 0x75 :: s ++ c).length)).bind fun (out, used) =>
          (unescape fuel ((backslash :: 0x75 :: s ++ c ++ quote :: r).drop used) ((backslash :: 0x75 :: s ++ c).length - used)).map (out ++ ·) := hstep
    _ = (unescape fuel (c ++ quote :: r) c.length).map (out ++ ·) := by
        rw [htake, hlit, Option.bind_some]
        dsimp only
        rw [hdrop, hleft]

/-- Fuel for every byte before the quote is enough. -/
theorem unescape_of_spells {content v : Bytes} (h : Spells content v) (r : Bytes) {fuel : Nat} (hfuel : content.length ≤ fuel) :
    unescape fuel (content ++ quote :: r) content.length = some v := by
  have hsucc : ∀ {m : Nat}, m + 1 ≤ fuel → ∃ fuel', fuel = fuel' + 1 ∧ m ≤ fuel' := fun {m} hm => ⟨fuel - 1, by omega, by omega⟩
  induction h generalizing fuel with
  | nil => exact unescape_zero fuel _
  | plain hb _ ih =>
    obtain ⟨fuel, rfl, hless⟩ := hsucc hfuel
    rw [List.cons_append, List.length_cons, unescape_plain hb, ih hless fun hm => ⟨fuel - 1, by omega, by omega⟩]
    rfl
  | escape hb _ ih =>
    obtain ⟨fuel, rfl, hless⟩ := hsucc hfuel
    rw [List.cons_append, List.cons_append, List.length_cons, List.length_cons, unescape_escape hb, Nat.add_sub_cancel,
      ih (Nat.le_of_succ_le hless) fun hm => ⟨fuel - 1, by omega, by omega⟩]
    rfl
  | closing =>
    obtain ⟨fuel, rfl, -⟩ := hsucc hfuel
    have hquote : escape quote = some quote := rfl
    show unescape (fuel + 1) (backslash :: quote :: r) (0 + 1) = _
    rw [unescape_escape hquote, unescape_zero]
    rfl
  | @unit digits c v hdigits hlow hhigh _ ih =>
    obtain ⟨fuel, rfl, hless⟩ := hsucc hfuel
    have hc : c.length ≤ fuel := by
      simp only [List.length_cons, List.length_append] at hless
      omega
    have hlit : utf16Literal (backslash :: 0x75 :: digits ++ c) = _ := utf16Literal_unit hdigits hlow hhigh c
    have hstep := unescape_literal hlit ⟨digits, rfl⟩ (by simp [hdigits]) fuel r
    rw [ih hc fun hm => ⟨fuel - 1, by omega, by omega⟩] at hstep
    exact hstep
  | @pair high low c v hh hl hhigh hlow _ ih =>
    obtain ⟨fuel, rfl, hless⟩ := hsucc hfuel
    have hc : c.length ≤ fuel := by
      simp only [List.length_cons, List.length_append] at hless
      omega
    have hassoc : backslash :: 0x75 :: (high ++ backslash :: 0x75 :: (low ++ c)) = backslash :: 0x75 :: (high ++ backslash :: 0x75 :: low) ++ c := by simp
    have hlit := utf16Literal_pair hh hl hhigh hlow c
    rw [hassoc] at hlit ⊢
    rw [unescape_literal hlit ⟨_, rfl⟩ (by simp [hh, hl]) fuel r, ih hc fun hm => ⟨fuel - 1, by omega, by omega⟩]
    rfl

theorem spells_of_unescape {fuel : Nat} {content r v : Bytes} (h : unescape fuel (content ++ quote :: r) content.length = some v) :
    Spells content v := by
  induction fuel generalizing content v with
  | zero =>
    cases content with
    | nil =>
      cases h
      exact .nil
    | cons b c => cases h
  | succ fuel ih =>
    cases content with
    | nil =>
      cases h
      exact .nil
    | cons b c =>
      by_cases hb : b = backslash
      · subst hb
        cases c with
        | nil =>
          have hquote : escape quote = some quote := rfl
          have h : unescape (fuel + 1) (backslash :: quote :: r) (0 + 1) = some v := h
          rw [unescape_escape hquote, unescape_zero] at h
          cases h
          exact .closing
        | cons b c =>
          by_cases hu : b = 0x75
          · subst hu
            have hstep : unescape (fuel + 1) (backslash :: 0x75 :: (c ++ quote :: r)) (c.length + 1 + 1) = some v := h
            have htake : (backslash :: 0x75 :: (c ++ quote :: r)).take (c.length + 1 + 1) = backslash :: 0x75 :: c := by simp
            rw [unescape_unicode, htake] at hstep
            obtain ⟨⟨out, used⟩, hlit, -⟩ := Option.bind_eq_some_iff.mp hstep
            rcases utf16Literal_some hlit with ⟨digits, c, rfl, hdigits, hlow, hhigh, rfl, rfl⟩ |
              ⟨high, low, c, rfl, hh, hl, hhigh, hlow, rfl, rfl⟩
            · have hlit : utf16Literal (backslash :: 0x75 :: digits ++ c) = some (utf8 (hex4 digits), 6) := hlit
              have hrest := unescape_literal hlit ⟨digits, rfl⟩ (by simp [hdigits]) fuel r
              obtain ⟨v', hv', rfl⟩ := Option.map_eq_some_iff.mp (hrest.symm.trans h)
              exact .unit hdigits hlow hhigh (ih hv')
            · have hassoc : backslash :: 0x75 :: (high ++ backslash :: 0x75 :: (low ++ c)) =
                  backslash :: 0x75 :: (high ++ backslash :: 0x75 :: low) ++ c := by simp
              rw [hassoc] at hlit h
              rw [unescape_literal hlit ⟨_, rfl⟩ (by simp [hh, hl]) fuel r] at h
              obtain ⟨v', hv', rfl⟩ := Option.map_eq_some_iff.mp h
              exact .pair hh hl hhigh hlow (ih hv')
          · have hstep : unescape (fuel + 1) (backslash :: b :: (c ++ quote :: r)) (c.length + 1 + 1) = some v := h
            cases he : escape b with
            | none =>
              have hnone : unescape (fuel + 1) (backslash :: b :: (c ++ quote :: r)) (c.length + 1 + 1) = none :=
                (if_neg fun h => h rfl).trans ((if_neg hu).trans (by rw [he]; rfl))
              rw [hnone] at hstep
              cases hstep
            | some e =>
              rw [unescape_escape he, Nat.add_sub_cancel] at hstep
              obtain ⟨v', hv', rfl⟩ := Option.map_eq_some_iff.mp hstep
              exact .escape he (ih hv')
      · have h : unescape (fuel + 1) (b :: (c ++ quote :: r)) (c.length + 1) = some v := h
        rw [unescape_plain hb] at h
        obtain ⟨v', hv', rfl⟩ := Option.map_eq_some_iff.mp h
        exact .plain hb (ih hv')

theorem string_iff {s v r : Bytes} (hs : s.head? = some quote) : string s = some (v, r) ↔ StringLit s v r := by
  obtain ⟨body, rfl⟩ : ∃ body, s = quote :: body := by
    cases s with
    | nil => cases hs
    | cons b body =>
      cases hs
      exact ⟨body, rfl⟩
  unfold string StringLit
  rw [List.tail_cons]
  constructor
  · intro h
    obtain ⟨length, hclosing, hrest⟩ := Option.bind_eq_some_iff.mp h
    obtain ⟨out, hout, heq⟩ := Option.map_eq_some_iff.mp hrest
    obtain ⟨content, r', rfl, rfl, hcontent⟩ := content_of_closing hclosing
    obtain ⟨rfl, hr⟩ := Prod.mk.inj heq
    refine ⟨content, ?_, hcontent, spells_of_unescape hout⟩
    rw [← hr]
    simp
  · rintro ⟨content, hbody, hcontent, hspells⟩
    obtain rfl := (List.cons.inj hbody).2
    rw [closing_of_content hcontent, Option.bind_some, unescape_of_spells hspells r (Nat.le_refl _)]
    simp

/-! ## Numbers -/

def isDigit (b : UInt8) : Bool := 0x30 ≤ b && b ≤ 0x39
def isSign (b : UInt8) : Bool := b = 0x2B || b = 0x2D
def isExp (b : UInt8) : Bool := b = 0x65 || b = 0x45
def point : UInt8 := 0x2E

/-- The bytes a number is made of. -/
def inNumber (b : UInt8) : Bool := isDigit b || isSign b || isExp b || b = point

/-- How many digits there are at the start. -/
def digits (s : Bytes) : Nat := (s.takeWhile isDigit).length

/-- A sign at the start, if there is one. -/
def signLen (s : Bytes) : Nat := if s.head?.any isSign then 1 else 0

/-- The point and the digits after it, if there is one. -/
def pointLen (s : Bytes) : Nat := if s.head? = some point then 1 + digits s.tail else 0

/-- An exponent at the start, if it has digits. -/
def expLen (s : Bytes) : Nat :=
  if s.head?.any isExp then
    let sign := signLen s.tail
    let count := digits (s.tail.drop sign)
    if 0 < count then 1 + sign + count else 0
  else 0

/-- How many bytes `strtod` would convert; 0 if none. -/
def strtodLen (s : Bytes) : Nat :=
  let sign := signLen s
  let rest := s.drop sign
  let int := digits rest
  let frac := pointLen (rest.drop int)
  if int + (frac - 1) = 0 then 0 else sign + int + frac + expLen (rest.drop (int + frac))

/-- What follows a number that starts here. -/
def number (s : Bytes) : Option Bytes :=
  match strtodLen (s.takeWhile inNumber) with
  | 0 => none
  | n + 1 => some (s.drop (n + 1))

def IsSign (s : Bytes) : Prop := s = [] ∨ ∃ b, isSign b = true ∧ s = [b]
def IsDigits (s : Bytes) : Prop := ∀ b ∈ s, isDigit b = true

/-- Nothing, or a point and digits. -/
def IsFrac (s : Bytes) : Prop := s = [] ∨ ∃ ds, s = point :: ds ∧ IsDigits ds

/-- Nothing, or `e` and digits with a sign or without. -/
def IsExponent (s : Bytes) : Prop := s = [] ∨ ∃ e sign ds, s = e :: (sign ++ ds) ∧ isExp e = true ∧ IsSign sign ∧ IsDigits ds ∧ ds ≠ []

/-- The form `strtod` takes: there are digits before or after the point. -/
def Decimal (s : Bytes) : Prop := ∃ sign int frac exp, s = sign ++ (int ++ (frac ++ exp)) ∧ IsSign sign ∧ IsDigits int ∧ IsFrac frac ∧ IsExponent exp ∧
  0 < int.length + (frac.length - 1)

/-- The longest prefix of that form, and what follows it. -/
def Numeral (s r : Bytes) : Prop := ∃ t, s = t ++ r ∧ Decimal t ∧ ∀ t' r', s = t' ++ r' → Decimal t' → t'.length ≤ t.length

theorem digits_append {ds : Bytes} (h : IsDigits ds) (r : Bytes) : digits (ds ++ r) = ds.length + digits r := by
  unfold digits
  rw [List.takeWhile_append_of_pos h, List.length_append]

theorem digits_stop {b : UInt8} (h : isDigit b = false) (r : Bytes) : digits (b :: r) = 0 := by
  unfold digits
  rw [List.takeWhile_cons, h]
  rfl

theorem take_digits (s : Bytes) : IsDigits (s.take (digits s)) := by
  intro b hb
  have htake : s.take (digits s) = s.takeWhile isDigit := (List.prefix_iff_eq_take.mp (List.takeWhile_prefix isDigit)).symm
  rw [htake] at hb
  exact List.all_eq_true.mp List.all_takeWhile b hb

theorem digits_le (s : Bytes) : digits s ≤ s.length := (List.takeWhile_prefix isDigit).length_le

theorem signLen_append {sign r : Bytes} (h : IsSign sign) (hr : sign = [] → signLen r = 0) : signLen (sign ++ r) = sign.length := by
  rcases h with rfl | ⟨b, hb, rfl⟩
  · exact hr rfl
  · exact if_pos hb

theorem take_sign (s : Bytes) : IsSign (s.take (signLen s)) := by
  unfold signLen
  cases s with
  | nil => exact .inl (List.take_nil ..)
  | cons b s =>
    split
    · rename_i hb
      exact .inr ⟨b, hb, rfl⟩
    · exact .inl rfl

theorem signLen_le (s : Bytes) : signLen s ≤ s.length := by
  unfold signLen
  cases s with
  | nil => exact Nat.le_refl _
  | cons b s =>
    rw [List.length_cons]
    split <;> omega

theorem isSign_of_digit {b : UInt8} (h : isDigit b = true) : isSign b = false := by
  unfold isSign
  rw [Bool.or_eq_false_iff, decide_eq_false_iff_not, decide_eq_false_iff_not]
  constructor <;> rintro rfl <;> cases h

/-- An exponent's first byte is of no other part. -/
theorem stop_of_exp {b : UInt8} (h : isExp b = true) : isDigit b = false ∧ b ≠ point := by
  unfold isExp at h
  rw [Bool.or_eq_true, decide_eq_true_eq, decide_eq_true_eq] at h
  rcases h with rfl | rfl <;> decide

/-- What `strtod` takes of a text that starts with a number is not less than the number. -/
theorem le_strtodLen {t : Bytes} (h : Decimal t) (r : Bytes) : t.length ≤ strtodLen (t ++ r) := by
  obtain ⟨sign, int, frac, exp, rfl, hsign, hint, hfrac, hexp, hsome⟩ := h
  have hexpStop : ∀ exp, IsExponent exp → exp ≠ [] → ∀ r, digits (exp ++ r) = 0 ∧ (exp ++ r).head? ≠ some point := by
    rintro exp (rfl | ⟨e, sign, ds, rfl, he, -, -, -⟩) hne r
    · exact absurd rfl hne
    · obtain ⟨hdigit, hpoint⟩ := stop_of_exp he
      exact ⟨digits_stop hdigit _, fun heq => hpoint (Option.some.inj heq)⟩
  have hexpLen : ∀ r, exp.length ≤ expLen (exp ++ r) := by
    intro r
    rcases hexp with rfl | ⟨e, sign, ds, rfl, he, hs, hds, hne⟩
    · exact Nat.zero_le _
    · unfold expLen
      rw [List.cons_append, List.head?_cons, Option.any_some, if_pos he, List.tail_cons, List.append_assoc]
      have hsignLen : signLen (sign ++ (ds ++ r)) = sign.length := by
        refine signLen_append hs fun _ => ?_
        cases ds with
        | nil => exact absurd rfl hne
        | cons d ds =>
          have hd := isSign_of_digit (hds d List.mem_cons_self)
          exact if_neg (by rw [List.cons_append, List.head?_cons, Option.any_some, hd]; exact Bool.false_ne_true)
      have hpos : 0 < ds.length := List.length_pos_of_ne_nil hne
      dsimp only
      rw [hsignLen, List.drop_left, digits_append hds, if_pos (by omega), List.length_cons, List.length_append]
      omega
  have hsignLen : signLen (sign ++ (int ++ (frac ++ exp)) ++ r) = sign.length := by
    rw [List.append_assoc]
    refine signLen_append hsign fun _ => ?_
    unfold signLen
    refine if_neg ?_
    cases int with
    | cons b int =>
      rw [List.cons_append, List.cons_append, List.head?_cons, Option.any_some, isSign_of_digit (hint b List.mem_cons_self)]
      exact Bool.false_ne_true
    | nil =>
      rcases hfrac with rfl | ⟨ds, rfl, -⟩
      · exact absurd hsome (by decide)
      · exact Bool.false_ne_true
  have hrest : (sign ++ (int ++ (frac ++ exp)) ++ r).drop sign.length = int ++ (frac ++ (exp ++ r)) := by
    rw [List.append_assoc, List.drop_left, List.append_assoc, List.append_assoc]
  unfold strtodLen
  dsimp only
  rw [hsignLen, hrest, digits_append hint]
  rcases hfrac with rfl | ⟨ds, rfl, hds⟩
  · have hpos : int.length ≠ 0 := Nat.ne_of_gt hsome
    by_cases hnil : exp = []
    · rw [if_neg (by simp only [List.length_nil] at hsome; omega), hnil]
      simp only [List.append_nil, List.length_append]
      omega
    · obtain ⟨hstop, hpoint⟩ := hexpStop exp hexp hnil r
      have hfrac0 : pointLen (exp ++ r) = 0 := if_neg hpoint
      simp only [List.nil_append]
      rw [hstop, Nat.add_zero, List.drop_left, hfrac0, Nat.add_zero, List.drop_left, if_neg hpos]
      have := hexpLen r
      simp only [List.length_append]
      omega
  · have hstop : digits (point :: ds ++ (exp ++ r)) = 0 := digits_stop rfl _
    have hpointLen : pointLen (point :: ds ++ (exp ++ r)) = 1 + (ds.length + digits (exp ++ r)) := by
      unfold pointLen
      rw [List.cons_append, List.head?_cons, if_pos rfl, List.tail_cons, digits_append hds]
    simp only [List.length_cons, Nat.add_sub_cancel] at hsome
    rw [hstop, Nat.add_zero, List.drop_left, hpointLen, if_neg (by omega)]
    by_cases hnil : exp = []
    · rw [hnil]
      simp only [List.length_append, List.length_cons, List.length_nil]
      omega
    · obtain ⟨hstop', -⟩ := hexpStop exp hexp hnil r
      have hdrop : (int ++ (point :: ds ++ (exp ++ r))).drop (int.length + (1 + (ds.length + digits (exp ++ r)))) = exp ++ r := by
        have hlength : int.length + (1 + (ds.length + digits (exp ++ r))) = (int ++ point :: ds).length := by
          rw [hstop', List.length_append, List.length_cons]
          omega
        rw [hlength, ← List.append_assoc, List.drop_left]
      have := hexpLen r
      rw [hdrop]
      simp only [List.length_append, List.length_cons]
      omega

theorem take_frac (s : Bytes) : IsFrac (s.take (pointLen s)) ∧ pointLen s ≤ s.length := by
  unfold pointLen
  cases s with
  | nil => exact ⟨.inl rfl, Nat.le_refl _⟩
  | cons b s =>
    rw [List.head?_cons, List.tail_cons, List.length_cons]
    split
    · rename_i hb
      cases hb
      refine ⟨.inr ⟨s.take (digits s), ?_, take_digits s⟩, ?_⟩
      · rw [Nat.add_comm, List.take_succ_cons]
      · have := digits_le s
        omega
    · exact ⟨.inl rfl, Nat.zero_le _⟩

theorem take_exp (s : Bytes) : IsExponent (s.take (expLen s)) ∧ expLen s ≤ s.length := by
  unfold expLen
  cases s with
  | nil => exact ⟨.inl rfl, Nat.le_refl _⟩
  | cons b s =>
    rw [List.head?_cons, Option.any_some, List.tail_cons, List.length_cons]
    dsimp only
    have hsign := signLen_le s
    have hcount := digits_le (s.drop (signLen s))
    rw [List.length_drop] at hcount
    split
    · rename_i hb
      split
      · rename_i hpos
        refine ⟨.inr ⟨b, s.take (signLen s), (s.drop (signLen s)).take (digits (s.drop (signLen s))), ?_, hb, take_sign s, take_digits _, ?_⟩, by omega⟩
        · rw [Nat.add_assoc, Nat.add_comm, List.take_succ_cons, List.take_add]
        · intro hnil
          have hlength := congrArg List.length hnil
          simp only [List.length_take, List.length_drop, List.length_nil] at hlength
          omega
      · exact ⟨.inl rfl, Nat.zero_le _⟩
    · exact ⟨.inl rfl, Nat.zero_le _⟩

/-- What `strtod` takes is a number. -/
theorem decimal_take {s : Bytes} (h : strtodLen s ≠ 0) : Decimal (s.take (strtodLen s)) ∧ strtodLen s ≤ s.length := by
  unfold strtodLen at h ⊢
  dsimp only at h ⊢
  have hsign := signLen_le s
  have hint := digits_le (s.drop (signLen s))
  obtain ⟨hfrac, hfracLe⟩ := take_frac ((s.drop (signLen s)).drop (digits (s.drop (signLen s))))
  generalize hfracLen : pointLen ((s.drop (signLen s)).drop (digits (s.drop (signLen s)))) = frac at *
  obtain ⟨hexp, hexpLe⟩ := take_exp ((s.drop (signLen s)).drop (digits (s.drop (signLen s)) + frac))
  generalize expLen ((s.drop (signLen s)).drop (digits (s.drop (signLen s)) + frac)) = exp at *
  split at h
  · exact absurd rfl h
  · rename_i hsome
    rw [if_neg hsome]
    simp only [List.length_drop] at hint hfracLe hexpLe
    refine ⟨⟨s.take (signLen s), (s.drop (signLen s)).take (digits (s.drop (signLen s))), _, _, ?_, take_sign s, take_digits _, hfrac, hexp, ?_⟩,
      by omega⟩
    · rw [Nat.add_assoc, Nat.add_assoc, List.take_add, List.take_add, List.take_add, ← List.drop_drop]
    · simp only [List.length_take, List.length_drop]
      omega

theorem inNumber_of_decimal {t : Bytes} (h : Decimal t) : ∀ b ∈ t, inNumber b = true := by
  have hdigits : ∀ {ds}, IsDigits ds → ∀ b ∈ ds, inNumber b = true := fun h b hb => by
    unfold inNumber
    rw [h b hb]
    rfl
  have hsigns : ∀ {s}, IsSign s → ∀ b ∈ s, inNumber b = true := by
    rintro s (rfl | ⟨b, hb, rfl⟩) c hc
    · cases hc
    · unfold inNumber
      rw [List.mem_singleton.mp hc, hb]
      simp
  obtain ⟨sign, int, frac, exp, rfl, hsign, hint, hfrac, hexp, -⟩ := h
  intro b hb
  rcases List.mem_append.mp hb with hb | hb
  · exact hsigns hsign b hb
  rcases List.mem_append.mp hb with hb | hb
  · exact hdigits hint b hb
  rcases List.mem_append.mp hb with hb | hb
  · rcases hfrac with rfl | ⟨ds, rfl, hds⟩
    · cases hb
    · rcases List.mem_cons.mp hb with rfl | hb
      · rfl
      · exact hdigits hds b hb
  · rcases hexp with rfl | ⟨e, sign, ds, rfl, he, hs, hds, -⟩
    · cases hb
    · rcases List.mem_cons.mp hb with rfl | hb
      · unfold inNumber
        rw [he]
        simp
      · rcases List.mem_append.mp hb with hb | hb
        · exact hsigns hs b hb
        · exact hdigits hds b hb

theorem Decimal.length_pos {t : Bytes} (h : Decimal t) : 0 < t.length := by
  obtain ⟨sign, int, frac, exp, rfl, -, -, -, -, hsome⟩ := h
  simp only [List.length_append]
  omega

theorem number_iff (s r : Bytes) : number s = some r ↔ Numeral s r := by
  -- a number at the start of the text is one at the start of the run
  have hrun : ∀ {t r : Bytes}, s = t ++ r → Decimal t → ∃ r', s.takeWhile inNumber = t ++ r' := by
    rintro t r rfl ht
    exact ⟨r.takeWhile inNumber, List.takeWhile_append_of_pos (inNumber_of_decimal ht)⟩
  have hle : ∀ {t r : Bytes}, s = t ++ r → Decimal t → t.length ≤ strtodLen (s.takeWhile inNumber) := by
    intro t r hs ht
    obtain ⟨r', hr'⟩ := hrun hs ht
    rw [hr']
    exact le_strtodLen ht r'
  have htake : strtodLen (s.takeWhile inNumber) ≠ 0 → Decimal (s.take (strtodLen (s.takeWhile inNumber))) ∧
      strtodLen (s.takeWhile inNumber) ≤ s.length := by
    intro h0
    obtain ⟨hdecimal, hlen⟩ := decimal_take h0
    obtain ⟨rest, hrest⟩ : s.takeWhile inNumber <+: s := List.takeWhile_prefix inNumber
    refine ⟨?_, Nat.le_trans hlen (List.takeWhile_prefix inNumber).length_le⟩
    have heq : s.take (strtodLen (s.takeWhile inNumber)) = (s.takeWhile inNumber).take (strtodLen (s.takeWhile inNumber)) := by
      conv_lhs => rw [← hrest]
      rw [List.take_append_of_le_length (by rw [hrest]; exact hlen), hrest]
    rw [heq]
    exact hdecimal
  unfold number
  generalize strtodLen (s.takeWhile inNumber) = n at *
  cases n with
  | zero =>
    refine ⟨nofun, fun ⟨t, hs, ht, _⟩ => ?_⟩
    have := hle hs ht
    have := ht.length_pos
    omega
  | succ n =>
    obtain ⟨hdecimal, hlen⟩ := htake (Nat.succ_ne_zero n)
    have hlength : (s.take (n + 1)).length = n + 1 := by
      rw [List.length_take]
      omega
    constructor
    · intro h
      cases h
      refine ⟨s.take (n + 1), (List.take_append_drop _ _).symm, hdecimal, fun t' r' hs ht => ?_⟩
      rw [hlength]
      exact hle hs ht
    · rintro ⟨t, rfl, ht, hlongest⟩
      have hge := hlongest _ _ (List.take_append_drop (n + 1) (t ++ r)).symm hdecimal
      have hlt := hle rfl ht
      have heq : n + 1 = t.length := by omega
      show some ((t ++ r).drop (n + 1)) = some r
      rw [heq, List.drop_left]

end OpenU60.Euicc.Es9p
