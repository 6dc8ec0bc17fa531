/-
  OpenU60.Lib.ByteLines — the lines of a byte string that is still being written, and what Rust's lossy decoding makes of
  them.

  `complete` are the lines that have their line feed, without it; `Ended` bytes are such lines and nothing after.
  - `lines_lossy`: decoding whole lines together and splitting the text is decoding them one by one, for an
    ill-formed sequence never reaches across a line feed.
  - `position_append`, `rposition_append`, `wholeLen_append`: the first and the last line feed.
-/

import OpenU60.Lib.BigEndian
import OpenU60.Lib.Text

namespace OpenU60.Lib.ByteLines

def feed : UInt8 := 0x0A

/-! ## Lossy decoding -/

def replacement : Char := Char.ofNat 0xFFFD

/-- The bits in a first byte with so many after it. -/
def lead (b : UInt8) (count : Nat) : Nat := b.toNat - if count = 1 then 0xC0 else if count = 2 then 0xE0 else 0xF0

/-- `String::from_utf8_lossy`, inside a character: its bits so far, and what its next bytes are between. A character that breaks
off is replaced, and the byte that breaks it begins the next one. -/
def lossyFrom (bits : Nat) (ranges : List (UInt8 × UInt8)) : List UInt8 → List Char
  | [] => if ranges = [] then [] else [replacement]
  | b :: bytes =>
    let begins :=
      match Text.utf8Next b with
      | none => replacement :: lossyFrom 0 [] bytes
      | some [] => Char.ofNat b.toNat :: lossyFrom 0 [] bytes
      | some more => lossyFrom (lead b more.length) more bytes
    match ranges with
    | [] => begins
    | (low, high) :: more =>
      if low ≤ b ∧ b ≤ high then
        let bits := bits * 64 + (b.toNat - 0x80)
        if more = [] then Char.ofNat bits :: lossyFrom 0 [] bytes else lossyFrom bits more bytes
      else replacement :: begins

def lossy (bytes : List UInt8) : List Char := lossyFrom 0 [] bytes

example : lossy [0x61, 0xC3, 0xA9, 0xE2, 0x82, 0x0A, 0xFF, 0x62] =
    ['a', Char.ofNat 0xE9, replacement, '\n', replacement, 'b'] := rfl

/-- The least the character can be. -/
def least (bits : Nat) : List (UInt8 × UInt8) → Nat
  | [] => bits
  | (low, _) :: more => least (bits * 64 + (low.toNat - 0x80)) more

/-- Past ASCII, and each byte to come is. -/
structure Wide (bits : Nat) (ranges : List (UInt8 × UInt8)) : Prop where
  least : 0x80 ≤ least bits ranges
  tails : ∀ r ∈ ranges, 0x80 ≤ r.1

theorem least_mono {m n : Nat} (h : m ≤ n) (ranges : List (UInt8 × UInt8)) : least m ranges ≤ least n ranges := by
  induction ranges generalizing m n with
  | nil => exact h
  | cons r ranges ih =>
    have hbits : m * 64 + (r.1.toNat - 0x80) ≤ n * 64 + (r.1.toNat - 0x80) := by omega
    have hleast := ih hbits
    unfold least
    exact hleast

/-- What a first byte announces is past ASCII. -/
def leadsWide (b : UInt8) : Bool :=
  match Text.utf8Next b with
  | some (r :: more) => Nat.ble 0x80 (least (lead b (r :: more).length) (r :: more)) && (r :: more).all fun r => Nat.ble 0x80 r.1.toNat
  | _ => true

variable {b : UInt8}

theorem wide_lead {r : UInt8 × UInt8} {more : List (UInt8 × UInt8)} (h : Text.utf8Next b = some (r :: more)) :
    Wide (lead b (r :: more).length) (r :: more) := by
  have hall : ∀ b : UInt8, leadsWide b = true := BigEndian.forall_byte (by decide +kernel)
  have hwide := hall b
  unfold leadsWide at hwide
  rw [h] at hwide
  dsimp only at hwide
  rw [Bool.and_eq_true, Nat.ble_eq, List.all_eq_true] at hwide
  refine ⟨hwide.1, fun r hr => ?_⟩
  rw [UInt8.le_iff_toNat_le]
  exact Nat.le_of_ble_eq_true (hwide.2 r hr)

/-- The next byte is one of those it is between. -/
theorem Wide.next {bits : Nat} {low high b : UInt8} {more : List (UInt8 × UInt8)} (h : Wide bits ((low, high) :: more)) (hb : low ≤ b) :
    Wide (bits * 64 + (b.toNat - 0x80)) more := by
  have hb := UInt8.le_iff_toNat_le.mp hb
  have hbits : bits * 64 + (low.toNat - 0x80) ≤ bits * 64 + (b.toNat - 0x80) := by omega
  have hleast := h.least
  unfold ByteLines.least at hleast
  exact ⟨Nat.le_trans hleast (least_mono hbits more), fun r hr => h.tails r (List.mem_cons_of_mem _ hr)⟩

theorem ofNat_ne_feed {n : Nat} (h : 0x80 ≤ n) : Char.ofNat n ≠ '\n' := by
  unfold Char.ofNat
  split
  · intro heq
    have hval : n = 10 := congrArg Char.toNat heq
    omega
  · intro heq
    cases congrArg Char.toNat heq

theorem utf8Next_ascii (h : Text.utf8Next b = some []) : Char.ofNat b.toNat = '\n' ↔ b = feed := by
  have hall : ∀ b : UInt8, Text.utf8Next b = some [] → (Char.ofNat b.toNat = '\n' ↔ b = feed) :=
    BigEndian.forall_byte (by decide +kernel)
  exact hall b h

theorem lossyFrom_in {bits : Nat} {low high b : UInt8} {more : List (UInt8 × UInt8)} {bytes : List UInt8} (h : low ≤ b ∧ b ≤ high) :
    lossyFrom bits ((low, high) :: more) (b :: bytes) =
      if more = [] then Char.ofNat (bits * 64 + (b.toNat - 0x80)) :: lossyFrom 0 [] bytes
      else lossyFrom (bits * 64 + (b.toNat - 0x80)) more bytes := by
  conv_lhs => unfold lossyFrom
  exact if_pos h

theorem lossyFrom_out {bits : Nat} {low high b : UInt8} {more : List (UInt8 × UInt8)} {bytes : List UInt8} (h : ¬ (low ≤ b ∧ b ≤ high)) :
    lossyFrom bits ((low, high) :: more) (b :: bytes) = replacement :: lossyFrom 0 [] (b :: bytes) := by
  conv_lhs => unfold lossyFrom
  exact if_neg h

/-- What a byte adds, and what is expected after it; only a line feed adds one. -/
structure Reads (bits : Nat) (ranges : List (UInt8 × UInt8)) (b : UInt8) (out : List Char) (bits' : Nat)
    (ranges' : List (UInt8 × UInt8)) : Prop where
  eq : ∀ bytes, lossyFrom bits ranges (b :: bytes) = out ++ lossyFrom bits' ranges' bytes
  wide : ranges' = [] ∨ Wide bits' ranges'
  feed : b ≠ feed → '\n' ∉ out

/-- A byte that begins a character. -/
theorem reads_begins (bits : Nat) (b : UInt8) : ∃ out bits' ranges', Reads bits [] b out bits' ranges' := by
  cases hnext : Text.utf8Next b with
  | none =>
    refine ⟨[replacement], 0, [], ?_, .inl rfl, fun _ => by decide⟩
    intro bytes
    conv_lhs => unfold lossyFrom
    simp only [hnext]
    rfl
  | some ranges =>
    cases ranges with
    | nil =>
      refine ⟨[Char.ofNat b.toNat], 0, [], ?_, .inl rfl, ?_⟩
      · intro bytes
        conv_lhs => unfold lossyFrom
        simp only [hnext]
        rfl
      · intro hb hmem
        exact hb ((utf8Next_ascii hnext).mp (List.mem_singleton.mp hmem).symm)
    | cons r more =>
      refine ⟨[], lead b (r :: more).length, r :: more, ?_, .inr (wide_lead hnext), fun _ => nofun⟩
      intro bytes
      conv_lhs => unfold lossyFrom
      simp only [hnext]
      rfl

theorem reads (b : UInt8) {bits : Nat} {ranges : List (UInt8 × UInt8)} (hwide : ranges = [] ∨ Wide bits ranges) :
    ∃ out bits' ranges', Reads bits ranges b out bits' ranges' := by
  cases ranges with
  | nil => exact reads_begins bits b
  | cons r more =>
    obtain ⟨low, high⟩ := r
    have hwide := hwide.resolve_left nofun
    by_cases hin : low ≤ b ∧ b ≤ high
    · have hnext := hwide.next hin.1
      by_cases hmore : more = []
      · refine ⟨[Char.ofNat (bits * 64 + (b.toNat - 0x80))], 0, [], ?_, .inl rfl, ?_⟩
        · intro bytes
          rw [lossyFrom_in hin, if_pos hmore]
          rfl
        · intro _ hmem
          subst hmore
          exact ofNat_ne_feed hnext.least (List.mem_singleton.mp hmem).symm
      · refine ⟨[], _, more, ?_, .inr hnext, fun _ => nofun⟩
        intro bytes
        rw [lossyFrom_in hin, if_neg hmore]
        rfl
    · obtain ⟨out, bits', ranges', hreads⟩ := reads_begins 0 b
      refine ⟨replacement :: out, bits', ranges', ?_, hreads.wide, ?_⟩
      · intro bytes
        rw [lossyFrom_out hin, hreads.eq]
        rfl
      · intro hb hmem
        rcases List.mem_cons.mp hmem with heq | hmem
        · revert heq
          decide
        · exact hreads.feed hb hmem

/-- A line feed ends whatever character it breaks. -/
theorem lossyFrom_feed {bits : Nat} {ranges : List (UInt8 × UInt8)} (hwide : ranges = [] ∨ Wide bits ranges) (bytes : List UInt8) :
    lossyFrom bits ranges (feed :: bytes) = lossyFrom bits ranges [] ++ '\n' :: lossy bytes := by
  cases ranges with
  | nil => rfl
  | cons r more =>
    obtain ⟨low, high⟩ := r
    have hlow := (hwide.resolve_left nofun).tails _ List.mem_cons_self
    have hout : ¬ (low ≤ feed ∧ feed ≤ high) := by
      intro hin
      exact absurd (UInt8.le_trans hlow hin.1) (by decide)
    rw [lossyFrom_out hout]
    rfl

theorem lossyFrom_append {bits : Nat} {ranges : List (UInt8 × UInt8)} (hwide : ranges = [] ∨ Wide bits ranges) (u v : List UInt8) :
    lossyFrom bits ranges (u ++ feed :: v) = lossyFrom bits ranges u ++ '\n' :: lossy v := by
  induction u generalizing bits ranges with
  | nil => exact lossyFrom_feed hwide v
  | cons b u ih =>
    obtain ⟨out, bits', ranges', hreads⟩ := reads b hwide
    rw [List.cons_append, hreads.eq, hreads.eq, ih hreads.wide, List.append_assoc]

variable {u : List UInt8}

theorem feed_mem_lossyFrom {bits : Nat} {ranges : List (UInt8 × UInt8)} (hwide : ranges = [] ∨ Wide bits ranges)
    (h : feed ∉ u) : '\n' ∉ lossyFrom bits ranges u := by
  induction u generalizing bits ranges with
  | nil =>
    unfold lossyFrom
    split
    · exact nofun
    · decide
  | cons b u ih =>
    rw [List.mem_cons, not_or] at h
    obtain ⟨out, bits', ranges', hreads⟩ := reads b hwide
    rw [hreads.eq, List.mem_append, not_or]
    exact ⟨hreads.feed (Ne.symm h.1), ih hreads.wide h.2⟩

theorem lossy_append (u v : List UInt8) : lossy (u ++ feed :: v) = lossy u ++ '\n' :: lossy v := lossyFrom_append (.inl rfl) u v

theorem feed_mem_lossy (h : feed ∉ u) : '\n' ∉ lossy u := feed_mem_lossyFrom (.inl rfl) h

/-! ## Lines -/

/-- The lines that have been ended, after the start of one. -/
def completeFrom (line : List UInt8) : List UInt8 → List (List UInt8)
  | [] => []
  | b :: bytes => if b = feed then line :: completeFrom [] bytes else completeFrom (line ++ [b]) bytes

def complete (bytes : List UInt8) : List (List UInt8) := completeFrom [] bytes

/-- Whole lines. -/
def Ended (bytes : List UInt8) : Prop := bytes = [] ∨ ∃ u, bytes = u ++ [feed]

/-- A line as text. -/
def decode (line : List UInt8) : List Char := Text.dropCr (lossy line)

theorem completeFrom_feed {line u : List UInt8} (h : feed ∉ u) (v : List UInt8) :
    completeFrom line (u ++ feed :: v) = (line ++ u) :: complete v := by
  induction u generalizing line with
  | nil =>
    rw [List.nil_append, List.append_nil]
    exact if_pos rfl
  | cons b u ih =>
    rw [List.mem_cons, not_or] at h
    rw [List.cons_append, completeFrom, if_neg (Ne.symm h.1), ih h.2, List.append_assoc]
    rfl

theorem complete_feed (h : feed ∉ u) (v : List UInt8) : complete (u ++ feed :: v) = u :: complete v :=
  completeFrom_feed h v

theorem completeFrom_none {line u : List UInt8} (h : feed ∉ u) : completeFrom line u = [] := by
  induction u generalizing line with
  | nil => rfl
  | cons b u ih =>
    rw [List.mem_cons, not_or] at h
    show (if b = feed then _ else _) = _
    rw [if_neg (Ne.symm h.1)]
    exact ih h.2

theorem complete_none (h : feed ∉ u) : complete u = [] := completeFrom_none h

/-- Bytes without a line feed, or a first line. -/
theorem first_line (bytes : List UInt8) : feed ∉ bytes ∨ ∃ u v, bytes = u ++ feed :: v ∧ feed ∉ u := by
  by_cases h : feed ∈ bytes
  · exact .inr (List.eq_append_cons_of_mem h)
  · exact .inl h

theorem last_line (bytes : List UInt8) : feed ∉ bytes ∨ ∃ u p, bytes = u ++ feed :: p ∧ feed ∉ p := by
  rcases first_line bytes.reverse with h | ⟨p, u, hbytes, hp⟩
  · exact .inl fun hmem => h (List.mem_reverse.mpr hmem)
  · refine .inr ⟨u.reverse, p.reverse, ?_, fun hmem => hp (List.mem_reverse.mp hmem)⟩
    rw [← List.reverse_reverse bytes, hbytes]
    simp

theorem completeFrom_append (line u v : List UInt8) :
    completeFrom line (u ++ feed :: v) = completeFrom line (u ++ [feed]) ++ complete v := by
  induction u generalizing line with
  | nil => rfl
  | cons b u ih =>
    rw [List.cons_append, List.cons_append, completeFrom, completeFrom]
    split
    · rw [ih, List.cons_append]
    · exact ih _

theorem complete_append (h : Ended u) (v : List UInt8) : complete (u ++ v) = complete u ++ complete v := by
  rcases h with rfl | ⟨u, rfl⟩
  · rfl
  · rw [List.append_assoc]
    exact completeFrom_append [] u v

/-- Whole lines and a line still being written. -/
theorem ended_split (bytes : List UInt8) : ∃ w p, bytes = w ++ p ∧ Ended w ∧ feed ∉ p := by
  rcases last_line bytes with h | ⟨u, p, rfl, hp⟩
  · exact ⟨[], bytes, rfl, .inl rfl, h⟩
  · exact ⟨u ++ [feed], p, by simp, .inr ⟨u, rfl⟩, hp⟩

theorem Ended.tail {u v : List UInt8} (h : Ended (u ++ feed :: v)) : Ended v := by
  obtain ⟨w, hw⟩ := h.resolve_left (by simp)
  rcases List.eq_nil_or_concat v with hv | ⟨t, b, hv⟩
  · exact .inl hv
  · rw [List.concat_eq_append] at hv
    rw [hv] at hw
    have hends : (u ++ feed :: t) ++ [b] = w ++ [feed] := by simpa using hw
    rw [hv, (List.append_inj' hends rfl).2]
    exact .inr ⟨t, rfl⟩

variable {w f : List UInt8}

theorem Ended.drop (h : Ended w) (m : Nat) : Ended (w.drop m) := by
  rcases h with rfl | ⟨u, rfl⟩
  · exact .inl (List.drop_nil)
  · by_cases hm : m ≤ u.length
    · exact .inr ⟨u.drop m, List.drop_append_of_le_length hm⟩
    · exact .inl (List.drop_of_length_le (by simp; omega))

theorem Ended.mem (h : Ended w) (hw : w ≠ []) : feed ∈ w := by
  obtain ⟨u, rfl⟩ := h.resolve_left hw
  exact List.mem_append_right u (List.mem_singleton.mpr rfl)

theorem Ended.append {v : List UInt8} (h : Ended w) (hv : Ended v) : Ended (w ++ v) := by
  rcases hv with rfl | ⟨u, rfl⟩
  · rw [List.append_nil]
    exact h
  · exact .inr ⟨w ++ u, (List.append_assoc _ _ _).symm⟩

/-- Bytes after the last line feed end no line. -/
theorem not_ended_append (hf : feed ∉ f) (hne : f ≠ []) : ¬ Ended (w ++ f) := by
  rintro (h | ⟨u, h⟩)
  · exact hne (List.append_eq_nil_iff.mp h).2
  · have hlast := congrArg List.getLast? h
    rw [List.getLast?_append_of_ne_nil _ hne, List.getLast?_concat] at hlast
    exact hf (List.mem_of_getLast? hlast)

theorem mem_completeFrom_length {line u l : List UInt8} (h : l ∈ completeFrom line u) : l.length + 1 ≤ line.length + u.length := by
  induction u generalizing line with
  | nil => cases h
  | cons b u ih =>
    rw [completeFrom] at h
    split at h
    · rcases List.mem_cons.mp h with rfl | h
      · simp
      · have hle := ih h
        simp at hle ⊢
        omega
    · have hle := ih h
      simp at hle ⊢
      omega

theorem mem_complete_length {u l : List UInt8} (h : l ∈ complete u) : l.length + 1 ≤ u.length := by
  simpa using mem_completeFrom_length h

theorem complete_ne_nil (h : Ended w) (hw : w ≠ []) : complete w ≠ [] := by
  obtain ⟨u, rfl⟩ := h.resolve_left hw
  rcases first_line (u ++ [feed]) with hnone | ⟨a, v, heq, ha⟩
  · exact absurd (List.mem_append_right u (List.mem_singleton.mpr rfl)) hnone
  · rw [heq, complete_feed ha]
    exact List.cons_ne_nil _ _

theorem complete_line (h : Ended w) {l : List UInt8} (hl : feed ∉ l) : complete (w ++ (l ++ [feed])) = complete w ++ [l] := by
  rw [complete_append h, complete_feed hl]
  rfl

/-- The last line that matches. -/
def lastMatch {α : Type} (g : List UInt8 → Option α) (w : List UInt8) : Option α := (complete w).reverse.findSome? g

theorem lastMatch_append {α : Type} (g : List UInt8 → Option α) (hw : Ended w) (v : List UInt8) :
    lastMatch g (w ++ v) = (lastMatch g v).or (lastMatch g w) := by
  unfold lastMatch
  rw [complete_append hw, List.reverse_append, List.findSome?_append]

/-- Decoded together or one by one. -/
theorem lines_lossy (h : Ended u) : Text.lines (lossy u) = (complete u).map decode := by
  induction hn : u.length using Nat.strongRecOn generalizing u with
  | ind n ih =>
    rcases first_line u with hnone | ⟨a, v, rfl, ha⟩
    · rcases h with rfl | ⟨u, rfl⟩
      · rfl
      · exact absurd (List.mem_append_right u (List.mem_singleton.mpr rfl)) hnone
    · rw [lossy_append, complete_feed ha, List.map_cons, ← ih v.length (by simp at hn; omega) h.tail rfl]
      exact Text.linesFrom_append (feed_mem_lossy ha) _

/-! ## The first and the last line feed -/

/-- `iter().position(|&b| b == b'\n')`. -/
def position (bytes : List UInt8) : Option Nat := bytes.findIdx? (· == feed)

/-- `iter().rposition(|&b| b == b'\n')`. -/
def rposition (bytes : List UInt8) : Option Nat := (position bytes.reverse).map fun i => bytes.length - 1 - i

theorem position_none (h : feed ∉ u) : position u = none := by
  unfold position
  rw [List.findIdx?_eq_none_iff]
  intro b hb
  have hne : b ≠ feed := fun heq => h (heq ▸ hb)
  simpa using hne

theorem position_append (h : feed ∉ u) (v : List UInt8) : position (u ++ feed :: v) = some u.length := by
  have hnone := position_none h
  unfold position at hnone ⊢
  rw [List.findIdx?_append, hnone, List.findIdx?_cons]
  simp

theorem rposition_none (h : feed ∉ u) : rposition u = none := by
  unfold rposition
  rw [position_none fun hmem => h (List.mem_reverse.mp hmem)]
  rfl

theorem rposition_append {p : List UInt8} (h : feed ∉ p) (u : List UInt8) : rposition (u ++ feed :: p) = some u.length := by
  unfold rposition
  have hrev : (u ++ feed :: p).reverse = p.reverse ++ feed :: u.reverse := by simp
  rw [hrev, position_append fun hmem => h (List.mem_reverse.mp hmem)]
  simp

theorem rposition_ended (h : Ended w) (hw : w ≠ []) (hf : feed ∉ f) : rposition (w ++ f) = some (w.length - 1) := by
  obtain ⟨u, rfl⟩ := h.resolve_left hw
  rw [List.append_assoc]
  simpa using rposition_append hf u

/-- How far whole lines reach. -/
def wholeLen (bytes : List UInt8) : Nat := (rposition bytes).elim 0 (· + 1)

theorem wholeLen_append (hw : Ended w) (hf : feed ∉ f) : wholeLen (w ++ f) = w.length := by
  unfold wholeLen
  by_cases hnil : w = []
  · subst hnil
    rw [List.nil_append, rposition_none hf]
    rfl
  · have hpos := List.length_pos_iff.mpr hnil
    rw [rposition_ended hw hnil hf]
    exact Nat.sub_add_cancel hpos

theorem wholeLen_whole (hw : Ended w) (u : List UInt8) : wholeLen (w ++ u) = w.length + wholeLen u := by
  obtain ⟨v, p, rfl, hv, hp⟩ := ended_split u
  rw [wholeLen_append hv hp, ← List.append_assoc, wholeLen_append (hw.append hv) hp, List.length_append]

/-- What has been ended stays so. -/
theorem complete_prefix (u v : List UInt8) : complete u <+: complete (u ++ v) := by
  obtain ⟨w, p, rfl, hw, hp⟩ := ended_split u
  rw [complete_append hw, complete_none hp, List.append_nil, List.append_assoc, complete_append hw]
  exact List.prefix_append _ _

end OpenU60.Lib.ByteLines
