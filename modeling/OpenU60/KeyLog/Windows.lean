/-
  OpenU60.KeyLog.Windows — what the windows of a backward scan ask for (`zte-agent/src/key_log.rs`: `scan_back`).

  Below any point that a window can begin at there are whole lines and the start of one (`Left`): the line that is still being
  written, or one that windows above have cut.
  - `blocks_asks`: what is asked for below such a point is whole lines exactly if no line is cut (`Cuts`), and short lines
    are all asked for.
-/

import OpenU60.KeyLog.Scan

namespace OpenU60.KeyLog

open OpenU60.Lib.ByteLines

variable {rest w f : List UInt8} {chunk n : Nat} {newestWindow : Bool}

/-! ## Lines and blocks -/

/-- A block is whole lines of the file. -/
structure Whole (rest : List UInt8) (b : Nat × Nat) : Prop where
  lt : b.1 < b.2
  le : b.2 ≤ rest.length
  starts : Ended (rest.take b.1)
  stops : Ended (rest.take b.2)

/-- A line longer than a window whose head is asked for: it is no whole number of windows long, or begins at the floor. -/
def Cuts (chunk : Nat) (w : List UInt8) : Prop :=
  (∃ l ∈ complete w, chunk < l.length + 1 ∧ ¬ chunk ∣ l.length + 1) ∨ ∃ l ∈ (complete w).head?, chunk < l.length + 1

/-- Every line is shorter than a window. -/
def Short (chunk : Nat) (w : List UInt8) : Prop := ∀ l ∈ complete w, l.length + 1 < chunk

theorem not_cuts (h : w.length ≤ chunk) : ¬ Cuts chunk w := by
  have hle : ∀ l ∈ complete w, ¬ chunk < l.length + 1 := by
    intro l hl
    have hlen := mem_complete_length hl
    omega
  rintro (⟨l, hl, hlong, -⟩ | ⟨l, hl, hlong⟩)
  · exact hle l hl hlong
  · exact hle l (List.mem_of_head? hl) hlong

variable {v : List UInt8}

/-- Lines that fit into a window, after others. -/
theorem cuts_append (hw : Ended w) (hne : w ≠ []) (hv : v.length ≤ chunk) : Cuts chunk (w ++ v) ↔ Cuts chunk w := by
  have hle : ∀ l ∈ complete v, ¬ chunk < l.length + 1 := by
    intro l hl
    have hlen := mem_complete_length hl
    omega
  have hhead : (complete (w ++ v)).head? = (complete w).head? := by
    rw [complete_append hw]
    cases hcomplete : complete w with
    | nil => exact absurd hcomplete (complete_ne_nil hw hne)
    | cons l ls => rfl
  unfold Cuts
  rw [hhead, complete_append hw]
  refine or_congr_left ?_
  constructor
  · rintro ⟨l, hl, hlong, hdvd⟩
    rcases List.mem_append.mp hl with hl | hl
    · exact ⟨l, hl, hlong, hdvd⟩
    · exact absurd hlong (hle l hl)
  · rintro ⟨l, hl, hlong, hdvd⟩
    exact ⟨l, List.mem_append_left _ hl, hlong, hdvd⟩

/-- A line longer than a window, after others. -/
theorem cuts_long (hw : Ended w) (hne : w ≠ []) {l : List UInt8} (hl : feed ∉ l) (hlong : chunk < l.length + 1) :
    Cuts chunk (w ++ (l ++ [feed])) ↔ Cuts chunk w ∨ ¬ chunk ∣ l.length + 1 := by
  have hhead : (complete (w ++ (l ++ [feed]))).head? = (complete w).head? := by
    rw [complete_line hw hl]
    cases hcomplete : complete w with
    | nil => exact absurd hcomplete (complete_ne_nil hw hne)
    | cons l ls => rfl
  unfold Cuts
  rw [hhead, complete_line hw hl]
  constructor
  · rintro (⟨k, hk, hk', hdvd⟩ | hk)
    · rcases List.mem_append.mp hk with hk | hk
      · exact .inl (.inl ⟨k, hk, hk', hdvd⟩)
      · exact .inr (List.mem_singleton.mp hk ▸ hdvd)
    · exact .inl (.inr hk)
  · rintro ((⟨k, hk, hk', hdvd⟩ | hk) | hdvd)
    · exact .inl ⟨k, List.mem_append_left _ hk, hk', hdvd⟩
    · exact .inr hk
    · exact .inl ⟨l, List.mem_append_right _ (List.mem_singleton.mpr rfl), hlong, hdvd⟩

/-- What is asked below a point: whole lines unless one is cut, or the point is inside one that is not cut off in whole
windows. -/
structure Asks (rest : List UInt8) (chunk : Nat) (newestWindow : Bool) (w f : List UInt8) (bs : List (Nat × Nat)) : Prop where
  whole : (∀ b ∈ bs, Whole rest b) ↔ ¬ Cuts chunk w ∧ (newestWindow = true ∨ f = [] ∨ chunk ∣ f.length ∧ w ≠ [])
  finds : newestWindow = true ∨ f = [] → Short chunk w → ∀ {α : Type} (g : List UInt8 → Option α),
    (bs.findSome? fun b => lastMatch g ((rest.take b.2).drop b.1)) = lastMatch g w

/-! ## One window -/

variable {fuel : Nat}

/-- The rest of the scan after a window. -/
theorem blocks_step (hn : n ≠ 0) {m start stop : Nat} {buf : List UInt8} (hm : m = n - chunk) (hbuf : buf = (rest.take n).drop m)
    (hstart : start = startOf (m = 0) buf) (hstop : stop = stopOf newestWindow buf) {more : List (Nat × Nat)} {whole : Option Nat}
    (h : blocks rest chunk fuel (nextOf m start buf) (newestWindow && (rposition buf).isNone) = some (more, whole)) :
    blocks rest chunk (fuel + 1) n newestWindow = some (if start < stop then (m + start, m + stop) :: more else more,
      if newestWindow then ((rposition buf).map (m + · + 1)).or whole else whole) := by
  subst hm hbuf hstart hstop
  conv_lhs => unfold blocks
  rw [if_neg hn]
  dsimp only
  rw [h]
  rfl

theorem blocks_zero (rest : List UInt8) (chunk fuel : Nat) (newestWindow : Bool) : blocks rest chunk (fuel + 1) 0 newestWindow = some ([], none) := rfl

/-- What has not been scanned: whole lines, and the start of one that is still being written or has been cut. -/
structure Left (rest : List UInt8) (n : Nat) (w f : List UInt8) : Prop where
  eq : rest.take n = w ++ f
  length : w.length + f.length = n
  ended : Ended w
  tail : feed ∉ f

namespace Left

theorem le (h : Left rest n w f) : n ≤ rest.length := by
  have hlen := congrArg List.length h.eq
  rw [List.length_take, List.length_append, h.length] at hlen
  omega

theorem take (h : Left rest n w f) {k : Nat} (hk : k ≤ n) : rest.take k = (w ++ f).take k := by
  rw [← h.eq, List.take_take, Nat.min_eq_left hk]

theorem take_whole (h : Left rest n w f) : rest.take w.length = w := by
  rw [h.take (by have := h.length; omega)]
  exact List.take_left' rfl

end Left

theorem findSome?_cons_or {α β : Type} (k : β → Option α) (b : β) (bs : List β) : (b :: bs).findSome? k = (k b).or (bs.findSome? k) := by
  rw [List.findSome?_cons]
  cases k b <;> rfl

/-- A block of whole lines, and below it what has been left of them. -/
theorem Asks.block {start stop : Nat} {more : List (Nat × Nat)} {newestWindow : Bool} (hmore : Asks rest chunk false w [] more)
    (hw : Ended w) (hblock : Whole rest (start, stop)) (hpiece : (rest.take stop).drop start = v)
    (hcuts : Cuts chunk (w ++ v) ↔ Cuts chunk w) (hf : newestWindow = true ∨ f = []) :
    Asks rest chunk newestWindow (w ++ v) f ((start, stop) :: more) := by
  refine ⟨?_, ?_⟩
  · rw [List.forall_mem_cons, hmore.whole, hcuts]
    constructor
    · exact fun h => ⟨h.2.1, hf.imp_right .inl⟩
    · exact fun h => ⟨hblock, h.1, .inr (.inl rfl)⟩
  · intro _ hshort α g
    have hbelow : Short chunk w := fun l hl => hshort l (by rw [complete_append hw]; exact List.mem_append_left _ hl)
    rw [findSome?_cons_or, hmore.finds (.inr rfl) hbelow, lastMatch_append g hw, hpiece]

/-- A block that ends inside a line. -/
theorem Asks.fragment {start stop : Nat} {more : List (Nat × Nat)} (hf : f ≠ []) (hblock : ¬ Whole rest (start, stop))
    (hdvd : ¬ (chunk ∣ f.length ∧ w ≠ [])) : Asks rest chunk false w f ((start, stop) :: more) := by
  refine ⟨iff_of_false ?_ ?_, ?_⟩
  · exact fun hall => hblock (hall _ List.mem_cons_self)
  · rintro ⟨-, hnew | hnil | hcut⟩
    · cases hnew
    · exact hf hnil
    · exact hdvd hcut
  · rintro (hnew | hnil)
    · cases hnew
    · exact absurd hnil hf

theorem asks_nil (rest : List UInt8) (chunk : Nat) (newestWindow : Bool) : Asks rest chunk newestWindow [] [] [] :=
  ⟨iff_of_true nofun ⟨not_cuts (Nat.zero_le _), .inr (.inl rfl)⟩, fun _ _ _ _ => rfl⟩

variable {stop : Nat}

/-- Everything is in one window. -/
theorem asks_last (h : Left rest n w f) (hpos : n ≠ 0) (hle : n ≤ chunk) (hstop : stop = if newestWindow then w.length else n) :
    Asks rest chunk newestWindow w f (if 0 < stop then [(0, stop)] else []) := by
  have hlen := h.length
  have hrest := h.le
  have hcuts : ¬ Cuts chunk w := not_cuts (by omega)
  have hiff : Cuts chunk ([] ++ w) ↔ Cuts chunk [] := iff_of_false hcuts (not_cuts (Nat.zero_le _))
  -- the whole lines are the block
  have hblock : ∀ newestWindow, newestWindow = true ∨ f = [] → w ≠ [] → Asks rest chunk newestWindow w f [(0, w.length)] := by
    intro newestWindow hf hw
    have hpos : 0 < w.length := List.length_pos_iff.mpr hw
    refine (asks_nil rest chunk false).block (.inl rfl) ⟨hpos, by omega, .inl rfl, ?_⟩ h.take_whole hiff hf
    rw [h.take_whole]
    exact h.ended
  cases newestWindow with
  | true =>
    rw [if_pos rfl] at hstop
    by_cases hw : w = []
    · subst hw hstop
      exact ⟨iff_of_true nofun ⟨hcuts, .inl rfl⟩, fun _ _ _ _ => rfl⟩
    · rw [if_pos (by rw [hstop]; exact List.length_pos_iff.mpr hw), hstop]
      exact hblock true (.inl rfl) hw
  | false =>
    rw [if_neg nofun] at hstop
    rw [if_pos (by omega)]
    by_cases hf : f = []
    · subst hf
      have hw : w ≠ [] := by
        rintro rfl
        exact hpos hlen.symm
      rw [hstop, ← hlen, List.length_nil, Nat.add_zero]
      exact hblock false (.inr rfl) hw
    · refine Asks.fragment hf ?_ ?_
      · intro hwhole
        have hends := hwhole.stops
        rw [hstop, h.eq] at hends
        exact not_ended_append h.tail hf hends
      · rintro ⟨hdvd, hw⟩
        have hposf := List.length_pos_iff.mpr hf
        have hposw := List.length_pos_iff.mpr hw
        have hle := Nat.le_of_dvd hposf hdvd
        omega

variable {m : Nat}

/-- Dropping before the last line feed leaves it. -/
theorem drop_append_ended (hw : Ended w) (hm : m < w.length) (f : List UInt8) : feed ∈ (w ++ f).drop m := by
  rw [List.drop_append_of_le_length (by omega)]
  refine List.mem_append_left _ ((hw.drop m).mem ?_)
  intro hnil
  have hlen := congrArg List.length hnil
  rw [List.length_drop, List.length_nil] at hlen
  omega

/-- A window inside a line. -/
theorem Left.inside (h : Left rest n w f) (hm : m ≤ n) (hnone : feed ∉ (rest.take n).drop m) :
    ∃ f', Left rest m w f' ∧ f.length = f'.length + (n - m) := by
  rw [h.eq] at hnone
  have hlen := h.length
  have hle : w.length ≤ m := by
    by_contra hlt
    exact hnone (drop_append_ended h.ended (by omega) f)
  refine ⟨f.take (m - w.length), ⟨?_, ?_, h.ended, fun hmem => h.tail (List.mem_of_mem_take hmem)⟩, ?_⟩
  · rw [h.take hm, List.take_append, List.take_of_length_le hle]
  · rw [List.length_take]
    omega
  · rw [List.length_take]
    omega

theorem Asks.inside {f' : List UInt8} {bs : List (Nat × Nat)} (h : Asks rest chunk newestWindow w f' bs) (hchunk : 0 < chunk)
    (hlen : f.length = f'.length + chunk) (hlong : chunk < w.length + f.length) : Asks rest chunk newestWindow w f bs := by
  have hf : f ≠ [] := by
    rintro rfl
    rw [List.length_nil] at hlen
    omega
  refine ⟨h.whole.trans (and_congr_right fun _ => ?_), ?_⟩
  · refine or_congr_right ?_
    constructor
    · rintro (rfl | ⟨hdvd, hw⟩)
      · refine .inr ⟨⟨1, by simpa using hlen⟩, ?_⟩
        · rintro rfl
          rw [List.length_nil] at hlen hlong
          omega
      · exact .inr ⟨by rw [hlen]; exact Nat.dvd_add hdvd (Nat.dvd_refl chunk), hw⟩
    · rintro (hnil | ⟨hdvd, hw⟩)
      · exact absurd hnil hf
      · exact .inr ⟨(Nat.dvd_add_left (Nat.dvd_refl chunk)).mp (hlen ▸ hdvd), hw⟩
  · rintro (hnew | hnil) hshort
    · exact h.finds (.inl hnew) hshort
    · exact absurd hnil hf

variable {a : List UInt8}

/-- A window that begins inside a line and ends with it. -/
theorem Left.cut (h : Left rest n w f) (hm : m ≤ n) (hbuf : (rest.take n).drop m = a ++ [feed]) :
    ∃ w' f', Left rest m w' f' ∧ w = w' ++ ((f' ++ a) ++ [feed]) ∧ f = [] ∧ n = m + (a.length + 1) := by
  have hlen := h.length
  obtain ⟨w', f', htake, hw', hf'⟩ := ended_split (rest.take m)
  have hall : w ++ f = w' ++ ((f' ++ a) ++ [feed]) := by
    rw [← h.eq, ← List.take_append_drop m (rest.take n), hbuf, List.take_take, Nat.min_eq_left hm, htake]
    simp
  have hnil : f = [] := by
    by_contra hne
    refine not_ended_append (w := w) h.tail hne ?_
    rw [hall, ← List.append_assoc]
    exact .inr ⟨_, rfl⟩
  subst hnil
  rw [List.append_nil] at hall
  have hlength := congrArg List.length hbuf
  rw [List.length_drop, h.eq, List.length_append, h.length, List.length_append, List.length_singleton] at hlength
  refine ⟨w', f', ⟨htake, ?_, hw', hf'⟩, hall, rfl, by omega⟩
  have hlength' := congrArg List.length htake
  rw [List.length_take, Nat.min_eq_left (by have := h.le; omega), List.length_append] at hlength'
  exact hlength'.symm

theorem Asks.cut {w' f' a : List UInt8} {bs : List (Nat × Nat)} (h : Asks rest chunk false w' f' bs) (hw' : Ended w') (hf' : feed ∉ f')
    (ha : feed ∉ a) (hchunk : chunk = a.length + 1) (hpos : w' ≠ [] ∨ f' ≠ []) :
    Asks rest chunk newestWindow (w' ++ ((f' ++ a) ++ [feed])) [] bs := by
  have hline : feed ∉ f' ++ a := by
    rw [List.mem_append, not_or]
    exact ⟨hf', ha⟩
  have hcomplete := complete_line hw' hline
  have hlen : (f' ++ a).length + 1 = f'.length + chunk := by
    rw [List.length_append, hchunk]
    omega
  have hdvd : chunk ∣ (f' ++ a).length + 1 ↔ chunk ∣ f'.length := by
    rw [hlen]
    exact Nat.dvd_add_left (Nat.dvd_refl chunk)
  refine ⟨h.whole.trans ?_, ?_⟩
  · by_cases hnil : f' = []
    · subst hnil
      have hne := hpos.resolve_right fun hne => hne rfl
      rw [cuts_append hw' hne (by simp [hchunk])]
      exact and_congr_right fun _ => iff_of_true (.inr (.inl rfl)) (.inr (.inl rfl))
    · have hlong : chunk < (f' ++ a).length + 1 := by
        have hposf := List.length_pos_iff.mpr hnil
        omega
      by_cases hw : w' = []
      · subst hw
        refine iff_of_false ?_ ?_
        · rintro ⟨-, hnew | hnil' | ⟨-, hne⟩⟩
          · cases hnew
          · exact hnil hnil'
          · exact hne rfl
        · rintro ⟨hcuts, -⟩
          exact hcuts (.inr ⟨_, by rw [hcomplete]; rfl, hlong⟩)
      · rw [cuts_long hw' hw hline hlong, hdvd, not_or, not_not]
        constructor
        · rintro ⟨hcuts, hnew | hnil' | ⟨hcut, -⟩⟩
          · cases hnew
          · exact absurd hnil' hnil
          · exact ⟨⟨hcuts, hcut⟩, .inr (.inl rfl)⟩
        · rintro ⟨⟨hcuts, hcut⟩, -⟩
          exact ⟨hcuts, .inr (.inr ⟨hcut, hw⟩)⟩
  · intro _ hshort
    have hlt := hshort (f' ++ a) (by rw [hcomplete]; exact List.mem_append_right _ (List.mem_singleton.mpr rfl))
    omega

/-- A window with the end of a line and more. -/
theorem Left.above (h : Left rest n w f) (hm : m ≤ n) (hbuf : (rest.take n).drop m = a ++ feed :: v) :
    ∃ w' t, Left rest (m + a.length + 1) w' [] ∧ w' ≠ [] ∧ w = w' ++ t ∧ v = t ++ f := by
  have hrest := h.le
  have hall : w ++ f = (rest.take m ++ a ++ [feed]) ++ v := by
    rw [← h.eq, ← List.take_append_drop m (rest.take n), hbuf, List.take_take, Nat.min_eq_left hm]
    simp
  have hlen : (rest.take m ++ a ++ [feed]).length = m + a.length + 1 := by
    simp
    omega
  obtain ⟨t, hw, hv⟩ : ∃ t, w = (rest.take m ++ a ++ [feed]) ++ t ∧ v = t ++ f := by
    rcases List.append_eq_append_iff.mp hall with ⟨t, hx, hf⟩ | ⟨t, hw, hv⟩
    · by_cases ht : t = []
      · subst ht
        rw [List.append_nil] at hx
        exact ⟨[], by rw [List.append_nil]; exact hx.symm, by simpa using hf.symm⟩
      · exfalso
        have hlast := congrArg List.getLast? hx
        rw [List.getLast?_concat, List.getLast?_append_of_ne_nil _ ht] at hlast
        exact h.tail (hf ▸ List.mem_append_left v (List.mem_of_getLast? hlast.symm))
    · exact ⟨t, hw, hv⟩
  refine ⟨_, t, ⟨?_, ?_, .inr ⟨_, rfl⟩, nofun⟩, by simp, hw, hv⟩
  · have hle : m + a.length + 1 ≤ n := by
      have hlength := h.length
      rw [hw, List.length_append, hlen] at hlength
      omega
    rw [h.take hle, hall, List.append_nil, ← hlen]
    exact List.take_left' rfl
  · rw [hlen]
    rfl

/-! ## The scan -/

theorem rposition_drop (hw : Ended w) (hm : m < w.length) (hf : feed ∉ f) :
    rposition ((w ++ f).drop m) = some (w.length - m - 1) := by
  have hne : w.drop m ≠ [] := by
    intro hnil
    have hlen := congrArg List.length hnil
    rw [List.length_drop, List.length_nil] at hlen
    omega
  rw [List.drop_append_of_le_length (by omega), rposition_ended (hw.drop m) hne hf, List.length_drop]

/-- How many bytes are whole lines, if a scan still has to find that. -/
def wholeOf (newestWindow : Bool) (w : List UInt8) : Option Nat := if newestWindow ∧ w ≠ [] then some w.length else none

/-- Where the lines of a window end that holds the end of the last one, or everything. -/
theorem window_ends (h : Left rest n w f) (hm : m < w.length ∨ w = [] ∧ m = 0) (newestWindow : Bool) :
    m + stopOf newestWindow ((w ++ f).drop m) = (if newestWindow then w.length else n) ∧
      (if newestWindow then (rposition ((w ++ f).drop m)).map (m + · + 1) else none) = wholeOf newestWindow w := by
  have hlen := h.length
  have hle : m ≤ n := by
    rcases hm with hm | ⟨-, hm⟩ <;> omega
  cases newestWindow with
  | false =>
    refine ⟨?_, rfl⟩
    show m + ((w ++ f).drop m).length = n
    rw [List.length_drop, List.length_append, hlen]
    omega
  | true =>
    show m + (rposition ((w ++ f).drop m)).elim 0 (· + 1) = w.length ∧ (rposition ((w ++ f).drop m)).map (m + · + 1) = wholeOf true w
    rcases hm with hm | ⟨hw, hm⟩
    · rw [rposition_drop h.ended hm h.tail, wholeOf, if_pos ⟨rfl, List.ne_nil_of_length_pos (by omega)⟩]
      refine ⟨?_, ?_⟩
      · show m + (w.length - m - 1 + 1) = w.length
        omega
      · show some (m + (w.length - m - 1) + 1) = some w.length
        congr 1
        omega
    · subst hw hm
      rw [List.nil_append, List.drop_zero, rposition_none h.tail]
      exact ⟨rfl, rfl⟩

/-- Everything that is left is in the window. -/
theorem blocks_last (h : Left rest n w f) (hn : n ≠ 0) (hle : n ≤ chunk) (fuel : Nat) (newestWindow : Bool) :
    ∃ bs, blocks rest chunk (fuel + 2) n newestWindow = some (bs, wholeOf newestWindow w) ∧ Asks rest chunk newestWindow w f bs := by
  have hm : 0 = n - chunk := by omega
  have hbuf : (w ++ f).drop 0 = (rest.take n).drop 0 := by rw [h.eq]
  obtain ⟨hstop, hwhole⟩ := window_ends h (m := 0) (by by_cases hw : w = []; exacts [.inr ⟨hw, rfl⟩, .inl (List.length_pos_iff.mpr hw)])
    newestWindow
  have hblocks := blocks_step hn hm hbuf rfl rfl
    (blocks_zero rest chunk fuel (newestWindow && (rposition ((w ++ f).drop 0)).isNone))
  rw [Option.or_none, hwhole, hstop, Nat.add_zero] at hblocks
  refine ⟨_, hblocks, ?_⟩
  rw [Nat.zero_add] at hstop
  rw [hstop]
  exact asks_last h hn hle rfl

/-- A window inside a line asks nothing, and the one below it goes on in that line. -/
theorem blocks_inside (hm : m = n - chunk) (hm0 : m ≠ 0) (hnone : feed ∉ (rest.take n).drop m) {more : List (Nat × Nat)}
    {whole : Option Nat} (h : blocks rest chunk fuel m newestWindow = some (more, whole)) (hwhole : newestWindow = false → whole = none) :
    blocks rest chunk (fuel + 1) n newestWindow = some (more, whole) := by
  obtain ⟨buf, hbuf⟩ : ∃ buf, buf = (rest.take n).drop m := ⟨_, rfl⟩
  rw [← hbuf] at hnone
  have hstart : buf.length = startOf (m = 0) buf := by
    rw [startOf, decide_eq_false hm0, position_none hnone]
    rfl
  have hnext : nextOf m buf.length buf = m := if_pos (.inr (Nat.le_refl _))
  have hnew : (newestWindow && (rposition buf).isNone) = newestWindow := by
    rw [rposition_none hnone]
    exact Bool.and_true newestWindow
  have hblocks := blocks_step (show n ≠ 0 by omega) hm hbuf hstart rfl (by rw [hnext, hnew]; exact h)
  have hle := stopOf_le newestWindow buf
  rw [hblocks, if_neg (by omega), rposition_none hnone]
  cases newestWindow with
  | true => rfl
  | false => rfl

/-- A window that begins inside a line and ends with it asks nothing: the line is asked for with those below, as far as
they hold it. -/
theorem blocks_cut (newestWindow : Bool) (hm : m = n - chunk) (hm0 : m ≠ 0) (hbuf : (rest.take n).drop m = a ++ [feed])
    (ha : feed ∉ a) {more : List (Nat × Nat)} (h : blocks rest chunk fuel m false = some (more, none)) :
    blocks rest chunk (fuel + 1) n newestWindow = some (more, if newestWindow then some (m + (a.length + 1)) else none) := by
  have hstart : a.length + 1 = startOf (m = 0) (a ++ [feed]) := by
    rw [startOf, decide_eq_false hm0, position_append ha]
    rfl
  have hlength : (a ++ [feed]).length = a.length + 1 := List.length_append
  have hlast : rposition (a ++ [feed]) = some a.length := rposition_append List.not_mem_nil a
  have hnext : nextOf m (a.length + 1) (a ++ [feed]) = m := if_pos (.inr (by omega))
  have hnew : (newestWindow && (rposition (a ++ [feed])).isNone) = false := by
    rw [hlast]
    exact Bool.and_false newestWindow
  have hblocks := blocks_step (show n ≠ 0 by omega) hm hbuf.symm hstart rfl (by rw [hnext, hnew]; exact h)
  have hle := stopOf_le newestWindow (a ++ [feed])
  rw [hblocks, if_neg (by omega), hlast]
  cases newestWindow with
  | true => rfl
  | false => rfl

/-- A window with the end of a line and more: what follows that end is asked for, and the line with those below. -/
theorem blocks_above (h : Left rest n w f) (hm : m = n - chunk) (hm0 : m ≠ 0) {a v t w' : List UInt8}
    (hbuf : (rest.take n).drop m = a ++ feed :: v) (ha : feed ∉ a) (hv : v ≠ []) (hw' : Left rest (m + a.length + 1) w' []) (hne : w' ≠ [])
    (hw : w = w' ++ t) (hvt : v = t ++ f) {more : List (Nat × Nat)}
    (hmore : blocks rest chunk fuel (m + a.length + 1) false = some (more, none)) (hasks : Asks rest chunk false w' [] more) :
    ∃ bs, blocks rest chunk (fuel + 1) n newestWindow = some (bs, wholeOf newestWindow w) ∧ Asks rest chunk newestWindow w f bs := by
  have hlen := h.length
  have hpos := List.length_pos_iff.mpr hv
  have hle := h.le
  have hlen' : w'.length = m + a.length + 1 := hw'.length
  have hlenw : w.length = w'.length + t.length := by rw [hw, List.length_append]
  have hlenv : v.length = t.length + f.length := by rw [hvt, List.length_append]
  have hlength := congrArg List.length hbuf
  rw [List.length_drop, List.length_take, List.length_append, List.length_cons] at hlength
  have hstart : a.length + 1 = startOf (m = 0) ((w ++ f).drop m) := by
    rw [← h.eq, hbuf, startOf, decide_eq_false hm0, position_append ha]
    rfl
  have hnext : nextOf m (a.length + 1) ((w ++ f).drop m) = m + a.length + 1 := by
    rw [← h.eq, hbuf]
    refine if_neg ?_
    rw [List.length_append, List.length_cons]
    omega
  have hnew : (newestWindow && (rposition ((w ++ f).drop m)).isNone) = false := by
    rw [rposition_drop h.ended (by omega) h.tail]
    exact Bool.and_false newestWindow
  obtain ⟨hstop, hwhole⟩ := window_ends h (m := m) (.inl (by omega)) newestWindow
  have hblocks := blocks_step (show n ≠ 0 by omega) hm (by rw [h.eq]) hstart rfl
    (by rw [hnext, hnew]; exact hmore)
  rw [Option.or_none, hwhole] at hblocks
  refine ⟨_, hblocks, ?_⟩
  -- the block is what the window holds of the lines after the cut one
  have hpiece : (rest.take w.length).drop (m + (a.length + 1)) = t := by
    rw [h.take_whole, hw, ← Nat.add_assoc, ← hlen']
    exact List.drop_left' rfl
  have hstarts : Ended (rest.take (m + (a.length + 1))) := by
    rw [← Nat.add_assoc, ← hlen', hw'.take_whole]
    exact hw'.ended
  have hcuts : Cuts chunk (w' ++ t) ↔ Cuts chunk w' := cuts_append hw'.ended hne (by omega)
  have hblock : ∀ newestWindow, newestWindow = true ∨ f = [] → t ≠ [] →
      Asks rest chunk newestWindow w f ((m + (a.length + 1), w.length) :: more) := by
    intro newestWindow hf ht
    have hpos := List.length_pos_iff.mpr ht
    rw [hw]
    rw [hw] at hpiece hlen
    refine hasks.block hw'.ended ⟨by simp; omega, by omega, hstarts, ?_⟩ hpiece hcuts hf
    rw [← hw, h.take_whole]
    exact h.ended
  cases newestWindow with
  | true =>
    rw [if_pos rfl] at hstop
    by_cases ht : t = []
    · subst ht
      rw [List.append_nil] at hw
      subst hw
      rw [if_neg (by omega)]
      exact ⟨hasks.whole.trans (and_congr_right fun _ => iff_of_true (.inr (.inl rfl)) (.inl rfl)), fun _ => hasks.finds (.inr rfl)⟩
    · have hpos := List.length_pos_iff.mpr ht
      rw [if_pos (by omega), hstop]
      exact hblock true (.inl rfl) ht
  | false =>
    rw [if_neg nofun] at hstop
    rw [if_pos (by omega), hstop]
    by_cases hf : f = []
    · subst hf
      rw [List.length_nil, Nat.add_zero] at hlen hlenv
      have hn : n = w.length := hlen.symm
      rw [hn]
      exact hblock false (.inr rfl) (List.length_pos_iff.mp (by omega))
    · refine Asks.fragment hf ?_ ?_
      · intro hwhole
        have hends := hwhole.stops
        rw [h.eq] at hends
        exact not_ended_append h.tail hf hends
      · intro hdvd
        have hpos := List.length_pos_iff.mpr hf
        have hle := Nat.le_of_dvd hpos hdvd.1
        omega

/-- The windows of a scan and what it asks in them. -/
theorem blocks_asks (hchunk : 0 < chunk) (hfuel : n < fuel) (h : Left rest n w f) (newestWindow : Bool) :
    ∃ bs, blocks rest chunk fuel n newestWindow = some (bs, wholeOf newestWindow w) ∧ Asks rest chunk newestWindow w f bs := by
  induction fuel generalizing n w f newestWindow with
  | zero => omega
  | succ fuel ih =>
    have hlen := h.length
    by_cases hn : n = 0
    · subst hn
      obtain rfl : w = [] := List.eq_nil_of_length_eq_zero (by omega)
      obtain rfl : f = [] := List.eq_nil_of_length_eq_zero (by omega)
      refine ⟨[], ?_, asks_nil rest chunk newestWindow⟩
      rw [blocks_zero, wholeOf, if_neg (fun hne => hne.2 rfl)]
    · by_cases hle : n ≤ chunk
      · obtain ⟨fuel, rfl⟩ := Nat.exists_eq_succ_of_ne_zero (show fuel ≠ 0 by omega)
        exact blocks_last h hn hle fuel newestWindow
      · obtain ⟨m, hm⟩ : ∃ m, m = n - chunk := ⟨_, rfl⟩
        have hm0 : m ≠ 0 := by omega
        rcases first_line ((rest.take n).drop m) with hnone | ⟨a, v, hbuf, ha⟩
        · obtain ⟨f', hleft, hf'⟩ := h.inside (by omega) hnone
          obtain ⟨more, hmore, hasks⟩ := ih (by omega) hleft newestWindow
          have hinside := blocks_inside hm hm0 hnone hmore (fun hold => by rw [hold]; rfl)
          exact ⟨more, hinside, hasks.inside hchunk (by omega) (by omega)⟩
        · by_cases hv : v = []
          · subst hv
            obtain ⟨w', f', hleft, rfl, rfl, hlength⟩ := h.cut (by omega) hbuf
            obtain ⟨more, hmore, hasks⟩ := ih (by omega) hleft false
            have hcut := blocks_cut newestWindow hm hm0 hbuf ha hmore
            refine ⟨more, ?_, hasks.cut hleft.ended hleft.tail ha (by omega) ?_⟩
            · rw [hcut, ← hlength, ← hlen, List.length_nil, Nat.add_zero]
              cases newestWindow with
              | true => rw [wholeOf, if_pos rfl, if_pos ⟨rfl, by simp⟩]
              | false => rfl
            · have hlength' := hleft.length
              by_contra hnil
              rw [not_or, not_not, not_not] at hnil
              rw [hnil.1, hnil.2] at hlength'
              exact hm0 hlength'.symm
          · obtain ⟨w', t, hleft, hne, hw, hvt⟩ := h.above (by omega) hbuf
            have hlength := congrArg List.length hbuf
            have hpos := List.length_pos_iff.mpr hv
            rw [List.length_drop, List.length_take, List.length_append, List.length_cons] at hlength
            obtain ⟨more, hmore, hasks⟩ := ih (by omega) hleft false
            exact blocks_above h hm hm0 hbuf ha hv hleft hne hw hvt hmore hasks

end OpenU60.KeyLog
