/-
  OpenU60.StandbyGuard.Follow — the follower of the Wi-Fi test log (`zte-agent/src/standby_guard.rs`: `LineCursor`,
  `complete_lines`).

  A history appends to the file, puts another one in its place and reads. Beside the cursor's inode and offset stands what it
  is for: the bytes written since it was made that no call has read past (`news`).

  - `read_new_follows`: each call returns the lines that are complete and within the newest bytes, unless those begin with
    a line; and with no more unread than that, every line that was complete when its file was last read, once and in order.
  - `unread_line_lost`: what is unread in a file when it is replaced, and a line begun before a full read's worth, are not
    returned.
-/

import OpenU60.KeyLog.Scan

namespace OpenU60.StandbyGuard.Follow

open OpenU60.Lib
open OpenU60.Lib.ByteLines
open OpenU60.KeyLog (readRange)

def maxFollow : Nat := 16 * 1024

structure File where
  ino : Nat
  bytes : List UInt8

structure LineCursor where
  ino : Option Nat
  offset : Nat

/-- The complete lines of `buf` and the bytes they span; with `cut`, `buf` starts inside a line, which is dropped. -/
def completeLines (buf : List UInt8) (cut : Bool) : List (List Char) × Nat :=
  match rposition buf with
  | none => ([], 0)
  | some last =>
    let start := if cut then (position buf).elim 0 (· + 1) else 0
    (Text.lines (lossy ((buf.take (last + 1)).drop (min start (last + 1)))), last + 1)

namespace LineCursor

def atEnd : Option File → LineCursor
  | some file => { ino := some file.ino, offset := file.bytes.length }
  | none => { ino := none, offset := 0 }

def history (c : LineCursor) : Option File → List (List Char)
  | none => []
  | some file =>
    if some file.ino ≠ c.ino then []
    else
      let start := c.offset - maxFollow
      (completeLines (readRange file.bytes start c.offset) (0 < start)).1

def readNew (c : LineCursor) : Option File → List (List Char) × LineCursor
  | none => ([], c)
  | some file =>
    let c := if c.ino ≠ some file.ino ∨ file.bytes.length < c.offset then { ino := some file.ino, offset := 0 } else c
    let stop := file.bytes.length
    let start := max c.offset (stop - maxFollow)
    let (lines, consumed) := completeLines (readRange file.bytes start stop) (c.offset < start)
    (lines, { c with offset := start + consumed })

end LineCursor

/-! ## Complete lines -/

theorem completeLines_whole {w f : List UInt8} (hw : Ended w) (hf : feed ∉ f) :
    completeLines (w ++ f) false = ((complete w).map decode, w.length) := by
  unfold completeLines
  by_cases hnil : w = []
  · subst hnil
    rw [List.nil_append, rposition_none hf]
    rfl
  · have hpos := List.length_pos_iff.mpr hnil
    rw [rposition_ended hw hnil hf]
    dsimp only
    rw [Nat.sub_add_cancel hpos, if_neg nofun, Nat.zero_min, List.drop_zero, List.take_left' rfl, lines_lossy hw]

theorem completeLines_cut {a w f : List UInt8} (ha : feed ∉ a) (hw : Ended w) (hf : feed ∉ f) :
    completeLines (a ++ feed :: (w ++ f)) true = ((complete w).map decode, a.length + 1 + w.length) := by
  have hends : Ended ((a ++ [feed]) ++ w) := Ended.append (.inr ⟨a, rfl⟩) hw
  have hbuf : a ++ feed :: (w ++ f) = ((a ++ [feed]) ++ w) ++ f := by simp
  have hlen : ((a ++ [feed]) ++ w).length = a.length + 1 + w.length := by
    rw [List.length_append, List.length_append, List.length_singleton]
  unfold completeLines
  rw [position_append ha, hbuf, rposition_ended hends (by simp) hf, hlen]
  dsimp only
  rw [if_pos rfl, Nat.sub_add_cancel (by omega), List.take_left' hlen]
  show (Text.lines (lossy (((a ++ [feed]) ++ w).drop (min (a.length + 1) _))), _) = _
  rw [Nat.min_eq_left (by omega), List.drop_left' (by simp), lines_lossy hw]

/-! ## What is new -/

/-- Lines and where each begins. -/
def placed : Nat → List (List UInt8) → List (Nat × List UInt8)
  | _, [] => []
  | start, line :: lines => (start, line) :: placed (start + (line.length + 1)) lines

/-- The complete lines that begin at a point or later. -/
def since (start : Nat) (u : List UInt8) : List (List UInt8) :=
  ((placed 0 (complete u)).filter fun p => start ≤ p.1).map (·.2)

/-- The complete lines wholly within the newest bytes. -/
def within (u : List UInt8) : List (List UInt8) := since (u.length - maxFollow) u

/-- The line still being written. -/
def unfinished (u : List UInt8) : List UInt8 := u.drop (wholeLen u)

theorem unfinished_append {w f : List UInt8} (hw : Ended w) (hf : feed ∉ f) : unfinished (w ++ f) = f := by
  unfold unfinished
  rw [wholeLen_append hw hf, List.drop_left]

theorem within_nil : within [] = [] := List.map_eq_nil_iff.mpr List.filter_nil

theorem since_zero (u : List UInt8) : since 0 u = complete u := by
  have hall : ∀ lines start, ((placed start lines).filter fun p => 0 ≤ p.1).map (·.2) = lines := by
    intro lines
    induction lines with
    | nil => exact fun _ => rfl
    | cons line lines ih =>
      intro start
      unfold placed
      rw [List.filter_cons_of_pos (by simp), List.map_cons, ih]
  exact hall (complete u) 0

theorem placed_le {start : Nat} {lines : List (List UInt8)} {p : Nat × List UInt8} (h : p ∈ placed start lines) : start ≤ p.1 := by
  induction lines generalizing start with
  | nil => cases h
  | cons line lines ih =>
    rcases List.mem_cons.mp h with rfl | h
    · exact Nat.le_refl _
    · have hle := ih h
      omega

/-- The bytes of lines, with their line feeds. -/
def total (lines : List (List UInt8)) : Nat := (lines.map fun line => line.length + 1).sum

theorem total_cons (line : List UInt8) (lines : List (List UInt8)) : total (line :: lines) = line.length + 1 + total lines := List.sum_cons

theorem total_append (lines more : List (List UInt8)) : total (lines ++ more) = total lines + total more := by
  unfold total
  rw [List.map_append, List.sum_append]

theorem placed_append (start : Nat) (lines more : List (List UInt8)) :
    placed start (lines ++ more) = placed start lines ++ placed (start + total lines) more := by
  induction lines generalizing start with
  | nil => rfl
  | cons line lines ih =>
    rw [List.cons_append, placed, placed, ih, List.cons_append, total_cons, Nat.add_assoc]

theorem placed_lt {start : Nat} {lines : List (List UInt8)} {p : Nat × List UInt8} (h : p ∈ placed start lines) : p.1 < start + total lines := by
  induction lines generalizing start with
  | nil => cases h
  | cons line lines ih =>
    rw [total_cons]
    rcases List.mem_cons.mp h with rfl | h
    · show start < _
      omega
    · have hlt := ih h
      omega

theorem total_complete {w : List UInt8} (hw : Ended w) : total (complete w) = w.length := by
  induction hn : w.length using Nat.strongRecOn generalizing w with
  | ind n ih =>
    rcases first_line w with hnone | ⟨a, v, rfl, ha⟩
    · rw [complete_none hnone]
      by_cases hnil : w = []
      · subst hnil
        exact hn
      · exact absurd (hw.mem hnil) hnone
    · rw [List.length_append, List.length_cons] at hn
      rw [complete_feed ha, total_cons, ih v.length (by omega) hw.tail rfl]
      omega

/-- From a point inside a line: those after it. -/
theorem since_inside {w l v : List UInt8} {start : Nat} (hw : Ended w) (hl : feed ∉ l) (hlt : w.length < start)
    (hle : start ≤ w.length + (l.length + 1)) : since start (w ++ (l ++ feed :: v)) = complete v := by
  have hcomplete : complete (w ++ (l ++ feed :: v)) = (complete w ++ [l]) ++ complete v := by
    rw [complete_append hw, complete_feed hl, List.append_assoc]
    rfl
  have htotal : total (complete w ++ [l]) = w.length + (l.length + 1) := by
    rw [total_append, total_complete hw]
    rfl
  unfold since
  rw [hcomplete, placed_append, htotal, List.filter_append, List.map_append]
  -- the lines before the point begin before it
  have hbefore : (placed 0 (complete w ++ [l])).filter (fun p => start ≤ p.1) = [] := by
    rw [List.filter_eq_nil_iff]
    intro p hp
    rw [placed_append, total_complete hw, List.mem_append] at hp
    rcases hp with hp | hp
    · have hp := placed_lt hp
      rw [total_complete hw] at hp
      simp only [decide_eq_true_eq]
      omega
    · obtain rfl := List.mem_singleton.mp hp
      simp only [decide_eq_true_eq]
      omega
  have hafter : (placed (0 + (w.length + (l.length + 1))) (complete v)).filter (fun p => start ≤ p.1) =
      placed (0 + (w.length + (l.length + 1))) (complete v) := by
    rw [List.filter_eq_self]
    intro p hp
    have hp := placed_le hp
    simp only [decide_eq_true_eq]
    omega
  have hlines : ∀ lines start, (placed start lines).map (·.2) = lines := by
    intro lines
    induction lines with
    | nil => exact fun _ => rfl
    | cons line lines ih =>
      intro start
      rw [placed, List.map_cons, ih]
  rw [hbefore, hafter, hlines]
  rfl

/-! ## Histories -/

inductive Event where
  | append (bytes : List UInt8)
  | replace (file : File)
  | read

structure World where
  file : Option File
  cursor : LineCursor

/-- What each call returns. -/
def reads : World → List Event → List (List (List Char))
  | _, [] => []
  | w, .append bytes :: es => reads { w with file := w.file.map fun file => { file with bytes := file.bytes ++ bytes } } es
  | w, .replace file :: es => reads { w with file := some file } es
  | w, .read :: es =>
    let (lines, cursor) := w.cursor.readNew w.file
    lines :: reads { w with cursor } es

theorem reads_append (w : World) (bytes : List UInt8) (es : List Event) : reads w (.append bytes :: es) =
    reads { w with file := w.file.map fun file => { file with bytes := file.bytes ++ bytes } } es := rfl

theorem reads_read (w : World) (es : List Event) :
    reads w (.read :: es) = (w.cursor.readNew w.file).1 :: reads { w with cursor := (w.cursor.readNew w.file).2 } es := rfl

/-- What each call should, after bytes that no call has read past. -/
def news : List UInt8 → List Event → List (List (List UInt8))
  | _, [] => []
  | u, .append bytes :: es => news (u ++ bytes) es
  | _, .replace file :: es => news file.bytes es
  | u, .read :: es => within u :: news (unfinished u) es

/-- Something of what is unread whenever there is a call. -/
def AtReads (P : List UInt8 → Prop) : List UInt8 → List Event → Prop
  | _, [] => True
  | u, .append bytes :: es => AtReads P (u ++ bytes) es
  | _, .replace file :: es => AtReads P file.bytes es
  | u, .read :: es => P u ∧ AtReads P (unfinished u) es

/-- Only a file that is there is appended to, and one that takes its place has an inode of its own. -/
def Legal : List Nat → List Event → Prop
  | _, [] => True
  | seen, .append _ :: es => seen ≠ [] ∧ Legal seen es
  | seen, .replace file :: es => file.ino ∉ seen ∧ Legal (file.ino :: seen) es
  | seen, .read :: es => Legal seen es

/-- The newest bytes, where there are more, begin inside a line. -/
def Inside (u : List UInt8) : Prop := (u.take (u.length - maxFollow)).getLast? ≠ some feed

/-- A line is no longer than what is read at once. -/
def Fits (u : List UInt8) : Prop := (unfinished u).length ≤ maxFollow

/-- The lines that were complete when their file was last read. -/
def seenLines : List UInt8 → List UInt8 → List Event → List (List UInt8)
  | _, atRead, [] => complete atRead
  | now, atRead, .append bytes :: es => seenLines (now ++ bytes) atRead es
  | _, atRead, .replace file :: es => complete atRead ++ seenLines file.bytes [] es
  | now, _, .read :: es => seenLines now now es

/-! ## One call -/

/-- The window of a call. -/
theorem completeLines_window {u : List UInt8} (hinside : Inside u) (hfits : Fits u) :
    ∃ consumed, completeLines (u.drop (u.length - maxFollow)) (0 < u.length - maxFollow) = ((within u).map decode, consumed) ∧
      u.drop (u.length - maxFollow + consumed) = unfinished u ∧ u.length - maxFollow + consumed ≤ u.length := by
  unfold within
  unfold Inside at hinside
  unfold Fits at hfits
  obtain ⟨start, hstart⟩ : ∃ start, start = u.length - maxFollow := ⟨_, rfl⟩
  rw [← hstart] at hinside ⊢
  by_cases hzero : start = 0
  · subst hzero
    obtain ⟨w, f, rfl, hw, hf⟩ := ended_split u
    rw [List.drop_zero, decide_eq_false (Nat.lt_irrefl 0), completeLines_whole hw hf, since_zero, unfinished_append hw hf, complete_append hw,
      complete_none hf, List.append_nil]
    refine ⟨w.length, rfl, List.drop_left' (Nat.zero_add _).symm, ?_⟩
    rw [List.length_append]
    omega
  · rw [decide_eq_true (Nat.pos_of_ne_zero hzero)]
    obtain ⟨w, l, htake, hw, hl⟩ := ended_split (u.take start)
    have hlen := congrArg List.length htake
    rw [List.length_take, List.length_append] at hlen
    -- the line that the window begins in
    have hne : l ≠ [] := by
      rintro rfl
      rw [List.append_nil] at htake
      obtain ⟨w, rfl⟩ := hw.resolve_left (by rintro rfl; rw [List.length_nil] at hlen; omega)
      rw [htake, List.getLast?_concat] at hinside
      exact hinside rfl
    have hpos := List.length_pos_iff.mpr hne
    rcases first_line (u.drop start) with hnone | ⟨a, v, hdrop, ha⟩
    · exfalso
      have hu : u = w ++ (l ++ u.drop start) := by rw [← List.append_assoc, ← htake, List.take_append_drop]
      rw [hu, unfinished_append hw (by rw [List.mem_append, not_or]; exact ⟨hl, hnone⟩), List.length_append, List.length_drop] at hfits
      omega
    · obtain ⟨t, f, rfl, ht, hf⟩ := ended_split v
      have hline : feed ∉ l ++ a := by
        rw [List.mem_append, not_or]
        exact ⟨hl, ha⟩
      have hu : u = w ++ ((l ++ a) ++ feed :: (t ++ f)) := by
        rw [← List.take_append_drop start u, htake, hdrop]
        simp
      have hlength := congrArg List.length hdrop
      rw [List.length_drop, List.length_append, List.length_cons, List.length_append] at hlength
      have hends : Ended (w ++ ((l ++ a) ++ [feed]) ++ t) := (hw.append (.inr ⟨_, rfl⟩)).append ht
      have hsplit : u = (w ++ ((l ++ a) ++ [feed]) ++ t) ++ f := by
        rw [hu]
        simp
      have hwhole : (w ++ ((l ++ a) ++ [feed]) ++ t).length = start + (a.length + 1 + t.length) := by
        rw [List.length_append, List.length_append, List.length_append, List.length_append, List.length_singleton]
        omega
      have hsince : since start u = complete t := by
        rw [hu, since_inside hw hline (by omega) (by rw [List.length_append]; omega), complete_append ht, complete_none hf, List.append_nil]
      rw [hdrop, completeLines_cut ha ht hf, hsince]
      refine ⟨_, rfl, ?_, ?_⟩
      · rw [hsplit, unfinished_append hends hf]
        exact List.drop_left' hwhole
      · show start + (a.length + 1 + t.length) ≤ u.length
        omega

theorem readNew_window (c : LineCursor) (ino : Nat) (before u : List UInt8) {lines : List (List Char)} {consumed : Nat}
    (h : c = { ino := some ino, offset := before.length } ∨ c.ino ≠ some ino ∧ before = [])
    (hlines : completeLines (u.drop (u.length - maxFollow)) (0 < u.length - maxFollow) = (lines, consumed)) :
    c.readNew (some { ino, bytes := before ++ u }) =
      (lines, { ino := some ino, offset := before.length + (u.length - maxFollow + consumed) }) := by
  have hcursor : (if c.ino ≠ some ino ∨ (before ++ u).length < c.offset then { ino := some ino, offset := 0 } else c : LineCursor) =
      { ino := some ino, offset := before.length } := by
    rcases h with rfl | ⟨hino, rfl⟩
    · refine if_neg ?_
      rw [not_or, not_not, List.length_append]
      exact ⟨rfl, Nat.not_lt.mpr (Nat.le_add_right _ _)⟩
    · exact if_pos (.inl hino)
  have hstart : max before.length ((before ++ u).length - maxFollow) = before.length + (u.length - maxFollow) := by
    rw [List.length_append]
    omega
  have hread : readRange (before ++ u) (before.length + (u.length - maxFollow)) (before ++ u).length = u.drop (u.length - maxFollow) := by
    unfold readRange
    rw [List.drop_append, List.length_append, List.drop_of_length_le (Nat.le_add_right _ _), List.nil_append, Nat.add_sub_cancel_left]
    have hlen : (u.drop (u.length - maxFollow)).length ≤ before.length + u.length - (before.length + (u.length - maxFollow)) := by
      rw [List.length_drop]
      omega
    exact List.take_of_length_le hlen
  have hcut : decide (before.length < before.length + (u.length - maxFollow)) = decide (0 < u.length - maxFollow) := by
    rw [decide_eq_decide]
    omega
  unfold LineCursor.readNew
  dsimp only
  rw [hcursor]
  dsimp only
  rw [hstart, hread, hcut, hlines]
  dsimp only
  rw [Nat.add_assoc]

/-! ## Every history -/

/-- The bytes that no call has read past, by the inodes so far. -/
inductive Tracks (seen : List Nat) : World → List UInt8 → Prop where
  | absent (h : seen = []) (offset : Nat) : Tracks seen { file := none, cursor := { ino := none, offset } } []
  | following {ino : Nat} {before u : List UInt8} (h : ino ∈ seen) :
      Tracks seen { file := some { ino, bytes := before ++ u }, cursor := { ino := some ino, offset := before.length } } u
  | replaced {file : File} {cursor : LineCursor} (h : file.ino ∈ seen) (hcursor : ∀ ino ∈ cursor.ino, ino ∈ seen ∧ ino ≠ file.ino) :
      Tracks seen { file := some file, cursor } file.bytes

namespace Tracks

variable {seen : List Nat} {w : World} {u : List UInt8}

theorem atEnd (made : Option File) : Tracks (made.map File.ino).toList { file := made, cursor := .atEnd made } [] := by
  cases made with
  | none => exact .absent rfl 0
  | some file =>
    have h := @Tracks.following [file.ino] file.ino file.bytes [] (List.mem_singleton.mpr (Eq.refl file.ino))
    rw [List.append_nil] at h
    exact h

theorem append (h : Tracks seen w u) (hseen : seen ≠ []) (bytes : List UInt8) :
    Tracks seen { w with file := w.file.map fun file => { file with bytes := file.bytes ++ bytes } } (u ++ bytes) := by
  cases h with
  | absent hnone => exact absurd hnone hseen
  | following hino =>
    dsimp only [Option.map]
    rw [List.append_assoc]
    exact .following hino
  | replaced hino hcursor => exact .replaced hino hcursor

theorem known (h : Tracks seen w u) : ∀ ino ∈ w.cursor.ino, ino ∈ seen := by
  cases h with
  | absent => exact nofun
  | following hino =>
    rintro ino ⟨⟩
    exact hino
  | replaced hino hcursor => exact fun ino h => (hcursor ino h).1

theorem replace (h : Tracks seen w u) {file : File} (hino : file.ino ∉ seen) :
    Tracks (file.ino :: seen) { w with file := some file } file.bytes := by
  refine .replaced List.mem_cons_self fun ino hcursor => ?_
  have hknown := h.known ino hcursor
  refine ⟨List.mem_cons_of_mem _ hknown, ?_⟩
  rintro rfl
  exact hino hknown

/-- A call returns what it should, and leaves the rest. -/
theorem read (h : Tracks seen w u) (hinside : Inside u) (hfits : Fits u) :
    (w.cursor.readNew w.file).1 = (within u).map decode ∧
      Tracks seen { w with cursor := (w.cursor.readNew w.file).2 } (unfinished u) := by
  obtain ⟨consumed, hlines, hrest, hle⟩ := completeLines_window hinside hfits
  -- what is read past goes before
  have hfollowing : ∀ {ino : Nat} (before : List UInt8), ino ∈ seen →
      Tracks seen { file := some { ino, bytes := before ++ u }, cursor := { ino := some ino, offset := before.length + (u.length - maxFollow + consumed) } }
        (unfinished u) := by
    intro ino before hino
    have hfile : before ++ u = (before ++ u.take (u.length - maxFollow + consumed)) ++ unfinished u := by
      rw [← hrest, List.append_assoc, List.take_append_drop]
    have hlen : before.length + (u.length - maxFollow + consumed) = (before ++ u.take (u.length - maxFollow + consumed)).length := by
      rw [List.length_append, List.length_take]
      omega
    rw [hfile, hlen]
    exact .following hino
  cases h with
  | absent hseen offset =>
    rw [within_nil]
    exact ⟨rfl, .absent hseen offset⟩
  | @following ino before u hino =>
    dsimp only
    rw [readNew_window _ ino before u (.inl rfl) hlines]
    exact ⟨rfl, hfollowing before hino⟩
  | @replaced file cursor hino hcursor =>
    have hread := readNew_window cursor file.ino [] file.bytes (.inr ⟨fun heq => (hcursor _ heq).2 rfl, rfl⟩) hlines
    rw [List.nil_append] at hread
    dsimp only
    rw [hread]
    exact ⟨rfl, hfollowing [] hino⟩

theorem reads_eq (h : Tracks seen w u) {es : List Event} (hlegal : Legal seen es) (hreads : AtReads (fun u => Inside u ∧ Fits u) u es) :
    reads w es = (news u es).map fun lines => lines.map decode := by
  induction es generalizing seen w u with
  | nil => rfl
  | cons e es ih =>
    cases e with
    | append bytes => exact ih (h.append hlegal.1 bytes) hlegal.2 hreads
    | replace file => exact ih (h.replace hlegal.1) hlegal.2 hreads
    | read =>
      obtain ⟨⟨hinside, hfits⟩, hreads⟩ := hreads
      obtain ⟨hlines, hrest⟩ := h.read hinside hfits
      have hmore := ih hrest hlegal hreads
      rw [reads_read, hlines, hmore, news, List.map_cons]

end Tracks

theorem within_small {u : List UInt8} (h : u.length ≤ maxFollow) : within u = complete u := by
  unfold within
  rw [Nat.sub_eq_zero_of_le h, since_zero]

/-- With no more unread than is read at once. -/
theorem news_flatten {w u now atRead : List UInt8} {es : List Event} (hw : Ended w) (hnow : now = w ++ u) (hatRead : complete atRead = complete w)
    (hsmall : AtReads (fun u => u.length ≤ maxFollow) u es) : complete w ++ (news u es).flatten = seenLines now atRead es := by
  induction es generalizing w u now atRead with
  | nil =>
    rw [news, List.flatten_nil, List.append_nil]
    exact hatRead.symm
  | cons e es ih =>
    cases e with
    | append bytes => exact ih hw (by rw [hnow, List.append_assoc]) hatRead hsmall
    | replace file =>
      have hmore := ih (w := []) (.inl rfl) (List.nil_append _).symm rfl hsmall
      show complete w ++ (news file.bytes es).flatten = complete atRead ++ seenLines file.bytes [] es
      rw [hatRead, ← hmore]
      rfl
    | read =>
      obtain ⟨w', p, rfl, hw', hp⟩ := ended_split u
      have hcomplete : complete now = complete (w ++ w') := by
        rw [hnow, ← List.append_assoc, complete_append (hw.append hw'), complete_none hp, List.append_nil]
      have hrest : now = (w ++ w') ++ p := by rw [hnow, List.append_assoc]
      have hmore := ih (hw.append hw') hrest hcomplete (unfinished_append hw' hp ▸ hsmall.2)
      show complete w ++ (within (w' ++ p) :: news (unfinished (w' ++ p)) es).flatten = seenLines now now es
      rw [within_small hsmall.1, unfinished_append hw' hp, List.flatten_cons, complete_append hw', complete_none hp, List.append_nil, ← hmore,
        complete_append hw, List.append_assoc]

theorem clean_small {u : List UInt8} (h : u.length ≤ maxFollow) : Inside u ∧ Fits u := by
  refine ⟨?_, ?_⟩
  · unfold Inside
    rw [Nat.sub_eq_zero_of_le h]
    exact nofun
  · unfold Fits unfinished
    rw [List.length_drop]
    omega

theorem AtReads.mono {P Q : List UInt8 → Prop} (h : ∀ u, P u → Q u) {u : List UInt8} {es : List Event} (hreads : AtReads P u es) :
    AtReads Q u es := by
  induction es generalizing u with
  | nil => trivial
  | cons e es ih =>
    cases e with
    | append bytes => exact ih hreads
    | replace file => exact ih hreads
    | read => exact ⟨h u hreads.1, ih hreads.2⟩

/-- Each call returns the complete lines within the newest bytes that no call has read past; where those are all, every line
that was complete when its file was last read is returned once and in order. -/
theorem read_new_follows (made : Option File) (es : List Event) (hlegal : Legal (made.map File.ino).toList es) :
    (AtReads (fun u => Inside u ∧ Fits u) [] es →
      reads { file := made, cursor := .atEnd made } es = (news [] es).map fun lines => lines.map decode) ∧
    (AtReads (fun u => u.length ≤ maxFollow) [] es →
      (reads { file := made, cursor := .atEnd made } es).flatten = (seenLines [] [] es).map decode) := by
  have htracks := Tracks.atEnd made
  refine ⟨htracks.reads_eq hlegal, fun hsmall => ?_⟩
  have hreads := htracks.reads_eq hlegal (hsmall.mono fun u => clean_small)
  have hnews := news_flatten (w := []) (.inl rfl) (List.nil_append []).symm rfl hsmall
  rw [hreads, ← List.map_flatten, ← hnews]
  rfl

/-- A line that is unread when its file is replaced. -/
def lost : List Event := [.append [0x61, feed], .replace { ino := 2, bytes := [0x62, feed] }, .read]

theorem read_new_follows_lost :
    (reads { file := some { ino := 1, bytes := [] }, cursor := .atEnd (some { ino := 1, bytes := [] }) } lost).flatten =
      (seenLines [] [] lost).map decode :=
  (read_new_follows (some { ino := 1, bytes := [] }) lost ⟨by decide, by decide, trivial⟩).2 ⟨by decide, trivial⟩

/-- All complete lines since the cursor was made. -/
def written : List UInt8 → List Event → List (List UInt8)
  | now, [] => complete now
  | now, .append bytes :: es => written (now ++ bytes) es
  | now, .replace file :: es => complete now ++ written file.bytes es
  | now, .read :: es => written now es

/-- No more is written between two calls than is read at once. -/
def Slow : Nat → List Event → Prop
  | n, [] => n ≤ maxFollow
  | n, .append bytes :: es => Slow (n + bytes.length) es
  | n, .replace file :: es => Slow (n + file.bytes.length) es
  | n, .read :: es => n ≤ maxFollow ∧ Slow 0 es

/-- The rest of a line, and as much of the next as still fits. -/
def filler : List UInt8 := feed :: List.replicate (maxFollow - 1) 0x62

/-- A line begun before as much as is read at once. -/
def carried (rest : List UInt8) : List Event := [.append [0x61], .read, .append rest, .read]

theorem filler_length : filler.length = maxFollow := by
  unfold filler
  rw [List.length_cons, List.length_replicate]
  exact Nat.sub_add_cancel (by decide)

theorem filler_tail : feed ∉ List.replicate (maxFollow - 1) (0x62 : UInt8) := by
  intro hmem
  exact absurd (List.eq_of_mem_replicate hmem) (by decide)

theorem carried_reads (rest : List UInt8) (hlen : rest.length = maxFollow) (hcut : completeLines rest true = ([], 1)) :
    reads { file := some { ino := 1, bytes := [] }, cursor := { ino := some 1, offset := 0 } } (carried rest) = [[], []] := by
  have hstart : ([0x61] ++ rest).length - maxFollow = 1 := by
    rw [List.length_append, hlen]
    exact Nat.add_sub_cancel _ _
  have hfirst : completeLines (([0x61] : List UInt8).drop (1 - maxFollow)) (0 < 1 - maxFollow) = ([], 0) :=
    completeLines_whole (w := []) (f := [0x61]) (.inl rfl) (by decide)
  have hsecond : completeLines (([0x61] ++ rest).drop (([0x61] ++ rest).length - maxFollow)) (0 < ([0x61] ++ rest).length - maxFollow) =
      ([], 1) := by
    rw [hstart]
    exact hcut
  have hzero : ([] : List UInt8).length + (([0x61] : List UInt8).length - maxFollow + 0) = 0 := by decide
  have hread := readNew_window { ino := some 1, offset := 0 } 1 [] [0x61] (.inl rfl) hfirst
  have hread' := readNew_window { ino := some 1, offset := 0 } 1 [] ([0x61] ++ rest) (.inl rfl) hsecond
  rw [hzero] at hread
  unfold carried
  rw [reads_append, reads_read]
  dsimp only [Option.map]
  rw [hread, reads_append, reads_read]
  dsimp only [Option.map]
  rw [List.append_assoc, hread']
  dsimp only [reads]

theorem unread_line_lost :
    (Legal [1] lost ∧ Slow 0 lost ∧
      (reads { file := some { ino := 1, bytes := [] }, cursor := { ino := some 1, offset := 0 } } lost).flatten ≠ (written [] lost).map decode) ∧
    (Legal [1] (carried filler) ∧ Slow 0 (carried filler) ∧
      (reads { file := some { ino := 1, bytes := [] }, cursor := { ino := some 1, offset := 0 } } (carried filler)).flatten ≠
        (written [] (carried filler)).map decode) := by
  refine ⟨⟨⟨by decide, by decide, trivial⟩, ⟨by decide, ?_⟩, by decide⟩, ⟨by decide, by decide, trivial⟩, ⟨by decide, ?_, ?_⟩, ?_⟩
  · exact Nat.zero_le _
  · exact Nat.le_of_eq (by rw [Nat.zero_add, filler_length])
  · exact Nat.zero_le _
  · have hwritten : written [] (carried filler) = [[0x61]] := by
      show complete ([0x61] ++ filler) = _
      unfold filler
      rw [complete_feed (by decide), complete_none filler_tail]
    rw [carried_reads filler filler_length (completeLines_cut (a := []) (w := []) List.not_mem_nil (.inl rfl) filler_tail), hwritten]
    exact nofun

end OpenU60.StandbyGuard.Follow
