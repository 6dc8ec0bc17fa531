/-
  OpenU60.KeyLog.Backward — the backward scan of a log against one forward pass (`zte-agent/src/key_log.rs`: `scan_back`,
  `newest`).

  - `scan_back_forward`: in a range that begins at the start of a line, every scan ends, asks for whole lines and finds what a
    forward pass does, exactly if its windows hold bytes and no line is cut;
  - `newest_forward`: with short lines, what `newest` finds in a log and the one rotated away.
-/

import OpenU60.KeyLog.Windows

namespace OpenU60.KeyLog

open OpenU60.Lib
open OpenU60.Lib.ByteLines

variable {w : List UInt8} {chunk : Nat}

/-- One pass over whole lines, which keeps what matched last. -/
def forward {α : Type} (g : List Char → Option α) (w : List UInt8) : Option α :=
  (complete w).foldl (fun last line => (g (decode line)).or last) none

/-- `find`s of the callers: the newest line that matches. -/
def newestIn {α : Type} (g : List Char → Option α) (text : List Char) : Option α := (Text.lines text).reverse.findSome? g

/-- A backward scan is as good as a forward one. -/
structure Agrees {α : Type} (bytes : List UInt8) (floor stop chunk : Nat) (find : List Char → Option α) (scan : Scan α)
    (asked : List (Nat × Nat)) : Prop where
  consumed : scan.consumed = floor + (rposition (readRange bytes floor stop)).elim 0 (· + 1)
  whole : ∀ b ∈ asked, Whole bytes b
  newest : Short chunk (readRange bytes floor stop) → ∀ g, find = newestIn g → scan.newest = forward g (readRange bytes floor stop)

/-- Every scan of a range ends and agrees. -/
def Scans (bytes : List UInt8) (floor stop chunk : Nat) : Prop :=
  ∀ (α : Type) (find : List Char → Option α),
    ∃ fuel scan asked, scanBack (some bytes) floor stop chunk find fuel = some (scan, asked) ∧ Agrees bytes floor stop chunk find scan asked

section

variable {bytes : List UInt8} {floor stop : Nat} {α : Type} {find : List Char → Option α}

theorem foldl_or {β : Type} (k : β → Option α) (bs : List β) (last : Option α) :
    bs.foldl (fun last b => (k b).or last) last = (bs.reverse.findSome? k).or last := by
  induction bs generalizing last with
  | nil => rfl
  | cons b bs ih =>
    rw [List.foldl_cons, ih, List.reverse_cons, List.findSome?_append, findSome?_cons_or, List.findSome?_nil, Option.or_none, Option.or_assoc]

theorem forward_eq (g : List Char → Option α) (w : List UInt8) : forward g w = lastMatch (g ∘ decode) w := by
  unfold forward lastMatch
  exact (foldl_or (g ∘ decode) (complete w) none).trans (Option.or_none)

theorem newestIn_lossy (g : List Char → Option α) (h : Ended w) : newestIn g (lossy w) = lastMatch (g ∘ decode) w := by
  unfold newestIn lastMatch
  rw [lines_lossy h, ← List.map_reverse, List.findSome?_map]

theorem Short.not_cuts (h : Short chunk w) : ¬ Cuts chunk w := by
  have hlt : ∀ l ∈ complete w, ¬ chunk < l.length + 1 := by
    intro l hl
    have hshort := h l hl
    omega
  rintro (⟨l, hl, hlong, -⟩ | ⟨l, hl, hlong⟩)
  · exact hlt l hl hlong
  · exact hlt l (List.mem_of_head? hl) hlong

theorem ended_append_iff {u v : List UInt8} (h : Ended u) : Ended (u ++ v) ↔ Ended v := by
  refine ⟨fun hends => ?_, h.append⟩
  have hdrop := hends.drop u.length
  rwa [List.drop_left] at hdrop

/-- Whole lines of the range are whole lines of the file. -/
theorem whole_shift (hfloor : Ended (bytes.take floor)) (hle : floor ≤ bytes.length) (b : Nat × Nat) :
    Whole bytes (shift floor b) ↔ Whole (bytes.drop floor) b := by
  have hends : ∀ k, Ended (bytes.take (floor + k)) ↔ Ended ((bytes.drop floor).take k) := by
    intro k
    rw [List.take_add, ended_append_iff hfloor]
  constructor
  · intro h
    have hlt : floor + b.1 < floor + b.2 := h.lt
    have hlen : floor + b.2 ≤ bytes.length := h.le
    exact ⟨by omega, by rw [List.length_drop]; omega, (hends _).mp h.starts, (hends _).mp h.stops⟩
  · intro h
    have hlt := h.lt
    have hlen := h.le
    rw [List.length_drop] at hlen
    exact ⟨show floor + b.1 < floor + b.2 by omega, show floor + b.2 ≤ bytes.length by omega, (hends _).mpr h.starts, (hends _).mpr h.stops⟩

/-- Windows of no bytes. -/
theorem scanFrom_zero {fuel : Nat} (hlt : floor < stop) {newestWindow : Bool} {scan : Scan α} {asked : List (Nat × Nat)} :
    scanFrom bytes floor 0 find fuel stop newestWindow scan asked = none := by
  induction fuel generalizing newestWindow scan asked with
  | zero => rfl
  | succ fuel ih =>
    have hlo : max (stop - 0) floor = stop := by omega
    have hread : readRange bytes stop stop = [] := by
      unfold readRange
      rw [Nat.sub_self]
      rfl
    unfold scanFrom
    rw [if_neg (by omega)]
    dsimp only
    rw [hlo, hread, show startOf (stop = floor) [] = 0 from ite_self 0, show stopOf newestWindow [] = 0 from ite_self 0]
    exact ih

/-- More fuel changes nothing. -/
theorem scanFrom_fuel {fuel k : Nat} {newestWindow : Bool} {scan : Scan α} {asked : List (Nat × Nat)} {r : Scan α × List (Nat × Nat)}
    (h : scanFrom bytes floor chunk find fuel stop newestWindow scan asked = some r) :
    scanFrom bytes floor chunk find (fuel + k) stop newestWindow scan asked = some r := by
  induction fuel generalizing stop newestWindow scan asked with
  | zero => cases h
  | succ fuel ih =>
    rw [Nat.succ_add]
    unfold scanFrom at h ⊢
    split at h
    · rw [if_pos (by assumption)]
      exact h
    · rw [if_neg (by assumption)]
      dsimp only at h ⊢
      split at h
      · exact h
      · exact ih h

/-- What a scan of whole lines and the start of one asks and answers. -/
theorem scan_ends (hchunk : 0 < chunk) (hfloor : Ended (bytes.take floor)) (hlt : floor < stop) (hstop : stop ≤ bytes.length)
    (find : List Char → Option α) :
    ∃ scan asked, scanBack (some bytes) floor stop chunk find (stop + 1) = some (scan, asked) ∧
      (¬ Cuts chunk (readRange bytes floor stop) → Agrees bytes floor stop chunk find scan asked) ∧
      ((∀ cs, find cs = none) → (∀ b ∈ asked, Whole bytes b) → ¬ Cuts chunk (readRange bytes floor stop)) := by
  obtain ⟨n, rfl⟩ : ∃ n, stop = floor + n := ⟨stop - floor, by omega⟩
  have hread : readRange bytes floor (floor + n) = (bytes.drop floor).take n := by
    unfold readRange
    rw [Nat.add_sub_cancel_left]
  obtain ⟨w, f, hsplit, hw, hf⟩ := ended_split ((bytes.drop floor).take n)
  have hlen := congrArg List.length hsplit
  rw [List.length_take, List.length_drop, List.length_append] at hlen
  have hleft : Left (bytes.drop floor) n w f := ⟨hsplit, by omega, hw, hf⟩
  obtain ⟨bs, hblocks, hasks⟩ := blocks_asks hchunk (Nat.lt_succ_self n) hleft true
  obtain ⟨asked, hscan, hstart, hall⟩ := scan_asks hblocks floor []
  have hcomplete : complete (readRange bytes floor (floor + n)) = complete w := by
    rw [hread, hsplit, complete_append hw, complete_none hf, List.append_nil]
  have hcuts : Cuts chunk (readRange bytes floor (floor + n)) ↔ Cuts chunk w := by
    unfold Cuts
    rw [hcomplete]
  have hwhole : (∀ b ∈ bs, Whole (bytes.drop floor) b) ↔ ¬ Cuts chunk w := hasks.whole.trans (and_iff_left (.inl rfl))
  have hfuel : n + 1 + floor = floor + n + 1 := by omega
  refine ⟨_, _, hfuel ▸ scanFrom_fuel (k := floor) hscan, ?_, ?_⟩
  · intro hno
    rw [hcuts] at hno
    refine ⟨?_, ?_, ?_⟩
    · show (wholeOf true w).elim floor (floor + ·) = _
      rw [hread, hsplit]
      by_cases hnil : w = []
      · subst hnil
        rw [List.nil_append, rposition_none hf]
        rfl
      · have hpos := List.length_pos_iff.mpr hnil
        rw [rposition_ended hw hnil hf, wholeOf, if_pos ⟨rfl, hnil⟩]
        show floor + w.length = floor + (w.length - 1 + 1)
        omega
    · intro b hb
      obtain ⟨b, hbs, rfl⟩ := List.mem_map.mp (hstart.subset hb)
      exact (whole_shift hfloor (by omega) b).mpr (hwhole.mpr hno b hbs)
    · intro hshort g hfind
      subst hfind
      have hshort : Short chunk w := fun l hl => hshort l (hcomplete.symm ▸ hl)
      -- a block is decoded line by line
      have htext : ∀ b ∈ bs, newestIn g (text (bytes.drop floor) b) = lastMatch (g ∘ decode) (((bytes.drop floor).take b.2).drop b.1) :=
        fun b hb => newestIn_lossy g ((hwhole.mpr hno b hb).stops.drop b.1)
      have hnewest : (bs.findSome? fun b => newestIn g (text (bytes.drop floor) b)) =
          bs.findSome? fun b => lastMatch (g ∘ decode) (((bytes.drop floor).take b.2).drop b.1) := by
        clear hstart hall hblocks hasks hwhole hscan
        induction bs with
        | nil => rfl
        | cons b bs ih =>
          rw [findSome?_cons_or, findSome?_cons_or, htext b List.mem_cons_self, ih fun b hb => htext b (List.mem_cons_of_mem _ hb)]
      show (bs.findSome? fun b => newestIn g (text (bytes.drop floor) b)) = _
      rw [hnewest, hasks.finds (.inl rfl) hshort, forward_eq]
      unfold lastMatch
      rw [hcomplete]
  · intro hnone hasked
    rw [hcuts, ← hwhole]
    intro b hb
    refine (whole_shift hfloor (by omega) b).mp (hasked _ ?_)
    rw [hall hnone]
    exact List.mem_map_of_mem hb

end

/-- A line of 36 bytes after a short one. -/
def longLine : List UInt8 := [0x78, feed] ++ ([0x6D, 0x61, 0x74, 0x63, 0x68] ++ List.replicate 30 0x79 ++ [feed])

example : (scanBack (some longLine) 0 38 16 (newestIn fun line => if line.take 3 = ['m', 'a', 't'] then some line else none) 9).map (·.1.newest) =
    some (some ['m', 'a', 't', 'c']) := by decide

/-- A range of short lines, scanned from the start of one. -/
theorem scan_short {α : Type} {bytes : List UInt8} {floor stop : Nat} (hchunk : 0 < chunk) (hfloor : Ended (bytes.take floor))
    (hstop : stop ≤ bytes.length) (hshort : Short chunk (readRange bytes floor stop)) (g : List Char → Option α) :
    ∃ asked, scanBack (some bytes) floor stop chunk (newestIn g) (stop + 1) = some (⟨forward g (readRange bytes floor stop),
      floor + (rposition (readRange bytes floor stop)).elim 0 (· + 1)⟩, asked) := by
  by_cases hlt : floor < stop
  · obtain ⟨scan, asked, hscan, hagrees, -⟩ := scan_ends hchunk hfloor hlt hstop (newestIn g)
    have hagrees := hagrees hshort.not_cuts
    have hconsumed := hagrees.consumed
    have hnewest := hagrees.newest hshort g rfl
    obtain ⟨found, consumed⟩ := scan
    subst hconsumed hnewest
    exact ⟨asked, hscan⟩
  · have hread : readRange bytes floor stop = [] := by
      unfold readRange
      rw [show stop - floor = 0 by omega]
      rfl
    rw [hread]
    exact ⟨[], if_pos (by omega)⟩

/-- A whole log; one that is not there reads as empty. -/
theorem scan_whole {α : Type} (hchunk : 0 < chunk) (file : Option (List UInt8)) (hshort : Short chunk (file.getD []))
    (g : List Char → Option α) :
    ∃ asked, scanBack file 0 (file.elim 0 List.length) chunk (newestIn g) (file.elim 0 List.length + 1) =
      some (⟨forward g (file.getD []), (rposition (file.getD [])).elim 0 (· + 1)⟩, asked) := by
  cases file with
  | none => exact ⟨[], rfl⟩
  | some bytes =>
    have hread : readRange bytes 0 bytes.length = bytes := by
      unfold readRange
      rw [Nat.sub_zero, List.drop_zero, List.take_length]
    have hscan := scan_short hchunk (.inl List.take_zero) (Nat.le_refl _) (hread.symm ▸ hshort) g
    rwa [hread, Nat.zero_add] at hscan

theorem scanBack_fuel {α : Type} {find : List Char → Option α} {file : Option (List UInt8)} {floor stop fuel k : Nat}
    {r : Scan α × List (Nat × Nat)} (h : scanBack file floor stop chunk find fuel = some r) :
    scanBack file floor stop chunk find (fuel + k) = some r := by
  cases file with
  | none => exact h
  | some bytes => exact scanFrom_fuel h

/-- What a line that is still being written begins with. -/
def pendingOf (chunk : Nat) (bytes : List UInt8) : List Char := lossy ((bytes.drop ((rposition bytes).elim 0 (· + 1))).take chunk)

theorem pending_eq (file : Option (List UInt8)) (chunk : Nat) :
    (if (rposition (file.getD [])).elim 0 (· + 1) < file.elim 0 List.length then
      file.elim [] fun bytes => lossy (readRange bytes ((rposition (file.getD [])).elim 0 (· + 1))
        (min (file.elim 0 List.length) ((rposition (file.getD [])).elim 0 (· + 1) + chunk)))
    else []) = pendingOf chunk (file.getD []) := by
  cases file with
  | none => simp [pendingOf, rposition, position, lossy, lossyFrom]
  | some bytes =>
    show (if (rposition bytes).elim 0 (· + 1) < bytes.length then lossy (readRange bytes ((rposition bytes).elim 0 (· + 1))
      (min bytes.length ((rposition bytes).elim 0 (· + 1) + chunk))) else []) = pendingOf chunk bytes
    obtain ⟨consumed, hconsumed⟩ : ∃ consumed, consumed = (rposition bytes).elim 0 (· + 1) := ⟨_, rfl⟩
    unfold pendingOf readRange
    rw [← hconsumed]
    by_cases hlt : consumed < bytes.length
    · have hlen : (bytes.drop consumed).length = bytes.length - consumed := List.length_drop
      rw [if_pos hlt, List.take_eq_take_min (i := min bytes.length (consumed + chunk) - consumed), List.take_eq_take_min (i := chunk), hlen]
      congr 2
      omega
    · rw [if_neg hlt, List.drop_of_length_le (by omega), List.take_nil]
      rfl

/-- The newest match of the log, or of the rotated one, and the line being written. -/
theorem newest_forward {α : Type} (hchunk : 0 < chunk) (log rotated : Option (List UInt8)) (hlog : Short chunk (log.getD []))
    (hrotated : Short chunk (rotated.getD [])) (g : List Char → Option α) :
    ∃ fuel, newest log rotated chunk (newestIn g) fuel =
      some ⟨(forward g (log.getD [])).or (forward g (rotated.getD [])), pendingOf chunk (log.getD [])⟩ := by
  obtain ⟨asked, hscan⟩ := scan_whole hchunk log hlog g
  obtain ⟨asked', hscan'⟩ := scan_whole hchunk rotated hrotated g
  have hscan := scanBack_fuel (k := rotated.elim 0 List.length + 1) hscan
  have hscan' := scanBack_fuel (k := log.elim 0 List.length + 1) hscan'
  rw [Nat.add_comm] at hscan'
  refine ⟨log.elim 0 List.length + 1 + (rotated.elim 0 List.length + 1), ?_⟩
  unfold newest
  simp only [hscan, hscan', Option.bind_eq_bind, Option.bind_some, pending_eq]
  cases forward g (log.getD []) with
  | some found => rfl
  | none => rfl

end OpenU60.KeyLog
