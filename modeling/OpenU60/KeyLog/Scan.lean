/-
  OpenU60.KeyLog.Scan — the backward scan of the firmware's log (`zte-agent/src/key_log.rs`: `scan_back`, `newest`,
  `read_range`).

  A file is its bytes, if it can be opened; an opened one can be read. `fuel` bounds the windows. `asked` is a ghost: the
  ranges of the file whose text has been passed to `find`.

  What a scan asks does not depend on what `find` answers, up to the answer that ends it (`scan_asks`); `blocks` are what
  it asks of a `find` that answers nothing, in offsets from the floor.
-/

import OpenU60.Lib.ByteLines

namespace OpenU60.KeyLog

open OpenU60.Lib.ByteLines

variable {α : Type}

structure Scan (α : Type) where
  newest : Option α
  /-- Offset just past the last complete line in the scanned range. -/
  consumed : Nat

def readRange (file : List UInt8) (start stop : Nat) : List UInt8 := (file.drop start).take (stop - start)

/-- Where the complete lines of a window end: bytes after the last newline are a line still being written, which may span
several windows. -/
def stopOf (newestWindow : Bool) (buf : List UInt8) : Nat := if newestWindow then (rposition buf).elim 0 (· + 1) else buf.length

/-- Bytes before the first newline may finish a line that began before the window. -/
def startOf (atFloor : Bool) (buf : List UInt8) : Nat := if atFloor then 0 else (position buf).elim buf.length (· + 1)

/-- The cut line is read again, whole, in the next window, unless it fills this one. -/
def nextOf (lo start : Nat) (buf : List UInt8) : Nat := if start = 0 ∨ buf.length ≤ start then lo else lo + start

def scanFrom (file : List UInt8) (floor chunk : Nat) (find : List Char → Option α) :
    Nat → Nat → Bool → Scan α → List (Nat × Nat) → Option (Scan α × List (Nat × Nat))
  | 0, _, _, _, _ => none
  | fuel + 1, hi, newestWindow, out, asked =>
    if hi ≤ floor then some (out, asked)
    else
      let lo := max (hi - chunk) floor
      let buf := readRange file lo hi
      let out := if newestWindow then (rposition buf).elim out fun i => { out with consumed := lo + i + 1 } else out
      let stop := stopOf newestWindow buf
      let start := startOf (lo = floor) buf
      let asked := if start < stop then asked ++ [(lo + start, lo + stop)] else asked
      match if start < stop then find (lossy ((buf.take stop).drop start)) else none with
      | some found => some ({ out with newest := some found }, asked)
      | none =>
        scanFrom file floor chunk find fuel (nextOf lo start buf) (newestWindow && (rposition buf).isNone) out asked

def scanBack (file : Option (List UInt8)) (floor stop chunk : Nat) (find : List Char → Option α) (fuel : Nat) :
    Option (Scan α × List (Nat × Nat)) :=
  match file with
  | none => some ({ newest := none, consumed := floor }, [])
  | some bytes => scanFrom bytes floor chunk find fuel stop true { newest := none, consumed := floor } []

example : (scanBack (some [0x61, 0x0A, 0x62, 0x0A, 0x63]) 0 5 3 (fun cs => if cs = ['a', '\n'] then some cs else none) 9).map (·.1.newest) =
    some (some ['a', '\n']) := by decide

structure Newest (α : Type) where
  found : Option α
  /-- The start of a line still being written at the end of the log. -/
  pending : List Char

def newest (log rotated : Option (List UInt8)) (chunk : Nat) (find : List Char → Option α) (fuel : Nat) : Option (Newest α) := do
  let len := fun file : Option (List UInt8) => file.elim 0 List.length
  let stop := len log
  let (scan, _) ← scanBack log 0 stop chunk find fuel
  let pending :=
    if scan.consumed < stop then
      log.elim [] fun bytes => lossy (readRange bytes scan.consumed (min stop (scan.consumed + chunk)))
    else []
  match scan.newest with
  | some found => some ⟨some found, pending⟩
  | none => do
    let (scan, _) ← scanBack rotated 0 (len rotated) chunk find fuel
    some ⟨scan.newest, pending⟩

/-! ## What is asked -/

/-- A scan from `n` bytes past the floor: its blocks, and how many bytes are whole lines if it still has to find that. -/
def blocks (rest : List UInt8) (chunk : Nat) : Nat → Nat → Bool → Option (List (Nat × Nat) × Option Nat)
  | 0, _, _ => none
  | fuel + 1, n, newestWindow =>
    if n = 0 then some ([], none)
    else
      let m := n - chunk
      let buf := (rest.take n).drop m
      let stop := stopOf newestWindow buf
      let start := startOf (m = 0) buf
      (blocks rest chunk fuel (nextOf m start buf) (newestWindow && (rposition buf).isNone)).map fun (more, whole) =>
        (if start < stop then (m + start, m + stop) :: more else more,
          if newestWindow then ((rposition buf).map (m + · + 1)).or whole else whole)

variable {file rest : List UInt8} {floor chunk fuel n : Nat} {newestWindow : Bool} {find : List Char → Option α}

def shift (floor : Nat) (b : Nat × Nat) : Nat × Nat := (floor + b.1, floor + b.2)

/-- The text of a block. -/
def text (rest : List UInt8) (b : Nat × Nat) : List Char := lossy ((rest.take b.2).drop b.1)

/-- One window, and what is left. -/
theorem blocks_succ {bs : List (Nat × Nat)} {whole : Option Nat} (h : blocks rest chunk (fuel + 1) n newestWindow = some (bs, whole))
    (hn : n ≠ 0) : ∃ m buf start stop more whole', m = n - chunk ∧ buf = (rest.take n).drop m ∧ stop = stopOf newestWindow buf ∧
      start = startOf (m = 0) buf ∧
      blocks rest chunk fuel (nextOf m start buf) (newestWindow && (rposition buf).isNone) = some (more, whole') ∧
      bs = (if start < stop then (m + start, m + stop) :: more else more) ∧
      whole = if newestWindow then ((rposition buf).map (m + · + 1)).or whole' else whole' := by
  unfold blocks at h
  rw [if_neg hn] at h
  dsimp only at h
  obtain ⟨⟨more, whole'⟩, hmore, heq⟩ := Option.map_eq_some_iff.mp h
  cases heq
  exact ⟨_, _, _, _, more, whole', rfl, rfl, rfl, rfl, hmore, rfl, rfl⟩

theorem blocks_whole {bs : List (Nat × Nat)} {whole : Option Nat} (h : blocks rest chunk fuel n false = some (bs, whole)) : whole = none := by
  induction fuel generalizing n bs whole with
  | zero => cases h
  | succ fuel ih =>
    by_cases hn : n = 0
    · unfold blocks at h
      rw [if_pos hn] at h
      cases h
      rfl
    · obtain ⟨m, buf, start, stop, more, whole', -, -, -, -, hmore, -, rfl⟩ := blocks_succ h hn
      exact ih hmore

theorem stopOf_le (newestWindow : Bool) (buf : List UInt8) : stopOf newestWindow buf ≤ buf.length := by
  unfold stopOf
  split
  · rcases last_line buf with hnone | ⟨u, p, rfl, hp⟩
    · rw [rposition_none hnone]
      exact Nat.zero_le _
    · rw [rposition_append hp]
      simp
  · exact Nat.le_refl _

/-- What a scan asks and answers, once the windows are known. -/
theorem scan_asks {bs : List (Nat × Nat)} {whole : Option Nat} (h : blocks (file.drop floor) chunk fuel n newestWindow = some (bs, whole))
    (consumed : Nat) (asked : List (Nat × Nat)) :
    ∃ asked', scanFrom file floor chunk find fuel (floor + n) newestWindow { newest := none, consumed } asked =
        some ({ newest := bs.findSome? fun b => find (text (file.drop floor) b), consumed := whole.elim consumed (floor + ·) }, asked ++ asked') ∧
      asked' <+: bs.map (shift floor) ∧ ((∀ cs, find cs = none) → asked' = bs.map (shift floor)) := by
  induction fuel generalizing n newestWindow bs whole consumed asked with
  | zero => cases h
  | succ fuel ih =>
    unfold scanFrom
    by_cases hn : n = 0
    · unfold blocks at h
      rw [if_pos hn] at h
      cases h
      refine ⟨[], ?_, List.nil_prefix, fun _ => rfl⟩
      rw [if_pos (by omega), List.append_nil]
      rfl
    · obtain ⟨m, buf, start, stop, more, whole', hm, hbuf, hstop, hstart, hmore, rfl, rfl⟩ := blocks_succ h hn
      have hlo : max (floor + n - chunk) floor = floor + m := by omega
      have hread : readRange file (floor + m) (floor + n) = buf := by
        unfold readRange
        rw [hbuf, List.drop_take, List.drop_drop]
        congr 1
        omega
      have hfloor : decide (floor + m = floor) = decide (m = 0) := by
        rw [decide_eq_decide]
        omega
      have hnext : nextOf (floor + m) start buf = floor + nextOf m start buf := by
        unfold nextOf
        split
        · rfl
        · omega
      have htext : lossy ((buf.take stop).drop start) = text (file.drop floor) (m + start, m + stop) := by
        have hle : stop ≤ buf.length := hstop ▸ stopOf_le newestWindow buf
        have hlen : buf.length ≤ n - m := by
          rw [hbuf, List.length_drop, List.length_take]
          omega
        unfold text
        rw [hbuf, List.take_drop, List.take_take, List.drop_drop, Nat.min_eq_left (by omega)]
      -- the newest window is over once it has an end of a line, and only then is a block asked
      have hasks : start < stop → whole' = none := by
        intro hlt
        have hover : (newestWindow && (rposition buf).isNone) = false := by
          cases newestWindow with
          | false => rfl
          | true =>
            cases hlast : rposition buf with
            | none =>
              rw [hstop] at hlt
              unfold stopOf at hlt
              rw [if_pos rfl, hlast] at hlt
              exact absurd hlt (Nat.not_lt_zero _)
            | some i => rfl
        rw [hover] at hmore
        exact blocks_whole hmore
      obtain ⟨c, hout, hc⟩ : ∃ c, (if newestWindow then (rposition buf).elim ({ newest := none, consumed } : Scan α)
            fun i => { newest := none, consumed := floor + m + i + 1 } else { newest := none, consumed }) = { newest := none, consumed := c } ∧
          (if newestWindow then ((rposition buf).map (m + · + 1)).or whole' else whole').elim consumed (floor + ·) =
            whole'.elim c (floor + ·) := by
        cases newestWindow with
        | false => exact ⟨consumed, rfl, rfl⟩
        | true =>
          cases hlast : rposition buf with
          | none => exact ⟨consumed, rfl, rfl⟩
          | some i =>
            rw [hlast] at hmore
            rw [blocks_whole hmore]
            refine ⟨_, rfl, ?_⟩
            show floor + (m + i + 1) = floor + m + i + 1
            omega
      rw [if_neg (by omega)]
      dsimp only
      rw [hlo, hread, hfloor, ← hstop, ← hstart, hnext, hout, hc, htext]
      by_cases hlt : start < stop
      · have hwhole := hasks hlt
        subst hwhole
        rw [if_pos hlt, if_pos hlt, if_pos hlt, List.findSome?_cons]
        have hshift : (floor + m + start, floor + m + stop) = shift floor (m + start, m + stop) := by
          unfold shift
          simp only [Nat.add_assoc]
        cases hfound : find (text (file.drop floor) (m + start, m + stop)) with
        | some found =>
          refine ⟨[shift floor (m + start, m + stop)], by rw [hshift]; rfl, ?_, fun hno => ?_⟩
          · rw [List.map_cons, List.cons_prefix_cons]
            exact ⟨rfl, List.nil_prefix⟩
          · rw [hno] at hfound
            cases hfound
        | none =>
          obtain ⟨asked', hscan, hstart, hall⟩ := ih hmore c (asked ++ [(floor + m + start, floor + m + stop)])
          refine ⟨shift floor (m + start, m + stop) :: asked', ?_, ?_, ?_⟩
          · rw [hscan, hshift, List.append_assoc]
            rfl
          · rw [List.map_cons, List.cons_prefix_cons]
            exact ⟨rfl, hstart⟩
          · intro hno
            rw [hall hno]
            rfl
      · rw [if_neg hlt, if_neg hlt, if_neg hlt]
        exact ih hmore c asked

end OpenU60.KeyLog
