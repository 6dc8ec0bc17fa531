/-
  OpenU60.Web.QrShrink — a photo scaled down (`zte-agent/src/web/qr_decode.rs`: `Shrink`).

  A pixel of the small photo stands for a block of the big one (`block`), cut off at its right and bottom
  edges.
  - `shrinkFactor_spec`: the factor is the smallest that fits, and at most 8 for the two passes' budgets.
  - `addSamples_eq`, `means_eq`: a row adds what each block has in it; the last row of a block ends in its mean.
  - `Kept.row`: so after each row the finished blocks are out and the others summed up to there.
  - `shrunk_spec`: in the end each pixel is its block's mean, and no step overflows, goes below zero or
    divides by zero.
-/

import Mathlib
import OpenU60.Lib.Fallible
import OpenU60.Web.QrDecode

namespace OpenU60.Web.QrDecode

open OpenU60.Lib OpenU60.Lib.Fallible

/-! ## The factor -/

theorem divCeil_le_iff {a b c : Nat} (hb : 0 < b) : divCeil a b ≤ c ↔ a ≤ c * b := by
  unfold divCeil
  rw [Nat.div_le_iff_le_mul_add_pred hb, Nat.mul_comm]
  omega

theorem lt_divCeil_iff {i a b : Nat} (hb : 0 < b) : i < divCeil a b ↔ i * b < a := by
  rw [← Nat.not_le, divCeil_le_iff hb, Nat.not_le]

/-- The smallest factor that fits. -/
structure Smallest (w h budget f : Nat) : Prop where
  pos : 0 < f
  fits : divCeil w f * divCeil h f ≤ budget
  least : ∀ g, 0 < g → g < f → budget < divCeil w g * divCeil h g

theorem findFactor_spec {w h budget f fuel goal : Nat} (hgoal : divCeil w goal * divCeil h goal ≤ budget) (hle : f ≤ goal)
    (hfuel : goal < f + fuel) : ∃ g, findFactor w h budget fuel f = some g ∧ divCeil w g * divCeil h g ≤ budget ∧ f ≤ g ∧
      ∀ k, f ≤ k → k < g → budget < divCeil w k * divCeil h k := by
  induction fuel generalizing f with
  | zero => omega
  | succ fuel ih =>
    unfold findFactor
    by_cases hfits : divCeil w f * divCeil h f ≤ budget
    · rw [if_pos hfits]
      exact ⟨f, rfl, hfits, Nat.le_refl _, fun k hle hlt => by omega⟩
    · rw [if_neg hfits]
      have hne : f ≠ goal := fun heq => hfits (heq ▸ hgoal)
      obtain ⟨g, hfound, hfits', hlater, hleast⟩ := ih (f := f + 1) (by omega) (by omega)
      refine ⟨g, hfound, hfits', by omega, ?_⟩
      intro k hle hlt
      by_cases hk : k = f
      · rw [hk]
        exact Nat.not_le.mp hfits
      · exact hleast k (by omega) hlt

theorem eight_fits {w h : Nat} (hw : w ≤ maxSide) (hh : h ≤ maxSide) (hpixels : w * h ≤ maxPixels) : divCeil w 8 * divCeil h 8 ≤ 1000000 := by
  have hcols : 8 * divCeil w 8 ≤ w + 7 := Nat.mul_div_le _ _
  have hrows : 8 * divCeil h 8 ≤ h + 7 := Nat.mul_div_le _ _
  have harea : (8 * divCeil w 8) * (8 * divCeil h 8) ≤ (w + 7) * (h + 7) := Nat.mul_le_mul hcols hrows
  have hwhole : (w + 7) * (h + 7) = w * h + 7 * w + 7 * h + 49 := by ring
  have hblocks : (8 * divCeil w 8) * (8 * divCeil h 8) = 64 * (divCeil w 8 * divCeil h 8) := by ring
  unfold maxSide at hw hh
  unfold maxPixels at hpixels
  omega

theorem check_ok {w h : Nat} (hcheck : check w h = .ok ()) : (0 < w ∧ 0 < h) ∧ (w ≤ maxSide ∧ h ≤ maxSide) ∧ w * h ≤ maxPixels := by
  unfold check at hcheck
  split at hcheck
  · cases hcheck
  · split at hcheck
    · cases hcheck
    · rw [not_or] at *
      rw [not_or] at *
      omega

theorem shrinkFactor_spec {w h budget : Nat} (hcheck : check w h = .ok ()) (hbudget : 1000000 ≤ budget) :
    ∃ f, shrinkFactor w h budget = some f ∧ Smallest w h budget f ∧ f ≤ 8 := by
  obtain ⟨⟨hw, hh⟩, ⟨hw', hh'⟩, hpixels⟩ := check_ok hcheck
  have height := Nat.le_trans (eight_fits hw' hh' hpixels) hbudget
  obtain ⟨goal, hgoal, hle, hfuel, hone⟩ : ∃ goal, divCeil w goal * divCeil h goal ≤ budget ∧ goal ≤ 8 ∧ goal ≤ max w h ∧ 1 ≤ goal := by
    by_cases hbig : 8 ≤ max w h
    · exact ⟨8, height, Nat.le_refl _, hbig, by decide⟩
    · -- so few pixels fit as they are
      have hcols : divCeil w 1 = w := by unfold divCeil; omega
      have hrows : divCeil h 1 = h := by unfold divCeil; omega
      refine ⟨1, ?_, by decide, by omega, Nat.le_refl _⟩
      rw [hcols, hrows]
      have harea : w * h ≤ 8 * 8 := Nat.mul_le_mul (by omega) (by omega)
      omega
  obtain ⟨f, hfound, hfits, hpos, hleast⟩ := findFactor_spec hgoal hone (by omega : goal < 1 + max w h)
  refine ⟨f, hfound, ⟨hpos, hfits, hleast⟩, ?_⟩
  by_contra hlate
  have hno := hleast goal hone (by omega)
  omega

/-! ## Samples -/

theorem u32_some {n : Nat} (h : n < 4294967296) : u32 n = some n := if_pos h

theorem minus_some {a b : Nat} (h : b ≤ a) : minus a b = some (a - b) := if_pos h

theorem divided_some {a b : Nat} (h : b ≠ 0) : divided a b = some (a / b) := if_neg h

theorem remainder_some {a b : Nat} (h : b ≠ 0) : remainder a b = some (a % b) := if_neg h

/-- Alpha over white. -/
theorem overWhite {l a : Nat} (hl : l ≤ 255) (ha : a ≤ 255) :
    (do let clear ← minus 255 a; let sum ← u32 (l * a + 255 * clear); some (UInt8.ofNat (sum / 255))) =
      some (UInt8.ofNat ((l * a + 255 * (255 - a)) / 255)) := by
  have hle : l * a ≤ 255 * 255 := Nat.mul_le_mul hl ha
  rw [minus_some ha]
  show (u32 (l * a + 255 * (255 - a)) >>= fun sum => some (UInt8.ofNat (sum / 255))) = _
  rw [u32_some (by omega)]
  rfl

/-- A sample has a grey, whatever its channels. -/
theorem grey_some (p : Bytes) : ∃ g, grey p = some g := by
  unfold grey
  match p with
  | [] => exact ⟨_, overWhite (Nat.le_refl _) (Nat.le_refl _)⟩
  | [l] => exact ⟨_, overWhite (Nat.le_of_lt_succ l.toNat_lt) (Nat.le_refl _)⟩
  | [l, a] => exact ⟨_, overWhite (Nat.le_of_lt_succ l.toNat_lt) (Nat.le_of_lt_succ a.toNat_lt)⟩
  | r :: g :: b :: rest =>
    have hr := r.toNat_lt
    have hg := g.toNat_lt
    have hb := b.toNat_lt
    have ha : (rest.head?.map UInt8.toNat).getD 255 ≤ 255 := by
      cases rest with
      | nil => exact Nat.le_refl _
      | cons a rest => exact Nat.le_of_lt_succ a.toNat_lt
    have hl : (r.toNat * 77 + g.toNat * 150 + b.toNat * 29) / 256 ≤ 255 := by omega
    dsimp only
    rw [u32_some (by omega)]
    exact ⟨_, overWhite hl ha⟩

/-- The grey of a sample. -/
def greyOf (p : Bytes) : Nat := ((grey p).getD 0).toNat

theorem grey_eq (p : Bytes) : grey p = some (UInt8.ofNat (greyOf p)) := by
  obtain ⟨g, hg⟩ := grey_some p
  rw [greyOf, hg, Option.getD_some, UInt8.ofNat_toNat]

theorem greyOf_le (p : Bytes) : greyOf p ≤ 255 := Nat.le_of_lt_succ (UInt8.toNat_lt _)

/-! ## A row -/

/-- The sums of the blocks of a row. -/
def sums (ow : Nat) (a : Nat → Nat) : List Nat := (List.range ow).map a

theorem sums_set {ow i : Nat} (a : Nat → Nat) (v : Nat) : (sums ow a).set i v = sums ow (Function.update a i v) := by
  apply List.ext_getElem
  · simp [sums]
  · intro k hk hk'
    simp only [sums, List.getElem_set, List.getElem_map, List.getElem_range, Function.update_apply]
    by_cases hsame : k = i
    · rw [if_pos hsame.symm, if_pos hsame]
    · rw [if_neg (Ne.symm hsame), if_neg hsame]

/-- What the samples from `x` to `x + n` have in block `i`. -/
def part (f : Nat) (g : Nat → Nat) (x n i : Nat) : Nat := ∑ k ∈ Finset.Ico x (x + n), if k / f = i then g k else 0

theorem part_succ (f : Nat) (g : Nat → Nat) (x n i : Nat) : part f g x (n + 1) i = (if x / f = i then g x else 0) + part f g (x + 1) n i := by
  unfold part
  rw [Finset.sum_eq_sum_Ico_succ_bot (by omega), show x + (n + 1) = x + 1 + n by omega]

theorem addSamples_eq {f ow x : Nat} {a g : Nat → Nat} {samples : List Bytes} (hf : 0 < f) (hin : ∀ k, x ≤ k → k < x + samples.length → k / f < ow)
    (hg : ∀ k (hk : k < samples.length), g (x + k) = greyOf samples[k]) (hsmall : ∀ i, a i + part f g x samples.length i < 4294967296) :
    Shrink.addSamples f x (sums ow a) samples = some (sums ow fun i => a i + part f g x samples.length i) := by
  induction samples generalizing x a with
  | nil =>
    have hnone : ∀ i, part f g x 0 i = 0 := by
      intro i
      unfold part
      rw [Nat.add_zero, Finset.Ico_self, Finset.sum_empty]
    show some (sums ow a) = some (sums ow fun i => a i + part f g x 0 i)
    simp only [hnone, Nat.add_zero]
  | cons p samples ih =>
    have hblock : x / f < ow := hin x (Nat.le_refl _) (by rw [List.length_cons]; omega)
    have hfirst : g x = greyOf p := hg 0 (by rw [List.length_cons]; omega)
    have hnext : ∀ i, Function.update a (x / f) (a (x / f) + greyOf p) i + part f g (x + 1) samples.length i =
        a i + part f g x (p :: samples).length i := by
      intro i
      rw [List.length_cons, part_succ, Function.update_apply]
      by_cases hi : i = x / f
      · rw [if_pos hi, if_pos hi.symm, hi, hfirst, Nat.add_assoc]
      · rw [if_neg hi, if_neg (Ne.symm hi), Nat.zero_add]
    have hsum : a (x / f) + greyOf p < 4294967296 := by
      have hall := hsmall (x / f)
      rw [List.length_cons, part_succ, if_pos rfl, hfirst] at hall
      omega
    have hget : (sums ow a)[x / f]? = some (a (x / f)) := by
      simp [sums, hblock]
    refine (bind_of_eq (divided_some (by omega)) _).trans ?_
    refine (bind_of_eq (grey_eq p) _).trans ?_
    refine (bind_of_eq hget _).trans ?_
    rw [show (UInt8.ofNat (greyOf p)).toNat = greyOf p by have hle := greyOf_le p; rw [UInt8.toNat_ofNat']; omega]
    refine (bind_of_eq (u32_some hsum) _).trans ?_
    rw [sums_set, ih (fun k hlow hhigh => hin k (by omega) (by rw [List.length_cons]; omega)) ?_ fun i => (hnext i).symm ▸ hsmall i]
    · simp only [hnext]
    · intro k hk
      have hlater := hg (k + 1) (by rw [List.length_cons]; omega)
      rw [show x + 1 + k = x + (k + 1) by omega, hlater]
      rfl

/-! ## A block -/

/-- The rows or columns of a block. -/
def side (f n k : Nat) : Finset Nat := (Finset.range n).filter (· / f = k)

/-- The pixels of the big photo that one of the small stands for. -/
def block (f w h j i : Nat) : Finset (Nat × Nat) := side f h j ×ˢ side f w i

theorem side_eq {f : Nat} (hf : 0 < f) (n k : Nat) : side f n k = Finset.Ico (k * f) (min n (k * f + f)) := by
  ext x
  rw [side, Finset.mem_filter, Finset.mem_range, Finset.mem_Ico, Nat.div_eq_iff hf]
  omega

theorem card_side {f n k : Nat} (hf : 0 < f) : (side f n k).card = min (n - k * f) f := by
  rw [side_eq hf, Nat.card_Ico]
  omega

theorem sum_side (f w i : Nat) (g : Nat → Nat) : ∑ x ∈ side f w i, g x = part f g 0 w i := by
  rw [side, Finset.sum_filter, part, Nat.zero_add, Nat.Ico_zero_eq_range]

/-- The mean of a block, rounded down. -/
def mean (f w h : Nat) (g : Nat → Nat → Nat) (j i : Nat) : Nat := (∑ p ∈ block f w h j i, g p.1 p.2) / (block f w h j i).card

theorem mean_eq {f w h : Nat} (hf : 0 < f) (g : Nat → Nat → Nat) (j i : Nat) :
    mean f w h g j i = (∑ y ∈ side f h j, part f (g y) 0 w i) / (min (h - j * f) f * min (w - i * f) f) := by
  unfold mean block
  rw [Finset.sum_product, Finset.card_product, card_side hf, card_side hf]
  simp only [sum_side]

theorem means_eq {f w rows : Nat} (hrows : 0 < rows) (hsmall : rows * f < 4294967296) (hf : 0 < f) (a : Nat → Nat) {i n : Nat}
    (hin : i + n ≤ divCeil w f) : Shrink.means f w rows i ((List.range' i n).map a) =
      some ((List.range' i n).map fun i => UInt8.ofNat (a i / (rows * min (w - i * f) f))) := by
  induction n generalizing i with
  | zero => rfl
  | succ n ih =>
    have hleft : i * f < w := (lt_divCeil_iff hf).mp (by omega)
    have harea : rows * min (w - i * f) f ≤ rows * f := Nat.mul_le_mul_left _ (Nat.min_le_right _ _)
    have hpos : rows * min (w - i * f) f ≠ 0 := Nat.ne_of_gt (Nat.mul_pos hrows (by omega))
    rw [List.range'_succ, List.map_cons, List.map_cons]
    unfold Shrink.means
    refine (bind_of_eq (minus_some (by omega)) _).trans ?_
    refine (bind_of_eq (u32_some (by omega)) _).trans ?_
    refine (bind_of_eq (divided_some hpos) _).trans ?_
    exact bind_of_eq (ih (by omega)) _

theorem part_le {f w : Nat} {g : Nat → Nat} (hg : ∀ x, g x ≤ 255) (i : Nat) : part f g 0 w i ≤ w * 255 := by
  unfold part
  have hle := Finset.sum_le_card_nsmul (Finset.Ico 0 (0 + w)) (fun k => if k / f = i then g k else 0) 255 (by
    intro k _
    split
    · exact hg k
    · exact Nat.zero_le _)
  simpa using hle

/-! ## Row by row -/

/-- Where the block begins that row `y` is in; after the last row none is begun. -/
def start (f h y : Nat) : Nat := if y = h then h else y / f * f

/-- The rows of blocks that are finished. -/
def finished (f h y : Nat) : Nat := if y = h then divCeil h f else y / f

/-- After `y` rows. -/
structure Kept (f w h : Nat) (g : Nat → Nat → Nat) (y : Nat) (s : Shrink) : Prop where
  factor : s.f = f
  width : s.w = w
  height : s.h = h
  acc : s.acc = sums (divCeil w f) fun i => ∑ k ∈ Finset.Ico (start f h y) y, part f (g k) 0 w i
  out : s.out = (List.range (finished f h y)).flatMap fun j => (List.range (divCeil w f)).map fun i => UInt8.ofNat (mean f w h g j i)

variable {f w h y : Nat} {g : Nat → Nat → Nat} {s : Shrink}

/-- The rows of the block that `y` ends. -/
theorem side_start (hf : 0 < f) (hy : y < h) (hend : y % f = f - 1 ∨ y + 1 = h) : side f h (y / f) = Finset.Ico (start f h y) (y + 1) := by
  have hsplit := Nat.div_add_mod' y f
  have hmod := Nat.mod_lt y hf
  rw [side_eq hf, start, if_neg (by omega)]
  congr 1
  omega

theorem start_next_end (hf : 0 < f) (hend : y % f = f - 1 ∨ y + 1 = h) : start f h (y + 1) = y + 1 := by
  unfold start
  split
  · omega
  · have hsplit := Nat.div_add_mod' y f
    have hnext : (y + 1) / f = y / f + 1 := by
      rw [Nat.div_eq_iff hf, Nat.succ_mul]
      omega
    rw [hnext, Nat.succ_mul]
    omega

theorem finished_next_end (hf : 0 < f) (hy : y < h) (hend : y % f = f - 1 ∨ y + 1 = h) : finished f h (y + 1) = y / f + 1 := by
  have hsplit := Nat.div_add_mod' y f
  have hmod := Nat.mod_lt y hf
  unfold finished
  split
  · unfold divCeil
    rw [Nat.div_eq_iff hf, Nat.succ_mul]
    omega
  · rw [Nat.div_eq_iff hf, Nat.succ_mul]
    omega

theorem next_inside (hf : 0 < f) (hinside : ¬ (y % f = f - 1 ∨ y + 1 = h)) : (y + 1) / f = y / f := by
  have hsplit := Nat.div_add_mod' y f
  have hmod := Nat.mod_lt y hf
  rw [Nat.div_eq_iff hf]
  omega

/-- The rows begun are those of less than a block. -/
theorem begun_le (hf : 0 < f) (hy : y < h) : y + 1 - start f h y ≤ f := by
  have hsplit := Nat.div_add_mod' y f
  have hmod := Nat.mod_lt y hf
  rw [start, if_neg (by omega)]
  omega

theorem rows_end (hf : 0 < f) (hy : y < h) (hend : y % f = f - 1 ∨ y + 1 = h) : min (h - y / f * f) f = y % f + 1 := by
  have hsplit := Nat.div_add_mod' y f
  have hmod := Nat.mod_lt y hf
  omega

/-- A row of a photo: at least its pixels, of 1 to 4 channels. -/
structure Row.Wide (row : Row) (w : Nat) : Prop where
  channels : 1 ≤ row.n ∧ row.n ≤ 4
  line : w * row.n ≤ row.line.length

/-- The grey at a place in a row. -/
def Row.greyAt (row : Row) (x : Nat) : Nat := greyOf ((row.line.drop (x * row.n)).take row.n)

theorem Row.Wide.length_samples {row : Row} (h : row.Wide w) : (row.samples.take w).length = w := by
  have hpos := h.channels.1
  have hline := (Nat.le_div_iff_mul_le hpos).mpr h.line
  rw [List.length_take, Row.samples, List.length_map, List.length_range]
  omega

theorem Row.samples_get (row : Row) {k : Nat} (hk : k < (row.samples.take w).length) : greyOf (row.samples.take w)[k] = row.greyAt k := by
  simp [Row.samples, Row.greyAt]

/-- What a block has in its rows so far. -/
theorem sums_row (hy : y < h) (i : Nat) :
    (∑ k ∈ Finset.Ico (start f h y) y, part f (g k) 0 w i) + part f (g y) 0 w i = ∑ k ∈ Finset.Ico (start f h y) (y + 1), part f (g k) 0 w i := by
  have hle : start f h y ≤ y := by
    rw [start, if_neg (by omega)]
    exact Nat.div_mul_le_self y f
  rw [Finset.sum_Ico_succ_top hle]

theorem sums_small (hf : 0 < f) (hf' : f ≤ 8) (hw : w ≤ maxSide) (hy : y < h) (hg : ∀ k x, g k x ≤ 255) (i : Nat) :
    ∑ k ∈ Finset.Ico (start f h y) (y + 1), part f (g k) 0 w i < 4294967296 := by
  have hle := Finset.sum_le_card_nsmul (Finset.Ico (start f h y) (y + 1)) (fun k => part f (g k) 0 w i) (w * 255) fun k _ => part_le (hg k) i
  have hrows := begun_le hf hy
  have htotal : (y + 1 - start f h y) * (w * 255) ≤ 8 * (12000 * 255) := Nat.mul_le_mul (by omega) (Nat.mul_le_mul_right _ hw)
  simp only [Nat.card_Ico, nsmul_eq_mul, Nat.cast_id] at hle
  omega

/-- The last row of a block ends in its means. -/
theorem means_end (hf : 0 < f) (hf' : f ≤ 8) (hy : y < h) (hend : y % f = f - 1 ∨ y + 1 = h) :
    Shrink.means f w (y % f + 1) 0 (sums (divCeil w f) fun i => ∑ k ∈ Finset.Ico (start f h y) (y + 1), part f (g k) 0 w i) =
      some ((List.range (divCeil w f)).map fun i => UInt8.ofNat (mean f w h g (y / f) i)) := by
  have hmod := Nat.mod_lt y hf
  have harea : (y % f + 1) * f ≤ 8 * 8 := Nat.mul_le_mul (by omega) hf'
  have hsmall : (y % f + 1) * f < 4294967296 := Nat.lt_of_le_of_lt harea (by decide)
  unfold sums
  rw [List.range_eq_range', means_eq (Nat.succ_pos _) hsmall hf _ (by omega)]
  simp only [mean_eq hf, side_start hf hy hend, rows_end hf hy hend]

theorem sums_zero (ow : Nat) {a : Nat → Nat} (h : ∀ i, a i = 0) : List.replicate ow 0 = sums ow a := by
  rw [sums, List.map_congr_left fun i _ => h i, List.map_const', List.length_range]

theorem length_sums (ow : Nat) (a : Nat → Nat) : (sums ow a).length = ow := by
  rw [sums, List.length_map, List.length_range]

theorem Kept.row (hk : Kept f w h g y s) (hf : 0 < f) (hf' : f ≤ 8) (hw : w ≤ maxSide) (hy : y < h) (hg : ∀ k x, g k x ≤ 255)
    {row : Row} (hwide : row.Wide w) (hrow : ∀ x, g y x = row.greyAt x) : ∃ s', s.row y row = some s' ∧ Kept f w h g (y + 1) s' := by
  have hadd : Shrink.addSamples f 0 (sums (divCeil w f) fun i => ∑ k ∈ Finset.Ico (start f h y) y, part f (g k) 0 w i) (row.samples.take w) =
      some (sums (divCeil w f) fun i => ∑ k ∈ Finset.Ico (start f h y) (y + 1), part f (g k) 0 w i) := by
    rw [addSamples_eq (g := g y) hf]
    · rw [hwide.length_samples]
      simp only [sums_row hy]
    · intro k _ hlt
      rw [hwide.length_samples, Nat.zero_add] at hlt
      exact (lt_divCeil_iff hf).mpr (Nat.lt_of_le_of_lt (Nat.div_mul_le_self k f) hlt)
    · intro k hlt
      rw [Nat.zero_add, hrow, Row.samples_get]
    · intro i
      rw [hwide.length_samples, sums_row hy]
      exact sums_small hf hf' hw hy hg i
  have hline : remainder y f = some (y % f) := remainder_some (by omega)
  have hlast : minus f 1 = some (f - 1) := minus_some hf
  have hout := hk.out
  rw [finished, if_neg (by omega)] at hout
  unfold Shrink.row
  rw [hk.factor, hk.width, hk.height, hk.acc]
  rw [bind_of_eq hadd, bind_of_eq hline, bind_of_eq hlast]
  by_cases hend : y % f = f - 1 ∨ y + 1 = h
  · rw [if_pos hend, bind_of_eq (means_end hf hf' hy hend)]
    refine ⟨_, rfl, rfl, rfl, rfl, ?_, ?_⟩
    · dsimp only
      rw [length_sums, start_next_end hf hend]
      exact sums_zero _ fun i => by rw [Finset.Ico_self, Finset.sum_empty]
    · dsimp only
      rw [hout, finished_next_end hf hy hend, List.range_succ, List.flatMap_append, List.flatMap_singleton]
  · have hnext := next_inside hf hend
    rw [if_neg hend]
    refine ⟨_, rfl, rfl, rfl, rfl, ?_, ?_⟩
    · dsimp only
      rw [start, start, if_neg (by omega), if_neg (by omega), hnext]
    · dsimp only
      rw [hout, finished, if_neg (by omega), hnext]

theorem Kept.rows {lines : List Row} (hk : Kept f w h g y s) (hf : 0 < f) (hf' : f ≤ 8) (hw : w ≤ maxSide) (hg : ∀ k x, g k x ≤ 255)
    (hlen : y + lines.length = h) (hwide : ∀ row ∈ lines, row.Wide w) (hrows : ∀ k (hk : k < lines.length) x, g (y + k) x = lines[k].greyAt x) :
    ∃ s', s.rows y lines = some s' ∧ Kept f w h g h s' := by
  induction lines generalizing y s with
  | nil =>
    have hy : y = h := hlen
    subst hy
    exact ⟨s, rfl, hk⟩
  | cons row lines ih =>
    rw [List.length_cons] at hlen
    have hfirst : ∀ x, g y x = row.greyAt x := hrows 0 (Nat.succ_pos _)
    obtain ⟨s', hrow, hk'⟩ := hk.row hf hf' hw (by omega) hg (hwide row List.mem_cons_self) hfirst
    obtain ⟨s'', hrest, hk''⟩ := ih hk' (by omega) (fun row hrow => hwide row (List.mem_cons_of_mem _ hrow)) fun k hk x => by
      have hlater := hrows (k + 1) (Nat.succ_lt_succ hk) x
      rw [show y + 1 + k = y + (k + 1) by omega, hlater]
      rfl
    unfold Shrink.rows
    exact ⟨s'', (bind_of_eq hrow _).trans hrest, hk''⟩

/-! ## A photo -/

theorem Kept.new (hh : 0 < h) (g : Nat → Nat → Nat) : Kept f w h g 0 ⟨f, w, h, List.replicate (divCeil w f) 0, []⟩ := by
  refine ⟨rfl, rfl, rfl, ?_, ?_⟩
  · refine sums_zero _ fun i => ?_
    rw [start, if_neg (by omega), Nat.zero_div, Nat.zero_mul, Finset.Ico_self, Finset.sum_empty]
  · rw [finished, if_neg (by omega), Nat.zero_div]
    rfl

/-- Rows of `n` pixels one after another. -/
theorem getElem?_grid {α : Type} {m n j i : Nat} (p : Nat → Nat → α) (hj : j < m) (hi : i < n) :
    ((List.range m).flatMap fun j => (List.range n).map (p j))[j * n + i]? = some (p j i) := by
  have hlen : ∀ m, ((List.range m).flatMap fun j => (List.range n).map (p j)).length = m * n := by
    intro m
    simp [List.length_flatMap]
  induction m with
  | zero => omega
  | succ m ih =>
    rw [List.range_succ, List.flatMap_append, List.flatMap_singleton]
    by_cases hlast : j = m
    · subst hlast
      rw [List.getElem?_append_right (by rw [hlen]; omega), hlen, Nat.add_sub_cancel_left]
      simp [hi]
    · have hbefore : (j + 1) * n ≤ m * n := Nat.mul_le_mul_right n (by omega)
      rw [Nat.succ_mul] at hbefore
      rw [List.getElem?_append_left (by rw [hlen]; omega)]
      exact ih (by omega)

theorem mean_le (hg : ∀ k x, g k x ≤ 255) (j i : Nat) : mean f w h g j i ≤ 255 := by
  have hle := Finset.sum_le_card_nsmul (block f w h j i) (fun p => g p.1 p.2) 255 fun p _ => hg p.1 p.2
  simp only [nsmul_eq_mul, Nat.cast_id] at hle
  exact Nat.div_le_of_le_mul hle

/-- The grey of a photo. -/
def greyIn (lines : List Row) (y x : Nat) : Nat := ((lines[y]?).map (Row.greyAt · x)).getD 0

theorem greyIn_le (lines : List Row) (y x : Nat) : greyIn lines y x ≤ 255 := by
  unfold greyIn
  cases lines[y]? with
  | none => exact Nat.zero_le _
  | some row => exact greyOf_le _

/-- The small photo: a pixel for each block, its mean. -/
structure Scaled (w h f : Nat) (lines : List Row) (small : Grey) : Prop where
  width : small.w = divCeil w f
  height : small.h = divCeil h f
  count : small.px.length = divCeil h f * divCeil w f
  pixel : ∀ j < divCeil h f, ∀ i < divCeil w f, ∃ p, small.px[j * divCeil w f + i]? = some p ∧ p.toNat = mean f w h (greyIn lines) j i

theorem shrunk_spec {w h budget : Nat} {lines : List Row} (hcheck : check w h = .ok ()) (hbudget : 1000000 ≤ budget)
    (hlen : lines.length = h) (hwide : ∀ row ∈ lines, row.Wide w) :
    ∃ f small, Smallest w h budget f ∧ shrunk w h budget lines = some small ∧ Scaled w h f lines small := by
  obtain ⟨f, hfactor, hsmallest, hf'⟩ := shrinkFactor_spec hcheck hbudget
  obtain ⟨⟨hw, hh⟩, ⟨hw', -⟩, -⟩ := check_ok hcheck
  have hf := hsmallest.pos
  have hrows : ∀ k (hk : k < lines.length) x, greyIn lines (0 + k) x = lines[k].greyAt x := by
    intro k hk x
    rw [Nat.zero_add, greyIn, List.getElem?_eq_getElem hk]
    rfl
  obtain ⟨s, hdone, hk⟩ := (Kept.new (f := f) (w := w) hh (greyIn lines)).rows hf hf' hw' (greyIn_le lines) (by omega) hwide hrows
  have hout := hk.out
  rw [finished, if_pos rfl] at hout
  have hcols : 0 < divCeil w f := (lt_divCeil_iff hf).mpr (by omega)
  have hlength : s.out.length = divCeil h f * divCeil w f := by
    rw [hout]
    simp [List.length_flatMap]
  have hacc : s.acc.length = divCeil w f := by rw [hk.acc, length_sums]
  refine ⟨f, ⟨divCeil w f, divCeil h f, s.out⟩, hsmallest, ?_, rfl, rfl, hlength, ?_⟩
  · have hnew : Shrink.new w h budget = some ⟨f, w, h, List.replicate (divCeil w f) 0, []⟩ := bind_of_eq hfactor _
    unfold shrunk
    rw [bind_of_eq hnew, bind_of_eq hdone, Shrink.done, hacc, hlength, bind_of_eq (divided_some (by omega)), Nat.mul_div_cancel _ hcols]
  · intro j hj i hi
    refine ⟨UInt8.ofNat (mean f w h (greyIn lines) j i), ?_, ?_⟩
    · show s.out[_]? = _
      rw [hout]
      exact getElem?_grid (fun j i => UInt8.ofNat (mean f w h (greyIn lines) j i)) hj hi
    · have hle := mean_le (f := f) (w := w) (h := h) (greyIn_le lines) j i
      rw [UInt8.toNat_ofNat']
      omega

end OpenU60.Web.QrDecode
