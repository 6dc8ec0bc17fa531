/-
  OpenU60.Lib.Window — logs of timed entries of several kinds, and how many of a kind fall
  in a window of time.

  `since k a xs` counts the entries of kind `k` at or after `a`, `during k a d xs` those in
  the window of length `d` from `a`.
  - `Capped.snoc` (the rule of a sliding-window limit): entries that are added only where
    fewer than `cap` of their kind lie in the last `d` never put more than `cap` of a kind
    in any window of length `d`;
  - `Covers`: a log that stands in for another, entry for entry no earlier, so that a
    limit checked against it is a limit on the other (`Covers.since_lt`).
-/

import Mathlib

namespace OpenU60.Lib.Window

variable {κ : Type} [DecidableEq κ]

def since (k : κ) (a : Int) (xs : List (κ × Int)) : Nat := xs.countP fun x => decide (x.1 = k ∧ a ≤ x.2)

def during (k : κ) (a d : Int) (xs : List (κ × Int)) : Nat := xs.countP fun x => decide (x.1 = k ∧ a ≤ x.2 ∧ x.2 < a + d)

theorem since_append (k : κ) (a : Int) (xs ys : List (κ × Int)) : since k a (xs ++ ys) = since k a xs + since k a ys :=
  List.countP_append

theorem during_append (k : κ) (a d : Int) (xs ys : List (κ × Int)) :
    during k a d (xs ++ ys) = during k a d xs + during k a d ys := List.countP_append

theorem during_single (k : κ) (a d : Int) (x : κ × Int) :
    during k a d [x] = if x.1 = k ∧ a ≤ x.2 ∧ x.2 < a + d then 1 else 0 := by
  simp [during, List.countP_singleton]

theorem during_le_since (k : κ) (a d : Int) (xs : List (κ × Int)) : during k a d xs ≤ since k a xs :=
  List.countP_mono_left fun x _ h => by
    simp only [decide_eq_true_eq] at h ⊢
    exact ⟨h.1, h.2.1⟩

/-! ## Limits -/

/-- At most `cap` entries of kind `k` in any window of length `d`. -/
def Capped (k : κ) (d : Int) (cap : Nat) (xs : List (κ × Int)) : Prop := ∀ a, during k a d xs ≤ cap

theorem Capped.nil (k : κ) (d : Int) (cap : Nat) : Capped k d cap [] := fun _ => Nat.zero_le cap

variable {xs : List (κ × Int)}

theorem Capped.snoc {k : κ} {d : Int} {cap : Nat} (h : Capped k d cap xs) (x : κ × Int)
    (hx : x.1 = k → ∀ a, x.2 - d < a → since k a xs < cap) : Capped k d cap (xs ++ [x]) := by
  intro a
  rw [during_append, during_single]
  split
  · next hin =>
    -- the window of the new entry lies in the last `d` before it
    have hlt := hx hin.1 a (by omega)
    have hle := during_le_since k a d xs
    omega
  · exact h a

/-! ## Stand-ins -/

/-- From `from'` on, `ys` has as many entries of each kind in `ks` as `xs`. -/
def Covers (ks : κ → Prop) (from' : Int) (xs ys : List (κ × Int)) : Prop :=
  ∀ k, ks k → ∀ a, from' < a → since k a xs ≤ since k a ys

theorem Covers.refl (ks : κ → Prop) (from' : Int) (xs : List (κ × Int)) : Covers ks from' xs xs := fun _ _ _ _ => le_rfl

variable {ks : κ → Prop} {from' : Int}

theorem Covers.trans {xs ys zs : List (κ × Int)} (h : Covers ks from' xs ys)
    (h' : Covers ks from' ys zs) : Covers ks from' xs zs := fun k hk a ha => (h k hk a ha).trans (h' k hk a ha)

variable {ys : List (κ × Int)}

theorem Covers.later {b c : Int} (h : Covers ks b xs ys) (hbc : b ≤ c) :
    Covers ks c xs ys := fun k hk a ha => h k hk a (by omega)

theorem Covers.append {xs ys xs' ys' : List (κ × Int)} (h : Covers ks from' xs ys)
    (h' : Covers ks from' xs' ys') : Covers ks from' (xs ++ xs') (ys ++ ys') := by
  intro k hk a ha
  rw [since_append, since_append]
  exact Nat.add_le_add (h k hk a ha) (h' k hk a ha)

/-- Nothing of the first log is later than `from'`. -/
theorem Covers.of_old (h : ∀ x ∈ xs, ks x.1 → x.2 ≤ from')
    (ys : List (κ × Int)) : Covers ks from' xs ys := by
  intro k hk a ha
  have hzero : since k a xs = 0 := by
    refine List.countP_eq_zero.mpr fun x hx hin => ?_
    simp only [decide_eq_true_eq] at hin
    have := h x hx (hin.1 ▸ hk)
    omega
  omega

/-- Dropping only what is too old to count. -/
theorem Covers.filter {α : Type} {l : List α} {f : α → κ × Int} {p : α → Bool}
    (h : ∀ x ∈ l, ks (f x).1 → from' < (f x).2 → p x) : Covers ks from' (l.map f) ((l.filter p).map f) := by
  intro k hk a ha
  unfold since
  rw [List.countP_map, List.countP_map, List.countP_filter]
  refine List.countP_mono_left fun x hx hin => ?_
  simp only [Function.comp_apply, decide_eq_true_eq, Bool.and_eq_true] at hin ⊢
  exact ⟨hin, h x hx (hin.1 ▸ hk) (by omega)⟩

/-- The same entries, none of them earlier. -/
theorem Covers.map {α : Type} {l : List α} {f g : α → κ × Int} (hk : ∀ x ∈ l, (g x).1 = (f x).1)
    (ht : ∀ x ∈ l, ks (f x).1 → from' < (f x).2 → (f x).2 ≤ (g x).2) : Covers ks from' (l.map f) (l.map g) := by
  intro k hks a ha
  unfold since
  rw [List.countP_map, List.countP_map]
  refine List.countP_mono_left fun x hx hin => ?_
  simp only [Function.comp_apply, decide_eq_true_eq] at hin ⊢
  have := ht x hx (hin.1 ▸ hks) (by omega)
  exact ⟨(hk x hx).trans hin.1, by omega⟩

theorem Covers.since_lt (h : Covers ks from' xs ys) {k : κ}
    (hk : ks k) {cap : Nat} {a : Int} (ha : from' < a) (hlt : since k a ys < cap) : since k a xs < cap :=
  lt_of_le_of_lt (h k hk a ha) hlt

end OpenU60.Lib.Window
