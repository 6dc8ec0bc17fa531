/-
  OpenU60.Lib.Vec — a vector's `swap_remove`, and the first of its smallest elements.
-/

import Mathlib

namespace OpenU60.Lib.Vec

variable {α : Type}

/-- The element at `i` goes; the last one takes its place. -/
def swapRemove (l : List α) (i : Nat) : List α :=
  match l.getLast? with
  | some x => (l.set i x).dropLast
  | none => []

/-- The first element with the smallest key, and where it is. -/
def firstMin (key : α → Nat) : List α → Option (Nat × α)
  | [] => none
  | x :: xs =>
    match firstMin key xs with
    | none => some (0, x)
    | some (i, y) => if key x ≤ key y then some (0, x) else some (i + 1, y)

variable {l : List α} {i : Nat}

theorem length_swapRemove (l : List α) (i : Nat) : (swapRemove l i).length = l.length - 1 := by
  unfold swapRemove
  split
  · simp
  · rename_i h
    rw [List.getLast?_eq_none_iff.mp h]
    rfl

/-- What stands before the element stays where it is. -/
theorem swapRemove_append (before : List α) (x : α) (after : List α) :
    ∃ after', swapRemove (before ++ x :: after) before.length = before ++ after' ∧ after'.Perm after := by
  rcases List.eq_nil_or_concat after with rfl | ⟨init, y, rfl⟩
  · refine ⟨[], ?_, List.Perm.refl _⟩
    simp [swapRemove]
  · rw [List.concat_eq_append]
    refine ⟨y :: init, ?_, (List.perm_append_singleton y init).symm⟩
    unfold swapRemove
    have hlast : (before ++ x :: (init ++ [y])).getLast? = some y := by
      rw [← List.cons_append, ← List.append_assoc, List.getLast?_append, List.getLast?_singleton, Option.some_or]
    rw [hlast]
    dsimp only
    rw [List.set_append_right _ _ (Nat.le_refl _), Nat.sub_self, List.set_cons_zero, ← List.cons_append, ← List.append_assoc,
      List.dropLast_concat]

/-- Up to order the element is simply gone. -/
theorem swapRemove_perm (h : i < l.length) : (swapRemove l i).Perm (l.eraseIdx i) := by
  have hsplit : l = l.take i ++ l[i] :: l.drop (i + 1) := by rw [← List.drop_eq_getElem_cons h, List.take_append_drop]
  obtain ⟨after, hswap, hperm⟩ := swapRemove_append (l.take i) l[i] (l.drop (i + 1))
  rw [← hsplit, List.length_take, Nat.min_eq_left (Nat.le_of_lt h)] at hswap
  rw [hswap, List.eraseIdx_eq_take_drop_succ]
  exact List.Perm.append_left _ hperm

theorem swapRemove_subperm (l : List α) (i : Nat) : (swapRemove l i).Subperm l := by
  by_cases h : i < l.length
  · exact ⟨l.eraseIdx i, (swapRemove_perm h).symm, List.eraseIdx_sublist l i⟩
  · unfold swapRemove
    split
    · rw [List.set_eq_of_length_le (by omega)]
      exact (List.dropLast_sublist l).subperm
    · exact List.nil_subperm

theorem nodup_map_of_subperm {β : Type} {f : α → β} {m : List α} (h : m.Subperm l) (hn : (l.map f).Nodup) : (m.map f).Nodup := by
  obtain ⟨m', hperm, hsub⟩ := h
  exact (hperm.map f).nodup_iff.mp (hn.sublist (hsub.map f))

theorem firstMin_some {key : α → Nat} {x : α} (h : firstMin key l = some (i, x)) :
    l[i]? = some x ∧ ∀ y ∈ l, key x ≤ key y := by
  induction l generalizing i x with
  | nil => cases h
  | cons a as ih =>
    unfold firstMin at h
    split at h
    · rename_i hnone
      cases h
      cases as with
      | nil => simp
      | cons b bs =>
        unfold firstMin at hnone
        split at hnone
        · cases hnone
        · split at hnone <;> cases hnone
    · rename_i j y hsome
      obtain ⟨hget, hmin⟩ := ih hsome
      split at h
      · rename_i hle
        cases h
        refine ⟨rfl, fun z hz => ?_⟩
        rcases List.mem_cons.mp hz with rfl | hz
        · exact Nat.le_refl _
        · exact Nat.le_trans hle (hmin z hz)
      · rename_i hlt
        cases h
        refine ⟨hget, fun z hz => ?_⟩
        rcases List.mem_cons.mp hz with rfl | hz
        · omega
        · exact hmin z hz

theorem firstMin_isSome (key : α → Nat) (h : l ≠ []) : (firstMin key l).isSome = true := by
  cases l with
  | nil => exact absurd rfl h
  | cons a as =>
    unfold firstMin
    split
    · rfl
    · split <;> rfl

end OpenU60.Lib.Vec
