/-
  OpenU60.Lib.Insertion — ordered insertion at the partition point of a list in descending order.

  - `perm_insertDesc`, `sorted_insertDesc`: the list afterwards.
  - `perm_foldl`, `sorted_foldl`: and after a run of insertions.
-/

import Mathlib

namespace OpenU60.Lib.Insertion

variable {α κ : Type} [LinearOrder κ] {f : α → κ} {a : α} {l : List α}

/-- `slice::partition_point`, for a list whose elements with `p` stand first. -/
def partitionPoint (p : α → Bool) (l : List α) : Nat := (l.takeWhile p).length

/-- After the elements that are greater, before an equal one. -/
def insertDesc (f : α → κ) (a : α) (l : List α) : List α := l.insertIdx (partitionPoint (fun b => f a < f b) l) a

theorem insertIdx_length (init rest : List α) (a : α) : (init ++ rest).insertIdx init.length a = init ++ a :: rest := by
  induction init with
  | nil => cases rest <;> rfl
  | cons b init ih =>
    rw [List.cons_append, List.length_cons, List.insertIdx_succ_cons, ih]
    rfl

theorem insertDesc_eq (f : α → κ) (a : α) (l : List α) :
    insertDesc f a l = l.takeWhile (fun b => f a < f b) ++ a :: l.dropWhile fun b => f a < f b := by
  have hsplit := insertIdx_length (l.takeWhile fun b => f a < f b) (l.dropWhile fun b => f a < f b) a
  rw [List.takeWhile_append_dropWhile] at hsplit
  exact hsplit

theorem perm_insertDesc (f : α → κ) (a : α) (l : List α) : (insertDesc f a l).Perm (a :: l) := by
  rw [insertDesc_eq]
  refine List.perm_middle.trans ?_
  rw [List.takeWhile_append_dropWhile]

theorem le_of_dropWhile (h : l.Pairwise fun b c => f c ≤ f b) : ∀ b ∈ l.dropWhile (fun b => f a < f b), f b ≤ f a := by
  intro b hb
  cases hdrop : l.dropWhile fun b => f a < f b with
  | nil =>
    rw [hdrop] at hb
    cases hb
  | cons c rest =>
    have hsorted : (c :: rest).Pairwise fun b c => f c ≤ f b := hdrop ▸ h.sublist (List.dropWhile_sublist _)
    have hc : f c ≤ f a := by
      have hfirst := List.head_dropWhile_not (fun b => decide (f a < f b)) (l := l) (by rw [hdrop]; exact List.cons_ne_nil _ _)
      simp only [hdrop, List.head_cons, decide_eq_false_iff_not, not_lt] at hfirst
      exact hfirst
    rw [hdrop] at hb
    obtain rfl | hb := List.mem_cons.mp hb
    · exact hc
    · exact le_trans (List.rel_of_pairwise_cons hsorted hb) hc

theorem sorted_insertDesc (h : l.Pairwise fun b c => f c ≤ f b) : (insertDesc f a l).Pairwise fun b c => f c ≤ f b := by
  have hbefore : ∀ b ∈ l.takeWhile (fun b => f a < f b), f a ≤ f b := by
    intro b hb
    have hall := List.all_takeWhile (p := fun b => decide (f a < f b)) (l := l)
    exact le_of_lt (of_decide_eq_true (List.all_eq_true.mp hall b hb))
  have hafter := le_of_dropWhile (a := a) h
  rw [insertDesc_eq, List.pairwise_append]
  refine ⟨h.sublist (List.takeWhile_sublist _), List.pairwise_cons.mpr ⟨hafter, h.sublist (List.dropWhile_sublist _)⟩, ?_⟩
  intro b hb c hc
  obtain rfl | hc := List.mem_cons.mp hc
  · exact hbefore b hb
  · exact le_trans (hafter c hc) (hbefore b hb)

theorem perm_foldl (f : α → κ) (as l : List α) : (as.foldl (fun l a => insertDesc f a l) l).Perm (as ++ l) := by
  induction as generalizing l with
  | nil => exact List.Perm.refl _
  | cons a as ih => exact (ih _).trans (((perm_insertDesc f a l).append_left as).trans List.perm_middle)

theorem sorted_foldl (as : List α) (h : l.Pairwise fun b c => f c ≤ f b) :
    (as.foldl (fun l a => insertDesc f a l) l).Pairwise fun b c => f c ≤ f b := by
  induction as generalizing l with
  | nil => exact h
  | cons a as ih => exact ih (sorted_insertDesc h)

end OpenU60.Lib.Insertion
