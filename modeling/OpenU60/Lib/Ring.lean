/-
  OpenU60.Lib.Ring — a fixed number of slots written in turn, the oldest first.

  `Follows l`: the ring has been given the elements of `l`, in that order. What it still holds are
  the last ones (`Follows.holds_iff`).
-/

import Mathlib

namespace OpenU60.Lib

structure Ring (α : Type) where
  slots : List (Option α)
  pos : Nat

namespace Ring

variable {α : Type}

def empty (n : Nat) : Ring α := ⟨List.replicate n none, 0⟩

def record (r : Ring α) (x : α) : Ring α := ⟨r.slots.set r.pos (some x), (r.pos + 1) % r.slots.length⟩

def holds [DecidableEq α] (r : Ring α) (x : α) : Bool := some x ∈ r.slots

/-- The slots in the order in which they will be overwritten. -/
def inOrder (r : Ring α) : List (Option α) := r.slots.rotate r.pos

variable {r : Ring α} {l : List α} {n : Nat}

theorem inOrder_record (h : r.pos < r.slots.length) (x : α) : (r.record x).inOrder = r.inOrder.tail ++ [some x] := by
  obtain ⟨slots, pos⟩ := r
  obtain ⟨before, y, after, rfl, rfl⟩ : ∃ before y after, slots = before ++ y :: after ∧ pos = before.length := by
    refine ⟨slots.take pos, slots.get ⟨pos, h⟩, slots.drop (pos + 1), ?_, ?_⟩
    · rw [List.get_eq_getElem, ← List.drop_eq_getElem_cons h, List.take_append_drop]
    · rw [List.length_take, Nat.min_eq_left (Nat.le_of_lt h)]
  unfold inOrder record
  dsimp only
  have hset : (before ++ y :: after).set before.length (some x) = (before ++ [some x]) ++ after := by
    rw [List.set_append_right _ _ (Nat.le_refl _), Nat.sub_self, List.set_cons_zero, List.append_assoc]
    rfl
  have hlen : (before ++ y :: after).length = (before ++ [some x] ++ after).length := by simp
  rw [hset, hlen, List.rotate_mod, List.rotate_append_length_eq]
  have hpos : before.length + 1 = (before ++ [some x]).length := by simp
  rw [hpos, List.rotate_append_length_eq]
  simp

/-- The ring of `n` slots has been given `l`. -/
structure Follows (n : Nat) (l : List α) (r : Ring α) : Prop where
  size : r.slots.length = n
  pos_lt : r.pos < n
  order : r.inOrder = (List.replicate n none ++ l.map some).drop l.length

theorem follows_empty (h : 0 < n) : (empty n : Ring α).Follows n [] where
  size := List.length_replicate
  pos_lt := h
  order := by simp [inOrder, empty]

theorem Follows.record (h : r.Follows n l) (x : α) : (r.record x).Follows n (l ++ [x]) where
  size := by rw [Ring.record, List.length_set, h.size]
  pos_lt := by
    show (r.pos + 1) % r.slots.length < n
    rw [h.size]
    exact Nat.mod_lt _ (Nat.zero_lt_of_lt h.pos_lt)
  order := by
    rw [inOrder_record (by rw [h.size]; exact h.pos_lt), h.order, List.tail_drop, List.map_append, ← List.append_assoc,
      List.length_append, List.length_singleton]
    refine (List.drop_append_of_le_length ?_).symm
    have := h.pos_lt
    simp
    omega

/-- The ring holds the last `n` elements it was given. -/
theorem Follows.holds_iff [DecidableEq α] (h : r.Follows n l) {x : α} : r.holds x = true ↔ x ∈ l.drop (l.length - n) := by
  have hmem : some x ∈ r.slots ↔ some x ∈ (List.replicate n none ++ l.map some).drop l.length := by
    rw [← h.order, inOrder, List.mem_rotate]
  rw [holds, decide_eq_true_iff, hmem, List.drop_append, List.drop_replicate, List.length_replicate, ← List.map_drop, List.mem_append]
  constructor
  · rintro (hx | hx)
    · cases (List.mem_replicate.mp hx).2
    · obtain ⟨y, hy, hxy⟩ := List.mem_map.mp hx
      rwa [← Option.some.inj hxy]
  · exact fun hx => .inr (List.mem_map_of_mem hx)

end Ring

end OpenU60.Lib
