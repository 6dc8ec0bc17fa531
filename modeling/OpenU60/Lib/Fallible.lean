/-
  OpenU60.Lib.Fallible — computations that may fail (`Option`), one step at a time.

  `simp` takes apart all of a nest of steps at once; these take the first.
-/

import Mathlib

namespace OpenU60.Lib.Fallible

variable {α β : Type} {o : Option α} {a : α} {b : β}

theorem bind_of_eq (h : o = some a) (f : α → Option β) : (o >>= f) = f a := by
  rw [h]
  rfl

theorem of_bind {f : α → Option β} (h : (o >>= f) = some b) : ∃ a, o = some a ∧ f a = some b :=
  Option.bind_eq_some_iff.mp h

/-- What cannot fail after a step succeeds when it does. -/
theorem exists_bind_pure {f : α → β} : (∃ b, (o >>= fun a => some (f a)) = some b) ↔ ∃ a, o = some a := by
  cases o with
  | none => exact iff_of_false (fun ⟨_, h⟩ => nomatch h) (fun ⟨_, h⟩ => nomatch h)
  | some a => exact iff_of_true ⟨f a, rfl⟩ ⟨a, rfl⟩

end OpenU60.Lib.Fallible
