/-
  OpenU60.Lib.Regex — regular expressions, and what they find.

  `Matches` is the language of an expression, `Finds` that some part of a text is in it: what `grep` decides of a
  line. The rules take a match apart: `matches_seq`, `matches_alt`, `matches_word`; `.*` matches anything.
-/

import Mathlib

namespace OpenU60.Lib

inductive Regex (α : Type) where
  | empty
  | any
  | char (a : α)
  | seq (p q : Regex α)
  | alt (p q : Regex α)
  | star (p : Regex α)

namespace Regex

variable {α : Type} {p q : Regex α} {u : List α}

inductive Matches : Regex α → List α → Prop
  | empty : Matches .empty []
  | any (a : α) : Matches .any [a]
  | char (a : α) : Matches (.char a) [a]
  | seq {p q : Regex α} {u v : List α} : Matches p u → Matches q v → Matches (.seq p q) (u ++ v)
  | left {p q : Regex α} {u : List α} : Matches p u → Matches (.alt p q) u
  | right {p q : Regex α} {u : List α} : Matches q u → Matches (.alt p q) u
  | done {p : Regex α} : Matches (.star p) []
  | again {p : Regex α} {u v : List α} : Matches p u → Matches (.star p) v → Matches (.star p) (u ++ v)

/-- Some part of the text matches. -/
def Finds (p : Regex α) (text : List α) : Prop := ∃ before u after, text = before ++ u ++ after ∧ Matches p u

/-- The characters of `w`, then `p`. -/
def word (w : List α) (p : Regex α) : Regex α := w.foldr (fun a p => .seq (.char a) p) p

theorem matches_any : Matches .any u ↔ ∃ a, u = [a] := by
  constructor
  · rintro ⟨⟩
    exact ⟨_, rfl⟩
  · rintro ⟨a, rfl⟩
    exact .any a

theorem matches_seq : Matches (.seq p q) u ↔ ∃ v w, u = v ++ w ∧ Matches p v ∧ Matches q w := by
  constructor
  · intro h
    cases h with
    | seq hp hq => exact ⟨_, _, rfl, hp, hq⟩
  · rintro ⟨v, w, rfl, hp, hq⟩
    exact .seq hp hq

theorem matches_alt : Matches (.alt p q) u ↔ Matches p u ∨ Matches q u := by
  constructor
  · intro h
    cases h with
    | left h => exact .inl h
    | right h => exact .inr h
  · rintro (h | h)
    · exact .left h
    · exact .right h

theorem matches_word {w : List α} : Matches (word w p) u ↔ ∃ v, u = w ++ v ∧ Matches p v := by
  induction w generalizing u with
  | nil => exact ⟨fun h => ⟨u, rfl, h⟩, fun ⟨v, hu, h⟩ => by rw [hu]; exact h⟩
  | cons a w ih =>
    show Matches (.seq (.char a) (word w p)) u ↔ _
    rw [matches_seq]
    constructor
    · rintro ⟨_, x, rfl, ⟨⟩, hx⟩
      obtain ⟨v, rfl, hv⟩ := ih.mp hx
      exact ⟨v, rfl, hv⟩
    · rintro ⟨v, rfl, hv⟩
      exact ⟨[a], w ++ v, rfl, .char a, ih.mpr ⟨v, rfl, hv⟩⟩

/-- `.*` matches anything. -/
theorem matches_star_any (u : List α) : Matches (.star .any) u := by
  induction u with
  | nil => exact .done
  | cons a u ih => exact .again (.any a) ih

theorem finds_alt {text : List α} : Finds (.alt p q) text ↔ Finds p text ∨ Finds q text := by
  constructor
  · rintro ⟨before, u, after, htext, h⟩
    rcases matches_alt.mp h with h | h
    · exact .inl ⟨before, u, after, htext, h⟩
    · exact .inr ⟨before, u, after, htext, h⟩
  · rintro (⟨before, u, after, htext, h⟩ | ⟨before, u, after, htext, h⟩)
    · exact ⟨before, u, after, htext, .left h⟩
    · exact ⟨before, u, after, htext, .right h⟩

end Regex

end OpenU60.Lib
