/-
  OpenU60.Lib.History — properties of what a run has put on record, in order.

  `Guarded Q past l`: every element of `l` stands where `Q` allows it, given all that is
  before it (`past`, then what precedes it in `l`). A step that appends a few elements
  has to answer for those alone (`guarded_append`); an element `Q` allows anywhere needs
  no argument at all (`guarded_of_free`).

  `Since p q l`: an element stands where `p` allows it and everything after it is in `q`; a
  new element either begins that or keeps it up (`since_snoc`). `sinceLast r l`: what comes
  after the last element in `r`.
-/

import Mathlib

namespace OpenU60.Lib.History

variable {α : Type}

def Guarded (Q : List α → α → Prop) : List α → List α → Prop
  | _, [] => True
  | past, x :: xs => Q past x ∧ Guarded Q (past ++ [x]) xs

instance decidableGuarded (Q : List α → α → Prop) [∀ past x, Decidable (Q past x)] :
    ∀ past l : List α, Decidable (Guarded Q past l)
  | _, [] => .isTrue trivial
  | past, x :: xs => @instDecidableAnd _ _ inferInstance (decidableGuarded Q (past ++ [x]) xs)

/-- A split of a record that has grown by one. -/
theorem snoc_split {l before after : List α} {x y : α} (h : l ++ [y] = before ++ x :: after) :
    (l = before ∧ y = x ∧ after = []) ∨ ∃ rest, after = rest ++ [y] ∧ l = before ++ x :: rest := by
  rcases List.eq_nil_or_concat after with rfl | ⟨rest, z, rfl⟩
  · obtain ⟨rfl, hx⟩ := List.append_inj' h rfl
    exact .inl ⟨rfl, (List.cons.inj hx).1, rfl⟩
  · rw [List.concat_eq_append, ← List.cons_append, ← List.append_assoc] at h
    obtain ⟨rfl, hx⟩ := List.append_inj' h rfl
    exact .inr ⟨rest, by rw [List.concat_eq_append, (List.cons.inj hx).1], rfl⟩

variable {Q : List α → α → Prop}

theorem guarded_append {past l m : List α} : Guarded Q past (l ++ m) ↔ Guarded Q past l ∧ Guarded Q (past ++ l) m := by
  induction l generalizing past with
  | nil => simp [Guarded]
  | cons x xs ih => simp only [List.cons_append, Guarded, ih, and_assoc, List.append_assoc, List.nil_append]

theorem guarded_of_free {past l : List α} (h : ∀ x ∈ l, ∀ past, Q past x) : Guarded Q past l := by
  induction l generalizing past with
  | nil => trivial
  | cons x xs ih => exact ⟨h x (List.mem_cons_self ..) past, ih fun y hy => h y (List.mem_cons_of_mem _ hy)⟩

/-- The same read off a split of the record. -/
theorem guarded_iff {past l : List α} :
    Guarded Q past l ↔ ∀ before x after, l = before ++ x :: after → Q (past ++ before) x := by
  constructor
  · rintro h before x after rfl
    exact (guarded_append.mp h).2.1
  · intro h
    induction l generalizing past with
    | nil => trivial
    | cons x xs ih =>
      refine ⟨by simpa using h [] x xs rfl, ih fun before y after e => ?_⟩
      simpa using h (x :: before) y after (by rw [e]; rfl)

/-! ## Since -/

section

def Since (p : List α → α → Prop) (q : α → Prop) (l : List α) : Prop :=
  ∃ before x after, l = before ++ x :: after ∧ p before x ∧ ∀ y ∈ after, q y

variable {p p' : List α → α → Prop} {q q' : α → Prop} {l : List α} {x : α}

@[simp] theorem not_since_nil : ¬ Since p q [] := by
  rintro ⟨before, x, after, h, -, -⟩
  simp at h

theorem since_snoc : Since p q (l ++ [x]) ↔ p l x ∨ Since p q l ∧ q x := by
  constructor
  · rintro ⟨before, y, after, h, hp, hq⟩
    rcases snoc_split h with ⟨rfl, rfl, rfl⟩ | ⟨rest, rfl, rfl⟩
    · exact .inl hp
    · exact .inr ⟨⟨before, y, rest, rfl, hp, fun w hw => hq w (by simp [hw])⟩, hq _ (by simp)⟩
  · rintro (hp | ⟨⟨before, y, after, rfl, hp, hq⟩, hx⟩)
    · exact ⟨l, x, [], rfl, hp, nofun⟩
    · refine ⟨before, y, after ++ [x], by simp, hp, fun w hw => ?_⟩
      rcases List.mem_append.mp hw with hw | hw
      · exact hq w hw
      · rw [List.mem_singleton.mp hw]
        exact hx

theorem since_cons :
    Since p q (x :: l) ↔ (p [] x ∧ ∀ y ∈ l, q y) ∨ Since (fun before => p (x :: before)) q l := by
  constructor
  · rintro ⟨before, y, after, h, hp, hq⟩
    cases before with
    | nil =>
      cases h
      exact .inl ⟨hp, hq⟩
    | cons z before =>
      cases h
      exact .inr ⟨before, y, after, rfl, hp, hq⟩
  · rintro (⟨hp, hq⟩ | ⟨before, y, after, rfl, hp, hq⟩)
    · exact ⟨[], x, l, rfl, hp, hq⟩
    · exact ⟨x :: before, y, after, rfl, hp, hq⟩

instance decidableSince (q : α → Prop) [∀ x, Decidable (q x)] :
    ∀ (p : List α → α → Prop) [∀ past x, Decidable (p past x)] (l : List α), Decidable (Since p q l)
  | _, _, [] => .isFalse not_since_nil
  | p, _, x :: l =>
    have := decidableSince q (fun before => p (x :: before)) l
    decidable_of_iff' _ since_cons

theorem Since.mono (hp : ∀ l x, p l x → p' l x) (hq : ∀ x, q x → q' x) (h : Since p q l) : Since p' q' l := by
  obtain ⟨before, x, after, rfl, hx, hafter⟩ := h
  exact ⟨before, x, after, rfl, hp _ _ hx, fun y hy => hq y (hafter y hy)⟩

theorem since_of_append {p : α → Prop} {m : List α} (hm : ∀ x ∈ m, ¬ p x) (h : Since (fun _ => p) q (l ++ m)) :
    Since (fun _ => p) q l := by
  induction m using List.reverseRecOn with
  | nil => simpa using h
  | append_singleton m x ih =>
    rw [← List.append_assoc, since_snoc] at h
    rcases h with hx | ⟨h, -⟩
    · exact absurd hx (hm x (by simp))
    · exact ih (fun y hy => hm y (List.mem_append_left _ hy)) h

def sinceLast (r : α → Bool) (l : List α) : List α := (l.reverse.takeWhile fun x => !r x).reverse

variable {r : α → Bool}

theorem sinceLast_snoc : sinceLast r (l ++ [x]) = if r x then [] else sinceLast r l ++ [x] := by
  unfold sinceLast
  rw [List.reverse_append, List.reverse_singleton, List.singleton_append, List.takeWhile_cons]
  by_cases hr : r x <;> simp [hr]

/-- A stretch without an element of `r` up to the end lies after the last one. -/
theorem suffix_sinceLast {before after : List α} (h : ∀ x ∈ after, r x = false) :
    after <:+ sinceLast r (before ++ after) := by
  induction after using List.reverseRecOn with
  | nil => exact List.nil_suffix
  | append_singleton after x ih =>
    rw [← List.append_assoc, sinceLast_snoc, if_neg (by rw [h x (by simp)]; exact Bool.false_ne_true)]
    obtain ⟨t, ht⟩ := ih fun y hy => h y (List.mem_append_left _ hy)
    exact ⟨t, by rw [← List.append_assoc, ht]⟩

theorem sinceLast_append {m : List α} (h : ∀ x ∈ m, r x = false) : sinceLast r (l ++ m) = sinceLast r l ++ m := by
  induction m using List.reverseRecOn with
  | nil => simp
  | append_singleton m x ih =>
    have hx : r x = false := h x (by simp)
    rw [← List.append_assoc, sinceLast_snoc, if_neg (by rw [hx]; exact Bool.false_ne_true),
      ih fun y hy => h y (List.mem_append_left _ hy), List.append_assoc]

/-- Nothing of `c` comes after the last element in `r`, so one in `c` has an element in `r` after it. -/
theorem exists_after {before after : List α} {c : α → Bool} (hc : c x = true) (hx : r x = false)
    (h : (sinceLast r (before ++ x :: after)).countP c = 0) : ∃ y ∈ after, r y = true := by
  by_contra hno
  have hfree : ∀ y ∈ x :: after, r y = false := by
    intro y hy
    rcases List.mem_cons.mp hy with rfl | hy
    · exact hx
    · exact Bool.eq_false_iff.mpr fun hr => hno ⟨y, hy, hr⟩
  have hmem : x ∈ sinceLast r (before ++ x :: after) := (suffix_sinceLast hfree).subset (List.mem_cons_self ..)
  exact absurd hc (List.countP_eq_zero.mp h x hmem)

theorem since_of_countP {c : α → Bool} (hmem : ∃ x ∈ l, r x = true) (h : (sinceLast r l).countP c = 0) :
    Since (fun _ x => r x = true) (fun y => c y = false) l := by
  induction l using List.reverseRecOn with
  | nil => simp at hmem
  | append_singleton l x ih =>
    rw [since_snoc]
    by_cases hx : r x = true
    · exact .inl hx
    · obtain ⟨y, hy, hr⟩ := hmem
      have hyl : y ∈ l := by
        rcases List.mem_append.mp hy with hy | hy
        · exact hy
        · exact absurd (List.mem_singleton.mp hy ▸ hr) hx
      rw [sinceLast_snoc, if_neg hx, List.countP_append] at h
      refine .inr ⟨ih ⟨y, hyl, hr⟩ (by omega), ?_⟩
      have hcx : [x].countP c = 0 := by omega
      simpa using hcx

theorem countP_sinceLast (before : List α) {after : List α} (c : α → Bool) (h : ∀ x ∈ after, r x = false) :
    after.countP c ≤ (sinceLast r (before ++ after)).countP c := (suffix_sinceLast h).sublist.countP_le

end

end OpenU60.Lib.History
