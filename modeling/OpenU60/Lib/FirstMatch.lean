/-
  OpenU60.Lib.FirstMatch — the first element of a list that a test picks.

  `updateFirst` edits it (`iter_mut().find(..)` followed by an assignment); its lemmas
  say which elements an edited list has, that the others stay, and that a projection the
  edit does not touch is unchanged. `distinctBy` keeps the first element of each key (a
  loop that pushes what a `seen` set takes in): its keys are distinct, and what it keeps
  of a key is what a search for the key finds. Where the keys differ anyway, a lookup, an edit and
  an erasure do not depend on the order (`find?_perm`, `updateFirst_eq_map`, `eraseP_eq_filter`).
-/

import Mathlib

namespace OpenU60.Lib.FirstMatch

variable {α β : Type}

def updateFirst (p : α → Bool) (f : α → α) : List α → List α
  | [] => []
  | a :: as => if p a then f a :: as else a :: updateFirst p f as

variable {p : α → Bool} {f : α → α} {l : List α}

theorem updateFirst_none (h : l.find? p = none) :
    updateFirst p f l = l := by
  induction l with
  | nil => rfl
  | cons a as ih =>
    simp only [List.find?_cons] at h
    split at h
    · cases h
    · rename_i hp; simp only [updateFirst, hp, Bool.false_eq_true, if_false, ih h]

variable {a : α}

/-- Where the edit happens: after elements the test refuses, at the one it picks. -/
theorem updateFirst_split (h : l.find? p = some a) :
    ∃ l₁ l₂, l = l₁ ++ a :: l₂ ∧ (∀ x ∈ l₁, p x = false) ∧ p a = true ∧
      ∀ f : α → α, updateFirst p f l = l₁ ++ f a :: l₂ := by
  induction l with
  | nil => cases h
  | cons b bs ih =>
    simp only [List.find?_cons] at h
    split at h
    · rename_i hp
      cases h
      exact ⟨[], bs, rfl, by simp, hp, fun f => by simp [updateFirst, hp]⟩
    · rename_i hp
      obtain ⟨l₁, l₂, hl, hno, ha, hf⟩ := ih h
      refine ⟨b :: l₁, l₂, by rw [hl]; rfl, ?_, ha, fun f => by simp [updateFirst, hp, hf]⟩
      intro x hx
      rcases List.mem_cons.mp hx with rfl | hx
      · exact hp
      · exact hno x hx

theorem mem_updateFirst {x : α} (h : x ∈ updateFirst p f l) :
    x ∈ l ∨ ∃ a, l.find? p = some a ∧ x = f a := by
  cases hf : l.find? p with
  | none => rw [updateFirst_none hf] at h; exact Or.inl h
  | some a =>
    obtain ⟨l₁, l₂, hl, -, -, hu⟩ := updateFirst_split hf
    rw [hu] at h
    rcases List.mem_append.mp h with h | h
    · exact Or.inl (hl ▸ List.mem_append_left _ h)
    · rcases List.mem_cons.mp h with rfl | h
      · exact Or.inr ⟨a, rfl, rfl⟩
      · exact Or.inl (hl ▸ List.mem_append_right _ (List.mem_cons_of_mem _ h))

/-- What the test refuses stays. -/
theorem mem_updateFirst_of_not {x : α} (h : x ∈ l) (hp : p x = false) :
    x ∈ updateFirst p f l := by
  induction l with
  | nil => cases h
  | cons a as ih =>
    simp only [updateFirst]
    rcases List.mem_cons.mp h with rfl | h
    · simp [hp]
    · split
      · exact List.mem_cons_of_mem _ h
      · exact List.mem_cons_of_mem _ (ih h)

/-- An edit loses nothing but the element it picks. -/
theorem mem_updateFirst_or {x : α} (h : x ∈ l) :
    x ∈ updateFirst p f l ∨ l.find? p = some x := by
  cases hf : l.find? p with
  | none => rw [updateFirst_none hf]; exact Or.inl h
  | some a =>
    obtain ⟨l₁, l₂, rfl, -, -, hu⟩ := updateFirst_split hf
    rw [hu]
    rcases List.mem_append.mp h with h | h
    · exact Or.inl (List.mem_append_left _ h)
    · rcases List.mem_cons.mp h with rfl | h
      · exact Or.inr rfl
      · exact Or.inl (List.mem_append_right _ (List.mem_cons_of_mem _ h))

theorem mem_updateFirst_self (h : l.find? p = some a) :
    f a ∈ updateFirst p f l := by
  obtain ⟨l₁, l₂, -, -, -, hu⟩ := updateFirst_split h
  rw [hu]
  exact List.mem_append_right _ (List.mem_cons_self ..)

theorem map_updateFirst {g : α → β} (hg : ∀ a, p a = true → g (f a) = g a) (l : List α) :
    (updateFirst p f l).map g = l.map g := by
  induction l with
  | nil => rfl
  | cons a as ih =>
    simp only [updateFirst]
    split
    · simp [hg a ‹_›]
    · simp [ih]

/-- Where the key picks one element, the edit is a map. -/
theorem updateFirst_eq_map [DecidableEq β] {key : α → β} {k : β} (hl : (l.map key).Nodup) :
    updateFirst (fun a => key a == k) f l = l.map fun a => if key a = k then f a else a := by
  induction l with
  | nil => rfl
  | cons a as ih =>
    rw [List.map_cons, List.nodup_cons] at hl
    by_cases ha : key a = k
    · have hrest : as.map (fun b => if key b = k then f b else b) = as := by
        rw [List.map_congr_left, List.map_id]
        intro b hb
        have hne : key b ≠ k := fun e => hl.1 (by rw [ha, ← e]; exact List.mem_map_of_mem hb)
        simp [hne]
      simp [updateFirst, ha, hrest]
    · simp [updateFirst, ha, ih hl.2]

/-- And what is gathered under one key comes from one element. -/
theorem flatMap_of_key [DecidableEq β] {γ : Type} {key : α → β} {f : α → List γ}
    (hl : (l.map key).Nodup) (ha : a ∈ l) : (l.flatMap fun b => if key b = key a then f b else []) = f a := by
  induction l with
  | nil => cases ha
  | cons b bs ih =>
    rw [List.map_cons, List.nodup_cons] at hl
    rw [List.flatMap_cons]
    rcases List.mem_cons.mp ha with rfl | ha
    · have hrest : (bs.flatMap fun c => if key c = key a then f c else []) = [] := by
        rw [List.flatMap_eq_nil_iff]
        intro c hc
        have hne : key c ≠ key a := fun e => hl.1 (e ▸ List.mem_map_of_mem hc)
        simp [hne]
      simp [hrest]
    · have hne : key b ≠ key a := fun e => hl.1 (e ▸ List.mem_map_of_mem ha)
      simp [hne, ih hl.2 ha]

@[simp] theorem length_updateFirst (p : α → Bool) (f : α → α) (l : List α) :
    (updateFirst p f l).length = l.length := by
  simpa using congrArg List.length (map_updateFirst (g := fun _ => ()) (p := p) (f := f) (fun _ _ => rfl) l)

/-- An edit of one element changes a count by one at most. -/
theorem countP_updateFirst_le (p q : α → Bool) (f : α → α) (l : List α) :
    l.countP q ≤ (updateFirst p f l).countP q + 1 := by
  induction l with
  | nil => exact Nat.zero_le _
  | cons a as ih =>
    by_cases hp : p a = true
    · simp only [updateFirst, hp, if_true, List.countP_cons]
      split <;> split <;> omega
    · simp only [updateFirst, hp, Bool.false_eq_true, if_false, List.countP_cons]
      split <;> omega

/-- And not at all where it leaves the test as it was. -/
theorem countP_updateFirst_eq {p q : α → Bool} (h : ∀ a, p a = true → q (f a) = q a) (l : List α) :
    (updateFirst p f l).countP q = l.countP q := by
  induction l with
  | nil => rfl
  | cons a as ih =>
    simp only [updateFirst]
    split
    · rename_i hp
      rw [List.countP_cons, List.countP_cons, h a hp]
    · rw [List.countP_cons, List.countP_cons, ih]

/-- Erasing the first match takes out nothing but what the search finds. -/
theorem mem_eraseP_find (h : l.find? p = some a) (x : α) :
    x ∈ l ↔ x = a ∨ x ∈ l.eraseP p := by
  obtain ⟨ha, l₁, l₂, rfl, hno⟩ := List.find?_eq_some_iff_append.mp h
  rw [List.eraseP_append_right _ (fun b hb => by simpa using hno b hb), List.eraseP_cons_of_pos ha]
  simp only [List.mem_append, List.mem_cons]
  constructor
  · rintro (hx | rfl | hx)
    · exact Or.inr (Or.inl hx)
    · exact Or.inl rfl
    · exact Or.inr (Or.inr hx)
  · rintro (rfl | hx | hx)
    · exact Or.inr (Or.inl rfl)
    · exact Or.inl hx
    · exact Or.inr (Or.inr hx)

section Keyed

variable [DecidableEq β] {key : α → β} {k : β} {l m : List α}

/-- With keys that differ, a lookup finds the element of that key. -/
theorem find?_of_nodup (hl : (l.map key).Nodup) {a : α} : l.find? (fun a => key a == k) = some a ↔ a ∈ l ∧ key a = k := by
  constructor
  · intro hf
    exact ⟨List.mem_of_find?_eq_some hf, by simpa using List.find?_some hf⟩
  · rintro ⟨ha, rfl⟩
    cases hf : l.find? (fun b => key b == key a) with
    | none => exact absurd (List.find?_eq_none.mp hf a ha) (by simp)
    | some b =>
      have hk : key b = key a := by simpa using List.find?_some hf
      rw [List.inj_on_of_nodup_map hl (List.mem_of_find?_eq_some hf) ha hk]

/-- And the order of the list does not matter. -/
theorem find?_perm (h : l.Perm m) (hl : (l.map key).Nodup) : l.find? (fun a => key a == k) = m.find? fun a => key a == k := by
  refine Option.ext fun a => ?_
  rw [find?_of_nodup hl, find?_of_nodup ((h.map key).nodup_iff.mp hl), h.mem_iff]

theorem filter_ne {a : α} (h : key a ∉ l.map key) : l.filter (fun b => key b ≠ key a) = l := by
  refine List.filter_eq_self.mpr fun b hb => ?_
  have hne : key b ≠ key a := fun e => h (e ▸ List.mem_map_of_mem hb)
  simpa using hne

/-- Taking out one element is taking out all of its key. -/
theorem eraseIdx_eq_filter {i : Nat} {a : α} (hl : (l.map key).Nodup) (h : l[i]? = some a) :
    l.eraseIdx i = l.filter fun b => key b ≠ key a := by
  induction l generalizing i with
  | nil => rfl
  | cons b l ih =>
    rw [List.map_cons, List.nodup_cons] at hl
    cases i with
    | zero =>
      cases h
      rw [List.eraseIdx_cons_zero, List.filter_cons_of_neg (by simp), filter_ne hl.1]
    | succ i =>
      have hne : key b ≠ key a := fun e => hl.1 (e ▸ List.mem_map_of_mem (List.mem_of_getElem? h))
      rw [List.eraseIdx_cons_succ, List.filter_cons_of_pos (by simpa using hne), ih hl.2 h]

theorem eraseP_eq_filter (hl : (l.map key).Nodup) : l.eraseP (fun a => key a == k) = l.filter fun a => key a ≠ k := by
  induction l with
  | nil => rfl
  | cons a as ih =>
    rw [List.map_cons, List.nodup_cons] at hl
    by_cases ha : key a = k
    · subst ha
      rw [List.eraseP_cons_of_pos (by simp), List.filter_cons_of_neg (by simp), filter_ne hl.1]
    · rw [List.eraseP_cons_of_neg (by simpa using ha), List.filter_cons_of_pos (by simpa using ha), ih hl.2]

end Keyed

section Distinct

variable {κ : Type} [DecidableEq κ] (key : α → κ)

def distinctBy : List κ → List α → List α
  | _, [] => []
  | seen, a :: as => if key a ∈ seen then distinctBy seen as else a :: distinctBy (key a :: seen) as

variable {key}

theorem mem_of_mem_distinctBy {l : List α} {seen : List κ} {a : α} (h : a ∈ distinctBy key seen l) :
    a ∈ l ∧ key a ∉ seen := by
  induction l generalizing seen with
  | nil => cases h
  | cons b bs ih =>
    simp only [distinctBy] at h
    split at h
    · obtain ⟨hm, hs⟩ := ih h
      exact ⟨List.mem_cons_of_mem _ hm, hs⟩
    · rcases List.mem_cons.mp h with rfl | h
      · exact ⟨List.mem_cons_self .., ‹_›⟩
      · obtain ⟨hm, hs⟩ := ih h
        exact ⟨List.mem_cons_of_mem _ hm, fun hk => hs (List.mem_cons_of_mem _ hk)⟩

theorem distinctBy_nodup (l : List α) (seen : List κ) : ((distinctBy key seen l).map key).Nodup := by
  induction l generalizing seen with
  | nil => simp [distinctBy]
  | cons a as ih =>
    simp only [distinctBy]
    split
    · exact ih seen
    · refine List.nodup_cons.mpr ⟨fun hm => ?_, ih _⟩
      obtain ⟨b, hb, hk⟩ := List.mem_map.mp hm
      exact (mem_of_mem_distinctBy hb).2 (hk ▸ List.mem_cons_self ..)

/-- What is kept of a key not seen before is the first element that has it. -/
theorem mem_distinctBy_iff {l : List α} {seen : List κ} {a : α} :
    a ∈ distinctBy key seen l ↔ key a ∉ seen ∧ l.find? (fun b => key b = key a) = some a := by
  induction l generalizing seen with
  | nil => simp [distinctBy]
  | cons b bs ih =>
    simp only [distinctBy, List.find?_cons]
    by_cases hb : key b = key a
    · simp only [hb, decide_true, Option.some.injEq]
      split
      · rename_i hs
        exact ⟨fun h => absurd hs (mem_of_mem_distinctBy h).2, fun h => absurd hs h.1⟩
      · rename_i hs
        constructor
        · intro h
          rcases List.mem_cons.mp h with rfl | h
          · exact ⟨hs, rfl⟩
          · exact absurd (List.mem_cons_self ..) (mem_of_mem_distinctBy h).2
        · rintro ⟨-, rfl⟩
          exact List.mem_cons_self ..
    · have hne : a ≠ b := fun e => hb (e ▸ rfl)
      simp only [hb, decide_false]
      split
      · exact ih
      · simp only [List.mem_cons, hne, false_or, ih, Ne.symm hb]

end Distinct

end OpenU60.Lib.FirstMatch
