/-
  OpenU60.Lib.Split — taking a list apart at a separator: at its first occurrence
  (`split_once`) and at the last occurrence of one element (`rsplit_once`).

  What stands before the first occurrence is decided by what is read up to its end: what follows may
  change (`splitOnce_append`), and an element that is not in the separator restarts the search
  (`splitOnce_barrier`). A map that keeps the separator's elements apart commutes with both.

  And in chunks of a length (`chunks`), which together are the list and none of them empty.
-/

import Mathlib

namespace OpenU60.Lib.Split

variable {α β : Type} [DecidableEq α] [DecidableEq β]

/-! ## The first occurrence -/

def splitOnce (sep : List α) : List α → Option (List α × List α)
  | [] => if sep = [] then some ([], []) else none
  | a :: as =>
    if sep.isPrefixOf (a :: as) then some ([], (a :: as).drop sep.length)
    else (splitOnce sep as).map fun p => (a :: p.1, p.2)

variable {sep u v s r : List α} {a b : α}

theorem splitOnce_cons_pos (h : sep <+: a :: u) : splitOnce sep (a :: u) = some ([], (a :: u).drop sep.length) :=
  if_pos (List.isPrefixOf_iff_prefix.mpr h)

theorem splitOnce_cons_neg (h : ¬ sep <+: a :: u) :
    splitOnce sep (a :: u) = (splitOnce sep u).map fun p => (a :: p.1, p.2) :=
  if_neg fun hp => h (List.isPrefixOf_iff_prefix.mp hp)

theorem splitOnce_eq (h : splitOnce sep u = some (s, r)) : u = s ++ sep ++ r := by
  induction u generalizing s with
  | nil =>
    unfold splitOnce at h
    split at h
    · rename_i hsep
      cases h
      rw [hsep]
      rfl
    · cases h
  | cons a u ih =>
    by_cases hp : sep <+: a :: u
    · rw [splitOnce_cons_pos hp] at h
      cases h
      exact (List.prefix_iff_eq_append.mp hp).symm
    · rw [splitOnce_cons_neg hp] at h
      obtain ⟨⟨s', r'⟩, hs, heq⟩ := Option.map_eq_some_iff.mp h
      cases heq
      rw [ih hs]
      rfl

/-- The first occurrence is found whatever follows it. -/
theorem splitOnce_append (h : splitOnce sep u = some (s, r)) (v : List α) : splitOnce sep (s ++ sep ++ v) = some (s, v) := by
  induction u generalizing s with
  | nil =>
    unfold splitOnce at h
    split at h
    · rename_i hsep
      cases h
      subst hsep
      cases v <;> rfl
    · cases h
  | cons a u ih =>
    by_cases hp : sep <+: a :: u
    · rw [splitOnce_cons_pos hp] at h
      cases h
      cases hv : sep ++ v with
      | nil =>
        obtain ⟨rfl, rfl⟩ := List.append_eq_nil_iff.mp hv
        rfl
      | cons b w =>
        rw [List.nil_append, hv, splitOnce_cons_pos (by rw [← hv]; exact List.prefix_append sep v), ← hv]
        simp
    · rw [splitOnce_cons_neg hp] at h
      obtain ⟨⟨s', r'⟩, hs, heq⟩ := Option.map_eq_some_iff.mp h
      cases heq
      have hno : ¬ sep <+: a :: (s' ++ sep ++ v) := by
        -- an occurrence here would lie before the end of the first one
        intro hq
        refine hp ?_
        rw [splitOnce_eq hs]
        have hlen : sep.length ≤ (a :: (s' ++ sep)).length := by simp only [List.length_cons, List.length_append]; omega
        have hl : sep <+: a :: (s' ++ sep) := by
          refine List.prefix_of_prefix_length_le hq ?_ hlen
          exact ⟨v, by simp⟩
        exact hl.trans ⟨r', by simp⟩
      rw [List.cons_append, List.cons_append, splitOnce_cons_neg hno, ih hs]
      rfl

/-- Where the separator occurs it is found, there or before. -/
theorem splitOnce_first (sep s r : List α) : ∃ s' r', splitOnce sep (s ++ sep ++ r) = some (s', r') ∧ r <:+ r' := by
  induction s with
  | nil =>
    cases hu : sep ++ r with
    | nil =>
      obtain ⟨rfl, rfl⟩ := List.append_eq_nil_iff.mp hu
      exact ⟨[], [], rfl, List.suffix_refl _⟩
    | cons a u =>
      refine ⟨[], r, ?_, List.suffix_refl _⟩
      rw [List.nil_append, hu, splitOnce_cons_pos (by rw [← hu]; exact List.prefix_append sep r), ← hu, List.drop_left]
  | cons a s ih =>
    rw [List.cons_append, List.cons_append]
    by_cases hp : sep <+: a :: (s ++ sep ++ r)
    · refine ⟨[], _, splitOnce_cons_pos hp, ?_⟩
      rw [← List.cons_append, List.drop_append_of_le_length (by simp; omega)]
      exact List.suffix_append _ r
    · obtain ⟨s', r', hs, hr⟩ := ih
      exact ⟨a :: s', r', by rw [splitOnce_cons_neg hp, hs]; rfl, hr⟩

theorem splitOnce_snoc (h : splitOnce sep u = some (s, r)) (v : List α) : splitOnce sep (u ++ v) = some (s, r ++ v) := by
  rw [splitOnce_eq h, List.append_assoc]
  exact splitOnce_append h (r ++ v)

theorem splitOnce_none_of_not_mem (h : a ∉ u) (hsep : a ∈ sep) : splitOnce sep u = none := by
  cases hs : splitOnce sep u with
  | none => rfl
  | some p =>
    refine absurd ?_ h
    rw [splitOnce_eq (s := p.1) (r := p.2) hs]
    exact List.mem_append_left _ (List.mem_append_right _ hsep)

/-- Elements that do not begin the separator are passed over. -/
theorem splitOnce_skip (h : a ∉ s) (u : List α) :
    splitOnce (a :: sep) (s ++ u) = (splitOnce (a :: sep) u).map fun p => (s ++ p.1, p.2) := by
  induction s with
  | nil =>
    rw [List.nil_append]
    exact Option.map_id'.symm
  | cons b s ih =>
    rw [List.mem_cons, not_or] at h
    rw [List.cons_append, splitOnce_cons_neg, ih h.2, Option.map_map]
    · rfl
    · intro hp
      rw [List.cons_prefix_cons] at hp
      exact h.1 hp.1

/-- No element of what precedes begins the separator. -/
theorem splitOnce_of_not_mem (h : a ∉ s) : splitOnce (a :: sep) (s ++ (a :: sep) ++ r) = some (s, r) := by
  rw [List.append_assoc, splitOnce_skip h, List.cons_append, splitOnce_cons_pos ⟨r, rfl⟩, ← List.cons_append, List.drop_left, Option.map_some,
    List.append_nil]

/-- An element that is not in the separator restarts the search. -/
theorem splitOnce_barrier (h : splitOnce sep u = none) (ha : a ∉ sep) :
    splitOnce sep (u ++ a :: v) = (splitOnce sep v).map fun p => (u ++ a :: p.1, p.2) := by
  have hne : sep ≠ [] := by
    rintro rfl
    cases u <;> cases h
  induction u with
  | nil =>
    rw [List.nil_append, splitOnce_cons_neg]
    · rfl
    · intro hp
      cases sep with
      | nil => exact hne rfl
      | cons b sep =>
        rw [List.cons_prefix_cons] at hp
        exact ha (hp.1 ▸ List.mem_cons_self ..)
  | cons b u ih =>
    have hno : ¬ sep <+: b :: u := by
      intro hp
      rw [splitOnce_cons_pos hp] at h
      cases h
    rw [splitOnce_cons_neg hno, Option.map_eq_none_iff] at h
    have hno' : ¬ sep <+: b :: (u ++ a :: v) := by
      intro hp
      -- it would reach past the barrier
      obtain ⟨w, hw⟩ := hp
      by_cases hlen : sep.length ≤ (b :: u).length
      · refine hno (List.prefix_of_prefix_length_le ⟨w, hw⟩ ?_ hlen)
        exact ⟨a :: v, by simp⟩
      · refine ha ?_
        have hget : sep[(b :: u).length]? = some a := by
          have hall : (sep ++ w)[(b :: u).length]? = some a := by
            rw [hw, ← List.cons_append, List.getElem?_append_right (Nat.le_refl _)]
            simp
          rwa [List.getElem?_append_left (by omega)] at hall
        exact List.mem_of_getElem? hget
    rw [List.cons_append, splitOnce_cons_neg hno', ih h, Option.map_map]
    rfl

/-- A separator that does not overlap itself. -/
def Unbordered (sep : List α) : Prop := ∀ t, t ≠ [] → t <+: sep → t <:+ sep → t = sep

omit [DecidableEq α] in
theorem unbordered_of_not_mem (h : a ∉ sep) : Unbordered (a :: sep) := by
  intro t hne hpre hsuf
  cases t with
  | nil => exact absurd rfl hne
  | cons x t =>
    cases (List.cons_prefix_cons.mp hpre).1
    cases List.suffix_cons_iff.mp hsuf with
    | inl heq => exact heq
    | inr hsuf => exact absurd (hsuf.subset List.mem_cons_self) h

/-- It is found where it stands after what does not hold it. -/
theorem splitOnce_unbordered (hne : sep ≠ []) (hsep : Unbordered sep) (h : splitOnce sep u = none) (v : List α) :
    splitOnce sep (u ++ (sep ++ v)) = some (u, v) := by
  induction u with
  | nil =>
    cases sep with
    | nil => exact absurd rfl hne
    | cons a sep =>
      rw [List.nil_append, List.cons_append, splitOnce_cons_pos ⟨v, rfl⟩, ← List.cons_append, List.drop_left]
  | cons a u ih =>
    have hno : ¬ sep <+: a :: u := by
      intro hp
      rw [splitOnce_cons_pos hp] at h
      cases h
    have hrest : splitOnce sep u = none := by
      rw [splitOnce_cons_neg hno] at h
      exact Option.map_eq_none_iff.mp h
    have hno' : ¬ sep <+: a :: (u ++ (sep ++ v)) := by
      intro hp
      by_cases hlen : sep.length ≤ (a :: u).length
      · exact hno (List.prefix_of_prefix_length_le hp ⟨sep ++ v, rfl⟩ hlen)
      · -- the end of one occurrence would be the beginning of the other
        obtain ⟨t, ht⟩ : a :: u <+: sep := List.prefix_of_prefix_length_le ⟨sep ++ v, rfl⟩ hp (by omega)
        have hlong : t.length < sep.length := by
          rw [← ht, List.length_append, List.length_cons]
          omega
        have hpre : t <+: sep ++ v := by
          rw [← ht, ← List.cons_append] at hp
          rw [← ht]
          exact (List.prefix_append_right_inj _).mp hp
        have hborder : t <+: sep := List.prefix_of_prefix_length_le hpre ⟨v, rfl⟩ (by omega)
        have ht' : t ≠ [] := by
          rintro rfl
          rw [List.append_nil] at ht
          exact hlen (Nat.le_of_eq (congrArg List.length ht).symm)
        have hwhole := hsep t ht' hborder ⟨a :: u, ht⟩
        rw [hwhole] at hlong
        omega
    rw [List.cons_append, splitOnce_cons_neg hno', ih hrest]
    rfl

theorem splitOnce_map {f : α → β} {sep : List α} (hf : ∀ a ∈ sep, ∀ b, f b = f a → b = a) (u : List α) :
    splitOnce (sep.map f) (u.map f) = (splitOnce sep u).map fun p => (p.1.map f, p.2.map f) := by
  have hpre : ∀ (t : List α), (∀ a ∈ t, ∀ b, f b = f a → b = a) → ∀ u : List α, t.map f <+: u.map f ↔ t <+: u := by
    intro t
    induction t with
    | nil => simp
    | cons a t ih =>
      intro ht u
      cases u with
      | nil => simp
      | cons b u =>
        rw [List.map_cons, List.map_cons, List.cons_prefix_cons, List.cons_prefix_cons,
          ih (fun c hc => ht c (List.mem_cons_of_mem _ hc))]
        refine and_congr_left fun _ => ⟨fun h => (ht a (List.mem_cons_self ..) b h.symm).symm, fun h => by rw [h]⟩
  induction u with
  | nil =>
    unfold splitOnce
    cases sep <;> rfl
  | cons b u ih =>
    by_cases hp : sep <+: b :: u
    · rw [splitOnce_cons_pos hp, List.map_cons, splitOnce_cons_pos (by rw [← List.map_cons]; exact (hpre sep hf _).mpr hp)]
      rw [← List.map_cons, ← List.map_drop, List.length_map]
      rfl
    · rw [splitOnce_cons_neg hp, List.map_cons, splitOnce_cons_neg (by rw [← List.map_cons]; exact fun h => hp ((hpre sep hf _).mp h)),
        ih, Option.map_map, Option.map_map]
      rfl

/-! ## The last occurrence -/

def rsplitOnce (a : α) : List α → Option (List α × List α)
  | [] => none
  | b :: bs =>
    match rsplitOnce a bs with
    | some (x, y) => some (b :: x, y)
    | none => if b = a then some ([], bs) else none

theorem rsplitOnce_none : rsplitOnce a u = none ↔ a ∉ u := by
  induction u with
  | nil => simp [rsplitOnce]
  | cons b u ih =>
    unfold rsplitOnce
    cases hs : rsplitOnce a u with
    | some p =>
      have hm : a ∈ u := by
        refine Decidable.not_not.mp fun hno => ?_
        cases hs.symm.trans (ih.mpr hno)
      simp [hm]
    | none =>
      have hm : a ∉ u := ih.mp hs
      by_cases hb : b = a
      · simp [hb]
      · simp [hb, hm, Ne.symm hb]

theorem rsplitOnce_append (h : a ∉ v) : rsplitOnce a (u ++ a :: v) = some (u, v) := by
  induction u with
  | nil =>
    unfold rsplitOnce
    simp [rsplitOnce_none.mpr h]
  | cons b u ih =>
    rw [List.cons_append]
    unfold rsplitOnce
    rw [ih]

theorem rsplitOnce_some (h : rsplitOnce a u = some (s, r)) : u = s ++ a :: r ∧ a ∉ r := by
  induction u generalizing s with
  | nil => cases h
  | cons b u ih =>
    unfold rsplitOnce at h
    split at h
    · rename_i x y hs
      cases h
      obtain ⟨rfl, hr⟩ := ih hs
      exact ⟨rfl, hr⟩
    · rename_i hs
      split at h
      · rename_i hb
        cases h
        subst hb
        exact ⟨rfl, rsplitOnce_none.mp hs⟩
      · cases h

theorem rsplitOnce_map {f : α → β} (hf : ∀ b, f b = f a → b = a) (u : List α) :
    rsplitOnce (f a) (u.map f) = (rsplitOnce a u).map fun p => (p.1.map f, p.2.map f) := by
  induction u with
  | nil => rfl
  | cons b u ih =>
    rw [List.map_cons]
    unfold rsplitOnce
    rw [ih]
    cases hs : rsplitOnce a u with
    | some p => rfl
    | none =>
      by_cases hb : b = a
      · simp [hb]
      · have hne : f b ≠ f a := fun h => hb (hf b h)
        simp [hb, hne]

/-! ## Chunks -/

/-- `chunks`: parts of `n` elements, the last one with what is left. -/
def chunksUpTo (n : Nat) : Nat → List α → List (List α)
  | 0, _ => []
  | _ + 1, [] => []
  | k + 1, a :: as => (a :: as).take n :: chunksUpTo n k ((a :: as).drop n)

def chunks (n : Nat) (l : List α) : List (List α) := chunksUpTo n l.length l

omit [DecidableEq α] in
theorem flatten_chunks {n : Nat} (hn : 0 < n) (l : List α) : (chunks n l).flatten = l := by
  have hupto : ∀ (k : Nat) (l : List α), l.length ≤ k → (chunksUpTo n k l).flatten = l := by
    intro k
    induction k with
    | zero =>
      intro l hl
      rw [List.length_eq_zero_iff.mp (Nat.le_zero.mp hl)]
      rfl
    | succ k ih =>
      intro l hl
      cases l with
      | nil => rfl
      | cons a as =>
        rw [chunksUpTo, List.flatten_cons, ih, List.take_append_drop]
        rw [List.length_drop]
        omega
  exact hupto _ l (Nat.le_refl _)

omit [DecidableEq α] in
/-- No chunk is empty and none is longer than `n`. -/
theorem length_of_mem_chunks {n : Nat} (hn : 0 < n) {l c : List α} (h : c ∈ chunks n l) : 0 < c.length ∧ c.length ≤ n := by
  have hupto : ∀ (k : Nat) (l : List α), c ∈ chunksUpTo n k l → 0 < c.length ∧ c.length ≤ n := by
    intro k
    induction k with
    | zero => exact nofun
    | succ k ih =>
      intro l hc
      cases l with
      | nil => cases hc
      | cons a as =>
        rw [chunksUpTo] at hc
        rcases List.mem_cons.mp hc with rfl | hc
        · rw [List.length_take, List.length_cons]
          omega
        · exact ih _ hc
  exact hupto _ l h

omit [DecidableEq α] in
theorem chunksUpTo_eq {n k m : Nat} (hn : 0 < n) {l : List α} (hk : l.length ≤ k) (hm : l.length ≤ m) : chunksUpTo n k l = chunksUpTo n m l := by
  induction k generalizing l m with
  | zero =>
    rw [List.length_eq_zero_iff.mp (Nat.le_zero.mp hk)]
    cases m <;> rfl
  | succ k ih =>
    cases l with
    | nil => cases m <;> rfl
    | cons a as =>
      cases m with
      | zero => cases hm
      | succ m =>
        rw [List.length_cons] at hk hm
        have hdrop : ((a :: as).drop n).length ≤ as.length := by
          rw [List.length_drop, List.length_cons]
          omega
        rw [chunksUpTo, chunksUpTo, ih (m := m) (by omega) (by omega)]

omit [DecidableEq α] in
/-- What has the length of a chunk is the first one. -/
theorem chunks_append {n : Nat} (hn : 0 < n) {c : List α} (hc : c.length = n) (l : List α) : chunks n (c ++ l) = c :: chunks n l := by
  cases c with
  | nil =>
    rw [← hc] at hn
    cases hn
  | cons a as =>
    have hrest : (((a :: as) ++ l).drop n) = l := by rw [← hc, List.drop_left]
    have hfirst : (((a :: as) ++ l).take n) = a :: as := by rw [← hc, List.take_left]
    unfold chunks
    rw [List.cons_append, List.length_cons, chunksUpTo, ← List.cons_append, hfirst, hrest]
    rw [chunksUpTo_eq hn (m := l.length) (by rw [List.length_append]; omega) (Nat.le_refl _)]

/-! ## Joined lists -/

theorem mem_splitOn (a : α) (cs : List α) : ∀ t ∈ cs.splitOn a, a ∉ t ∧ t <:+: cs := by
  by_cases ha : a ∈ cs
  · obtain ⟨u, v, hcs, hnot⟩ := List.eq_append_cons_of_mem ha
    have hlen : v.length < cs.length := by
      rw [hcs, List.length_append, List.length_cons]
      omega
    have hrest := mem_splitOn a v
    rw [hcs, List.splitOn_append_cons_self_of_not_mem hnot]
    intro t ht
    cases List.mem_cons.mp ht with
    | inl heq =>
      subst heq
      exact ⟨hnot, (List.prefix_append t _).isInfix⟩
    | inr ht =>
      obtain ⟨hat, hpart⟩ := hrest t ht
      exact ⟨hat, hpart.trans ⟨u ++ [a], [], by simp⟩⟩
  · rw [List.splitOn_eq_singleton ha]
    intro t ht
    cases List.mem_singleton.mp ht
    exact ⟨ha, List.infix_refl _⟩
termination_by cs.length

omit [DecidableEq α] in
theorem mem_intercalate {c : α} {ps : List (List α)} (h : c ∈ sep.intercalate ps) : c ∈ sep ∨ ∃ p ∈ ps, c ∈ p := by
  induction ps with
  | nil => exact absurd h List.not_mem_nil
  | cons p ps ih =>
    by_cases hend : ps = []
    · subst hend
      rw [List.intercalate_singleton] at h
      exact .inr ⟨p, List.mem_cons_self, h⟩
    · rw [List.intercalate_cons_of_ne_nil hend, List.append_assoc] at h
      cases List.mem_append.mp h with
      | inl h => exact .inr ⟨p, List.mem_cons_self, h⟩
      | inr h =>
        cases List.mem_append.mp h with
        | inl h => exact .inl h
        | inr h =>
          cases ih h with
          | inl h => exact .inl h
          | inr h =>
            obtain ⟨q, hq, hc⟩ := h
            exact .inr ⟨q, List.mem_cons_of_mem p hq, hc⟩

omit [DecidableEq α] in
theorem length_intercalate (sep : List α) (ps : List (List α)) : (sep.intercalate ps).length = (ps.map List.length).sum + sep.length * (ps.length - 1) := by
  induction ps with
  | nil => rfl
  | cons p ps ih =>
    by_cases hend : ps = []
    · subst hend
      rw [List.intercalate_singleton]
      rfl
    · have hpos := List.length_pos_iff.mpr hend
      obtain ⟨n, hn⟩ := Nat.exists_eq_add_of_lt hpos
      rw [List.intercalate_cons_of_ne_nil hend, List.length_append, List.length_append, ih, List.map_cons, List.sum_cons, List.length_cons,
        Nat.add_sub_cancel, hn]
      rw [Nat.zero_add, Nat.add_sub_cancel, Nat.mul_succ]
      omega

omit [DecidableEq α] in
/-- The first element is the first item's, where none is empty. -/
theorem head_intercalate {c : α} {ps : List (List α)} (h : ∀ p ∈ ps, p ≠ []) (hc : c ∈ (sep.intercalate ps).head?) : ∃ p ∈ ps, c ∈ p.head? := by
  cases ps with
  | nil => cases hc
  | cons p ps =>
    refine ⟨p, List.mem_cons_self, ?_⟩
    by_cases hend : ps = []
    · subst hend
      rw [List.intercalate_singleton] at hc
      exact hc
    · rw [List.intercalate_cons_of_ne_nil hend, List.append_assoc, List.head?_append_of_ne_nil p (h p List.mem_cons_self)] at hc
      exact hc

omit [DecidableEq α] in
theorem last_intercalate {c : α} {ps : List (List α)} (h : ∀ p ∈ ps, p ≠ []) (hc : c ∈ (sep.intercalate ps).getLast?) : ∃ p ∈ ps, c ∈ p.getLast? := by
  induction ps with
  | nil => cases hc
  | cons p ps ih =>
    by_cases hend : ps = []
    · subst hend
      rw [List.intercalate_singleton] at hc
      exact ⟨p, List.mem_cons_self, hc⟩
    · have hrest : sep.intercalate ps ≠ [] := by
        obtain ⟨q, qs, rfl⟩ := List.exists_cons_of_ne_nil hend
        intro hnil
        by_cases hqs : qs = []
        · subst hqs
          rw [List.intercalate_singleton] at hnil
          exact h q (List.mem_cons_of_mem p List.mem_cons_self) hnil
        · rw [List.intercalate_cons_of_ne_nil hqs, List.append_assoc] at hnil
          exact h q (List.mem_cons_of_mem p List.mem_cons_self) (List.append_eq_nil_iff.mp hnil).1
      rw [List.intercalate_cons_of_ne_nil hend, List.getLast?_append_of_ne_nil _ hrest] at hc
      obtain ⟨q, hq, hcq⟩ := ih (fun q hq => h q (List.mem_cons_of_mem p hq)) hc
      exact ⟨q, List.mem_cons_of_mem p hq, hcq⟩

/-- What stands after each separator but the first element: what passes over it reads the items. -/
theorem splitOn_spaced {γ : Type} {f : List α → Option γ} (hspace : ∀ p, f (b :: p) = f p) (hab : b ≠ a) {ps : List (List α)} (hne : ps ≠ [])
    (h : ∀ p ∈ ps, a ∉ p) : (([a, b].intercalate ps).splitOn a).filterMap f = ps.filterMap f := by
  have hhead : ∀ t : List α, ((b :: t).splitOn a).filterMap f = (t.splitOn a).filterMap f := by
    intro t
    rw [List.splitOn_cons_eq_if_modifyHead, if_neg (by rw [beq_iff_eq]; exact hab)]
    cases ht : t.splitOn a with
    | nil => rfl
    | cons p ps => rw [List.modifyHead_cons, List.filterMap_cons, List.filterMap_cons, hspace]
  induction ps with
  | nil => exact absurd rfl hne
  | cons p ps ih =>
    have hp := h p List.mem_cons_self
    by_cases hend : ps = []
    · subst hend
      rw [List.intercalate_singleton, List.splitOn_eq_singleton hp]
    · rw [List.intercalate_cons_of_ne_nil hend, List.append_assoc]
      show ((p ++ a :: b :: [a, b].intercalate ps).splitOn a).filterMap f = _
      rw [List.splitOn_append_cons_self_of_not_mem hp, List.filterMap_cons, List.filterMap_cons, hhead, ih hend fun q hq => h q (List.mem_cons_of_mem p hq)]

end OpenU60.Lib.Split
