/-
  OpenU60.Web.EditFilter — the name and the filter of an edited rule (see `OpenU60.Web.Edit`).

  - `split_listText`: a list joined with `", "` is taken apart as it was; it is `joined` characters long.
  - `accepted_parts`: what is known of an accepted name and filter.
  - `parts_unchanged`: they are accepted again, and are the same, if and only if the joined lists fit.
-/

import OpenU60.Web.Edit

namespace OpenU60.Web.Forward

open OpenU60.Lib OpenU60.SmsForward

/-- An item of a comma list. -/
structure Item (p : String) : Prop where
  some : p ≠ ""
  trimmed : Trimmed p
  comma : ',' ∉ p.toList
  plain : p.toList.any isControl = false

/-- The length of the items with `", "` between them. -/
def joined (ps : List String) : Nat := (ps.map String.length).sum + 2 * (ps.length - 1)

def patternsOf : SmsFilter → List String
  | .sender patterns | .senderAndContent patterns _ => patterns
  | .all | .content _ => []

def keywordsOf : SmsFilter → List String
  | .content keywords | .senderAndContent _ keywords => keywords
  | .all | .sender _ => []

def typeOf : SmsFilter → String
  | .all => "all"
  | .sender _ => "sender"
  | .content _ => "content"
  | .senderAndContent _ _ => "sender_and_content"

/-- The joined lists have room in their boxes. -/
def ListsFit (filter : SmsFilter) : Prop := joined (patternsOf filter) ≤ listMax ∧ joined (keywordsOf filter) ≤ listMax

variable {i : Input} {ps : List String} {s p : String} {max : Nat}

/-! ## Lists -/

/-- One item of a comma list. -/
def item (p : List Char) : Option String := if Text.trim p = [] then none else some (String.ofList (Text.trim p))

theorem split_eq (s : String) : split s = (s.toList.splitOn ',').filterMap item := by
  unfold split
  induction s.toList.splitOn ',' with
  | nil => rfl
  | cons p ps ih =>
    rw [List.map_cons, List.filterMap_cons, ← ih]
    unfold item
    by_cases hnil : Text.trim p = []
    · rw [if_pos hnil, List.filter_cons, if_neg (by rw [hnil]; decide)]
    · rw [if_neg hnil, List.filter_cons, if_pos (by simpa using hnil), List.map_cons]

theorem split_spec (h : s.toList.any isControl = false) : ∀ p ∈ split s, Item p := by
  intro p hp
  rw [split_eq] at hp
  obtain ⟨t, ht, hitem⟩ := List.mem_filterMap.mp hp
  unfold item at hitem
  obtain ⟨hcomma, hpart⟩ := Split.mem_splitOn ',' s.toList t ht
  by_cases hnil : Text.trim t = []
  · rw [if_pos hnil] at hitem
    cases hitem
  · rw [if_neg hnil] at hitem
    cases hitem
    refine ⟨?_, ?_, ?_, ?_⟩
    · intro heq
      rw [← String.toList_inj, String.toList_ofList] at heq
      exact hnil heq
    · rw [trimmed_iff, String.toList_ofList, Text.trim_idem]
    · rw [String.toList_ofList]
      exact fun hc => hcomma (Text.mem_trim hc)
    · rw [String.toList_ofList, List.any_eq_false]
      intro c hc
      exact List.any_eq_false.mp h c (hpart.subset (Text.mem_trim hc))

theorem listText_strings (ps : List String) : (listText (strings ps)).toList = ", ".toList.intercalate (ps.map String.toList) := by
  unfold listText strings asArray
  rw [String.toList_ofList]
  dsimp only
  rw [List.filterMap_map]
  congr 1
  exact List.filterMap_eq_map ▸ rfl

theorem item_self (h : Item p) : item p.toList = some p := by
  have htrim := trimmed_iff.mp h.trimmed
  unfold item
  have hne : p.toList ≠ [] := fun hnil => h.some (String.toList_inj.mp hnil)
  rw [htrim, if_neg hne, String.ofList_toList]

/-- A joined list is taken apart as it was. -/
theorem split_listText (h : ∀ p ∈ ps, Item p) : split (listText (strings ps)) = ps := by
  rw [split_eq, listText_strings]
  by_cases hnil : ps = []
  · subst hnil
    rfl
  · have hspace : ∀ t : List Char, item (' ' :: t) = item t := by
      intro t
      unfold item
      rw [Text.trim_space]
    have hcomma : ∀ t ∈ ps.map String.toList, ',' ∉ t := by
      intro t ht
      obtain ⟨p, hp, rfl⟩ := List.mem_map.mp ht
      exact (h p hp).comma
    have hread := Split.splitOn_spaced hspace (by decide) (fun hmap => hnil (List.map_eq_nil_iff.mp hmap)) hcomma
    refine hread.trans ?_
    rw [List.filterMap_map]
    refine (List.filterMap_congr fun p hp => item_self (h p hp)).trans ?_
    exact List.filterMap_some

theorem length_listText (ps : List String) : (listText (strings ps)).length = joined ps := by
  rw [← String.length_toList, listText_strings, Split.length_intercalate, List.map_map, List.length_map]
  rfl

theorem trim_listText (h : ∀ p ∈ ps, Item p) : Trimmed (listText (strings ps)) := by
  have hne : ∀ t ∈ ps.map String.toList, t ≠ [] := by
    intro t ht hnil
    obtain ⟨p, hp, rfl⟩ := List.mem_map.mp ht
    exact (h p hp).some (String.toList_inj.mp hnil)
  rw [trimmed_iff, listText_strings]
  refine Text.trim_eq_self ?_ ?_
  · intro c hc
    obtain ⟨t, ht, hct⟩ := Split.head_intercalate hne hc
    obtain ⟨p, hp, rfl⟩ := List.mem_map.mp ht
    rw [← trimmed_iff.mp (h p hp).trimmed] at hct
    exact Text.head_trim _ c hct
  · intro c hc
    obtain ⟨t, ht, hct⟩ := Split.last_intercalate hne hc
    obtain ⟨p, hp, rfl⟩ := List.mem_map.mp ht
    rw [← trimmed_iff.mp (h p hp).trimmed] at hct
    exact Text.last_trim _ c hct

theorem plain_listText (h : ∀ p ∈ ps, Item p) : (listText (strings ps)).toList.any isControl = false := by
  rw [List.any_eq_false, listText_strings]
  intro c hc
  cases Split.mem_intercalate hc with
  | inl hsep =>
    have hall : ", ".toList.all (fun c => !isControl c) = true := by decide
    simpa using List.all_eq_true.mp hall c hsep
  | inr hitem =>
    obtain ⟨t, ht, hct⟩ := hitem
    obtain ⟨p, hp, rfl⟩ := List.mem_map.mp ht
    exact List.any_eq_false.mp (h p hp).plain c hct

theorem textError_none : textError s max = none ↔ s.length ≤ max ∧ s.toList.any isControl = false := by
  unfold textError
  by_cases hlen : max < s.length
  · rw [if_pos hlen]
    exact ⟨fun h => (nomatch h), fun h => absurd h.1 (by omega)⟩
  · rw [if_neg hlen]
    by_cases hplain : s.toList.any isControl = true
    · rw [if_pos hplain, hplain]
      exact ⟨fun h => (nomatch h), fun h => (nomatch h.2)⟩
    · rw [if_neg hplain]
      exact ⟨fun _ => ⟨by omega, Bool.eq_false_iff.mpr hplain⟩, fun _ => rfl⟩

/-- A joined list is refused if it has become too long, and for nothing else. -/
theorem listText_fits (h : ∀ p ∈ ps, Item p) : textError (listText (strings ps)) listMax = none ↔ joined ps ≤ listMax := by
  rw [textError_none, length_listText]
  exact ⟨And.left, fun hlen => ⟨hlen, plain_listText h⟩⟩

/-! ## Name and filter -/

theorem partsErrors_nil : partsErrors i = [] ↔
    i.name ≠ "" ∧ textError i.name nameMax = none ∧ textError i.patterns listMax = none ∧ textError i.keywords listMax = none := by
  unfold partsErrors
  rw [List.append_eq_nil_iff, List.flatMap_cons, List.flatMap_cons, List.flatMap_nil, List.append_nil, List.append_eq_nil_iff, Option.toList_eq_nil_iff,
    Option.map_eq_none_iff, Option.toList_eq_nil_iff, Option.map_eq_none_iff]
  by_cases hname : i.name = ""
  · rw [if_pos hname]
    exact ⟨fun h => (nomatch h.1), fun h => absurd hname h.1⟩
  · rw [if_neg hname, Option.toList_eq_nil_iff, Option.map_eq_none_iff]
    exact ⟨fun h => ⟨hname, h⟩, And.right⟩

theorem ruleParts_ok {name : String} {filter : Json} : ruleParts i = .ok (name, filter) ↔ partsErrors i = [] ∧ i.name = name ∧ filterOf i = filter := by
  unfold ruleParts
  split
  · rename_i hnone
    rw [Except.ok.injEq, Prod.mk.injEq]
    exact ⟨fun h => ⟨hnone, h⟩, And.right⟩
  · rename_i hsome
    exact ⟨fun h => (nomatch h), fun h => absurd h.1 hsome⟩

theorem strings_inj {a b : List String} (h : strings a = strings b) : a = b :=
  List.map_injective_iff.mpr (fun _ _ h => Json.str.inj h) (Json.arr.inj h)

/-- An accepted filter's lists are those of the boxes. -/
theorem filterOf_lists {filter : SmsFilter} (h : filterOf i = filterJson filter) :
    (∀ p ∈ patternsOf filter, p ∈ split i.patterns) ∧ ∀ p ∈ keywordsOf filter, p ∈ split i.keywords := by
  unfold filterOf filterJson at h
  have hnone : ∀ t : List String, ∀ p ∈ ([] : List String), p ∈ t := fun t p hp => absurd hp List.not_mem_nil
  cases filter with
  | all => exact ⟨hnone _, hnone _⟩
  | sender patterns =>
    refine ⟨fun p hp => ?_, hnone _⟩
    split at h
    · rw [strings_inj (by simpa using h : strings (split i.patterns) = strings patterns)]
      exact hp
    · split at h
      · simp at h
      · split at h
        · simp at h
        · simp at h
  | content keywords =>
    refine ⟨hnone _, fun p hp => ?_⟩
    split at h
    · simp at h
    · split at h
      · rw [strings_inj (by simpa using h : strings (split i.keywords) = strings keywords)]
        exact hp
      · split at h
        · simp at h
        · simp at h
  | senderAndContent patterns keywords =>
    split at h
    · simp at h
    · split at h
      · simp at h
      · split at h
        · have hboth : strings (split i.patterns) = strings patterns ∧ strings (split i.keywords) = strings keywords := by simpa using h
          rw [strings_inj hboth.1, strings_inj hboth.2]
          exact ⟨fun p hp => hp, fun p hp => hp⟩
        · simp at h

theorem filterOf_eq {filter : SmsFilter} (htype : i.filter = typeOf filter) (hpatterns : split i.patterns = patternsOf filter)
    (hkeywords : split i.keywords = keywordsOf filter) : filterOf i = filterJson filter := by
  unfold filterOf
  rw [htype, hpatterns, hkeywords]
  cases filter with
  | all => rfl
  | sender patterns => rfl
  | content keywords => rfl
  | senderAndContent patterns keywords => rfl

/-- What is known of an accepted name and filter. -/
structure Parts (name : String) (filter : SmsFilter) : Prop where
  some : name ≠ ""
  trimmed : Trimmed name
  fits : textError name nameMax = none
  patterns : ∀ p ∈ patternsOf filter, Item p
  keywords : ∀ p ∈ keywordsOf filter, Item p

theorem accepted_parts {name : String} {filter : SmsFilter} (htrim : Trimmed i.name) (h : ruleParts i = .ok (name, filterJson filter)) : Parts name filter := by
  obtain ⟨hnone, rfl, hfilter⟩ := ruleParts_ok.mp h
  obtain ⟨hname, hfits, hpatterns, hkeywords⟩ := partsErrors_nil.mp hnone
  obtain ⟨hps, hks⟩ := filterOf_lists hfilter
  exact ⟨hname, htrim, hfits, fun p hp => split_spec (textError_none.mp hpatterns).2 p (hps p hp),
    fun p hp => split_spec (textError_none.mp hkeywords).2 p (hks p hp)⟩

/-- The shown name and lists are accepted again, and are the same, if and only if the lists fit. -/
theorem parts_unchanged {name : String} {filter : SmsFilter} (h : Parts name filter) (hname : i.name = name) (htype : i.filter = typeOf filter)
    (hpatterns : i.patterns = listText (strings (patternsOf filter))) (hkeywords : i.keywords = listText (strings (keywordsOf filter))) :
    ruleParts i = .ok (name, filterJson filter) ↔ ListsFit filter := by
  have hfilter : filterOf i = filterJson filter := by
    refine filterOf_eq htype ?_ ?_
    · rw [hpatterns, split_listText h.patterns]
    · rw [hkeywords, split_listText h.keywords]
  rw [ruleParts_ok, partsErrors_nil, hpatterns, hkeywords, listText_fits h.patterns, listText_fits h.keywords, hname]
  exact ⟨fun hok => hok.1.2.2, fun hfit => ⟨⟨h.some, h.fits, hfit⟩, rfl, hfilter⟩⟩

end OpenU60.Web.Forward
