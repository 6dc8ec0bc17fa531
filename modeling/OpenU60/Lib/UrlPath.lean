/-
  OpenU60.Lib.UrlPath — what a browser makes of a URL that begins with `/`: the path and the query it
  asks the same site for.

  Tabs and ends of lines are dropped, a fragment is cut off, a backslash is a slash, and dot segments
  are resolved, also percent-encoded ones. A URL that begins with two slashes is another site's.
  - `resolve_plain`: a path without dot segments is resolved to itself.
  - `segment_plain`: a resolved path has none, so resolving it again changes nothing (`resolve_idem`).
  - `browse_again`: a path and a query that a browser asked for, written as a URL, are asked for again.
-/

import Mathlib
import OpenU60.Lib.Split

namespace OpenU60.Lib.UrlPath

abbrev Segment := List Char

/-- A percent-encoded dot, whatever the case. -/
def decodeDots : Segment → Segment
  | '%' :: '2' :: 'e' :: rest => '.' :: decodeDots rest
  | '%' :: '2' :: 'E' :: rest => '.' :: decodeDots rest
  | c :: rest => c :: decodeDots rest
  | [] => []

def isSingleDot (s : Segment) : Bool := decodeDots s = ['.']
def isDoubleDot (s : Segment) : Bool := decodeDots s = ['.', '.']

/-- Neither of them. -/
def Plain (s : Segment) : Prop := isSingleDot s = false ∧ isDoubleDot s = false

/-- The segments in order, those before them in `out` (the last one first). A dot segment at the end leaves an empty one. -/
def resolveFrom : List Segment → List Segment → List Segment
  | out, [] => out.reverse
  | out, s :: rest =>
    if isDoubleDot s then
      if rest = [] then out.tail.reverse ++ [[]] else resolveFrom out.tail rest
    else if isSingleDot s then
      if rest = [] then out.reverse ++ [[]] else resolveFrom out rest
    else resolveFrom (s :: out) rest

/-- A path after its first slash. -/
def resolve (path : List Char) : List Char := ['/'].intercalate (resolveFrom [] (path.splitOn '/'))

def dropped (c : Char) : Bool := c = '\t' || c = '\n' || c = '\r'

/-- At the first question mark. -/
def splitQuery (s : List Char) : List Char × Option (List Char) :=
  match Split.splitOnce ['?'] s with
  | some (path, query) => (path, some query)
  | none => (s, none)

/-- The request for a URL of the site: none for other sites and for relative URLs. -/
def browse (url : List Char) : Option (List Char × Option (List Char)) :=
  let (path, query) := splitQuery ((url.filter fun c => !dropped c).takeWhile (· ≠ '#'))
  match path.map fun c => if c = '\\' then '/' else c with
  | '/' :: '/' :: _ => none
  | '/' :: path => some ('/' :: resolve path, query)
  | _ => none

variable {s : Segment} {ss out : List Segment} {path : List Char} {query : Option (List Char)} {c : Char}

/-! ## Dot segments -/

theorem resolveFrom_plain (h : ∀ s ∈ ss, Plain s) (out : List Segment) : resolveFrom out ss = out.reverse ++ ss := by
  induction ss generalizing out with
  | nil => exact (List.append_nil _).symm
  | cons s ss ih =>
    obtain ⟨hsingle, hdouble⟩ := h s List.mem_cons_self
    rw [resolveFrom, if_neg (Bool.eq_false_iff.mp hdouble), if_neg (Bool.eq_false_iff.mp hsingle),
      ih fun t ht => h t (List.mem_cons_of_mem s ht), List.reverse_cons, List.append_assoc, List.singleton_append]

theorem resolve_plain (h : ∀ s ∈ path.splitOn '/', Plain s) : resolve path = path := by
  unfold resolve
  rw [resolveFrom_plain h, List.reverse_nil, List.nil_append, List.intercalate_splitOn]

theorem plain_nil : Plain [] := ⟨rfl, rfl⟩

/-- What holds of the empty segment and of the path's plain ones holds of all that are kept. -/
theorem mem_resolveFrom {P : Segment → Prop} (hempty : P []) (hss : ∀ t ∈ ss, Plain t → P t) (hout : ∀ t ∈ out, P t) :
    ∀ t ∈ resolveFrom out ss, P t := by
  have hlast : ∀ out : List Segment, (∀ t ∈ out, P t) → ∀ t ∈ out.reverse ++ [[]], P t := by
    intro out hout t ht
    cases List.mem_append.mp ht with
    | inl ht => exact hout t (List.mem_reverse.mp ht)
    | inr ht =>
      cases List.mem_singleton.mp ht
      exact hempty
  induction ss generalizing out with
  | nil => exact fun t ht => hout t (List.mem_reverse.mp ht)
  | cons s ss ih =>
    have hrest : ∀ t ∈ ss, Plain t → P t := fun t ht => hss t (List.mem_cons_of_mem s ht)
    have htail : ∀ t ∈ out.tail, P t := fun t ht => hout t (List.mem_of_mem_tail ht)
    rw [resolveFrom]
    by_cases hdouble : isDoubleDot s = true
    · rw [if_pos hdouble]
      by_cases hend : ss = []
      · rw [if_pos hend]
        exact hlast out.tail htail
      · rw [if_neg hend]
        exact ih hrest htail
    · rw [if_neg hdouble]
      by_cases hsingle : isSingleDot s = true
      · rw [if_pos hsingle]
        by_cases hend : ss = []
        · rw [if_pos hend]
          exact hlast out hout
        · rw [if_neg hend]
          exact ih hrest hout
      · rw [if_neg hsingle]
        refine ih hrest ?_
        intro t ht
        cases List.mem_cons.mp ht with
        | inl heq =>
          subst heq
          exact hss t List.mem_cons_self ⟨Bool.eq_false_iff.mpr hsingle, Bool.eq_false_iff.mpr hdouble⟩
        | inr ht => exact hout t ht

theorem resolveFrom_ne_nil (hss : ss ≠ []) (out : List Segment) : resolveFrom out ss ≠ [] := by
  induction ss generalizing out with
  | nil => exact absurd rfl hss
  | cons s ss ih =>
    rw [resolveFrom]
    by_cases hlast : ss = []
    · rw [if_pos hlast, if_pos hlast, hlast]
      split
      · exact List.append_ne_nil_of_right_ne_nil _ (List.cons_ne_nil _ _)
      · split
        · exact List.append_ne_nil_of_right_ne_nil _ (List.cons_ne_nil _ _)
        · rw [resolveFrom, List.reverse_cons]
          exact List.append_ne_nil_of_right_ne_nil _ (List.cons_ne_nil _ _)
    · rw [if_neg hlast, if_neg hlast]
      split
      · exact ih hlast _
      · split
        · exact ih hlast _
        · exact ih hlast _

theorem splitOn_resolve (path : List Char) : (resolve path).splitOn '/' = resolveFrom [] (path.splitOn '/') := by
  have hslash : ∀ t ∈ resolveFrom [] (path.splitOn '/'), '/' ∉ t :=
    mem_resolveFrom List.not_mem_nil (fun t ht _ => (Split.mem_splitOn '/' path t ht).1) fun t ht => absurd ht List.not_mem_nil
  exact List.splitOn_intercalate _ hslash (resolveFrom_ne_nil (List.splitOn_ne_nil '/' path) [])

/-- The segments of a resolved path are plain. -/
theorem segment_plain (path : List Char) : ∀ t ∈ (resolve path).splitOn '/', Plain t := by
  rw [splitOn_resolve]
  exact mem_resolveFrom plain_nil (fun t _ ht => ht) fun t ht => absurd ht List.not_mem_nil

theorem resolve_idem (path : List Char) : resolve (resolve path) = resolve path := resolve_plain (segment_plain path)

/-- No character is new but slashes. -/
theorem mem_resolve (h : c ∈ resolve path) : c ∈ path ∨ c = '/' := by
  have hchars : ∀ t ∈ resolveFrom [] (path.splitOn '/'), ∀ c ∈ t, c ∈ path :=
    mem_resolveFrom (P := fun t => ∀ c ∈ t, c ∈ path) (fun c hc => absurd hc List.not_mem_nil) (fun t ht _ c hc => (Split.mem_splitOn '/' path t ht).2.subset hc)
      fun t ht => absurd ht List.not_mem_nil
  unfold resolve at h
  cases Split.mem_intercalate h with
  | inl h => exact .inr (List.mem_singleton.mp h)
  | inr h =>
    obtain ⟨t, ht, hc⟩ := h
    exact .inl (hchars t ht c hc)

/-! ## Asking again -/

/-- No character that a browser drops, cuts at or rewrites. -/
def Verbatim (cs : List Char) : Prop := ∀ c ∈ cs, dropped c = false ∧ c ≠ '#'

structure Asked (path : List Char) (query : Option (List Char)) : Prop where
  chars : Verbatim path ∧ '?' ∉ path ∧ '\\' ∉ path
  resolved : ∃ rest, path = '/' :: rest ∧ resolve rest = rest
  params : ∀ q, query = some q → Verbatim q

def url (path : List Char) : Option (List Char) → List Char
  | none => path
  | some q => path ++ '?' :: q

theorem Verbatim.append {u v : List Char} (hu : Verbatim u) (hv : Verbatim v) : Verbatim (u ++ v) := by
  intro c hc
  cases List.mem_append.mp hc with
  | inl hc => exact hu c hc
  | inr hc => exact hv c hc

theorem Verbatim.kept {cs : List Char} (h : Verbatim cs) : (cs.filter fun c => !dropped c).takeWhile (· ≠ '#') = cs := by
  have hfilter : cs.filter (fun c => !dropped c) = cs := List.filter_eq_self.mpr fun c hc => by rw [(h c hc).1]; rfl
  rw [hfilter]
  refine List.takeWhile_eq_self_iff.mpr fun c hc => ?_
  exact decide_eq_true (h c hc).2

theorem splitQuery_none {s : List Char} (h : '?' ∉ s) : splitQuery s = (s, none) := by
  have hnone : Split.splitOnce ['?'] s = none := Split.splitOnce_none_of_not_mem h List.mem_cons_self
  unfold splitQuery
  rw [hnone]

theorem splitQuery_some {s : List Char} (h : '?' ∉ s) (q : List Char) : splitQuery (s ++ '?' :: q) = (s, some q) := by
  have hsome : Split.splitOnce ['?'] (s ++ ['?'] ++ q) = some (s, q) := Split.splitOnce_of_not_mem h
  rw [List.append_assoc] at hsome
  unfold splitQuery
  rw [show s ++ '?' :: q = s ++ (['?'] ++ q) from rfl, hsome]

/-- The path has no question mark, and both are of the URL's characters. -/
theorem splitQuery_spec (s : List Char) : '?' ∉ (splitQuery s).1 ∧ (∀ c ∈ (splitQuery s).1, c ∈ s) ∧
    ∀ q, (splitQuery s).2 = some q → ∀ c ∈ q, c ∈ s := by
  by_cases h : '?' ∈ s
  · obtain ⟨u, v, rfl, hnot⟩ := List.eq_append_cons_of_mem h
    rw [splitQuery_some hnot]
    refine ⟨hnot, fun c hc => List.mem_append_left _ hc, ?_⟩
    intro q hq c hc
    cases hq
    exact List.mem_append_right _ (List.mem_cons_of_mem _ hc)
  · rw [splitQuery_none h]
    exact ⟨h, fun c hc => hc, fun q hq => nomatch hq⟩

theorem browse_again (h : Asked path query) (hsite : ¬ ['/', '/'] <+: path) : browse (url path query) = some (path, query) := by
  obtain ⟨hpath, hmark, hslash⟩ := h.chars
  obtain ⟨rest, hrest, hresolved⟩ := h.resolved
  have hverbatim : Verbatim (url path query) := by
    cases hq : query with
    | none => exact hpath
    | some q =>
      refine hpath.append ?_
      intro c hc
      cases List.mem_cons.mp hc with
      | inl heq =>
        subst heq
        exact ⟨by decide, by decide⟩
      | inr hc => exact h.params q hq c hc
  have hsplit : splitQuery (url path query) = (path, query) := by
    cases query with
    | none => exact splitQuery_none hmark
    | some q => exact splitQuery_some hmark q
  have hmap : path.map (fun c => if c = '\\' then '/' else c) = path := by
    refine (List.map_congr_left fun c hc => ?_).trans (List.map_id path)
    refine if_neg fun heq => hslash ?_
    rw [← heq]
    exact hc
  unfold browse
  rw [hverbatim.kept, hsplit]
  dsimp only
  rw [hmap]
  subst hrest
  cases rest with
  | nil =>
    show some ('/' :: resolve [], query) = _
    rw [hresolved]
  | cons c rest =>
    by_cases hc : c = '/'
    · subst hc
      exact absurd ⟨rest, rfl⟩ hsite
    · split
      · rename_i heq
        cases heq
        exact absurd rfl hc
      · rename_i heq
        cases heq
        rw [hresolved]
      · rename_i hno
        exact absurd rfl (hno _)

/-- What a browser asks for is of that form. -/
theorem browse_asked {s : List Char} (h : browse s = some (path, query)) : Asked path query := by
  have hverbatim : Verbatim ((s.filter fun c => !dropped c).takeWhile (· ≠ '#')) := by
    intro c hc
    have hkept := (List.mem_filter.mp ((List.takeWhile_sublist _).subset hc)).2
    have hcut := List.mem_takeWhile_imp hc
    exact ⟨by simpa using hkept, of_decide_eq_true hcut⟩
  unfold browse at h
  generalize (s.filter fun c => !dropped c).takeWhile (· ≠ '#') = t at h hverbatim
  obtain ⟨hmark, hpath, hquery⟩ := splitQuery_spec t
  generalize splitQuery t = r at h hmark hpath hquery
  obtain ⟨p, q⟩ := r
  dsimp only at h hmark hpath hquery
  have hmapped : ∀ c ∈ p.map fun c => if c = '\\' then '/' else c, (dropped c = false ∧ c ≠ '#') ∧ c ≠ '?' ∧ c ≠ '\\' := by
    intro c hc
    obtain ⟨d, hd, rfl⟩ := List.mem_map.mp hc
    by_cases hslash : d = '\\'
    · rw [if_pos hslash]
      decide
    · rw [if_neg hslash]
      exact ⟨hverbatim d (hpath d hd), fun heq => hmark (heq ▸ hd), hslash⟩
  split at h
  · cases h
  · rename_i rest _ heq
    cases h
    have hchars : ∀ c ∈ '/' :: resolve rest, (dropped c = false ∧ c ≠ '#') ∧ c ≠ '?' ∧ c ≠ '\\' := by
      intro c hc
      cases List.mem_cons.mp hc with
      | inl hc =>
        subst hc
        decide
      | inr hc =>
        cases mem_resolve hc with
        | inl hc => exact hmapped c (heq ▸ List.mem_cons_of_mem _ hc)
        | inr hc =>
          subst hc
          decide
    exact ⟨⟨fun c hc => (hchars c hc).1, fun hc => (hchars _ hc).2.1 rfl, fun hc => (hchars _ hc).2.2 rfl⟩, ⟨_, rfl, resolve_idem rest⟩,
      fun q' hq c hc => hverbatim c (hquery q' hq c hc)⟩
  · cases h

end OpenU60.Lib.UrlPath
