/-
  OpenU60.Web.Targets — where `next` and the marker hop may lead (see `OpenU60.Web.Session`).

  - `browse_plain`: an address of plain characters without dot segments is asked for as it is.
  - `browse_next`: what `is_safe_next` accepts stays under `/ui/` and outside its excluded paths.
  - `browse_hop`: a hop leads to the request's own path, with the flag.
  - `withoutHop_hopQuery`: behind the hop the query is the request's without `hop` and `q`.
-/

import OpenU60.Lib.UrlPath
import OpenU60.Web.Session

namespace OpenU60.Web.Session

open OpenU60.Lib OpenU60.Lib.UrlPath

variable {s path location : Text} {query : Option Text} {ps : List Text} {key : Text} {c : Char}

/-! ## Addresses without dot segments -/

theorem plainChar_verbatim (h : plainChar c = true) : dropped c = false ∧ c ≠ '#' ∧ c ≠ '\\' := by
  have hne : ∀ d : Char, plainChar d = false → c ≠ d := by
    intro d hd heq
    rw [heq, hd] at h
    cases h
  refine ⟨?_, hne '#' (by decide), hne '\\' (by decide)⟩
  unfold dropped
  rw [decide_eq_false (hne '\t' (by decide)), decide_eq_false (hne '\n' (by decide)), decide_eq_false (hne '\r' (by decide))]
  rfl

theorem encodedDot_cons {s : Text} (h : encodedDot s = true) (c : Char) : encodedDot (c :: s) = true := by
  rw [encodedDot.eq_def]
  split
  · rfl
  · rfl
  · rename_i heq
    cases heq
    exact h
  · rename_i heq
    cases heq

theorem encodedDot_append (h : encodedDot s = true) (v : Text) : encodedDot (s ++ v) = true := by
  induction s with
  | nil => cases h
  | cons c s ih =>
    rw [encodedDot.eq_def] at h
    split at h
    · rename_i heq
      cases heq
      rfl
    · rename_i heq
      cases heq
      rfl
    · rename_i heq
      cases heq
      exact encodedDot_cons (ih h) c
    · cases h

theorem encodedDot_part {t : Text} (hpart : t <:+: s) (h : encodedDot s = false) : encodedDot t = false := by
  obtain ⟨u, v, rfl⟩ := hpart
  refine Bool.eq_false_iff.mpr fun ht => ?_
  have hwhole : encodedDot (u ++ (t ++ v)) = true := by
    induction u with
    | nil => exact encodedDot_append ht v
    | cons c u ih =>
      refine encodedDot_cons (ih ?_) c
      refine Bool.eq_false_iff.mpr fun hu => ?_
      rw [List.cons_append, List.cons_append, encodedDot_cons hu c] at h
      cases h
  rw [← List.append_assoc, h] at hwhole
  cases hwhole

/-- Without percent-encoded dots nothing is decoded. -/
theorem decodeDots_eq (h : encodedDot s = false) : decodeDots s = s := by
  induction s with
  | nil => rfl
  | cons c s ih =>
    have hrest : encodedDot s = false := Bool.eq_false_iff.mpr fun hs => by rw [encodedDot_cons hs c] at h; cases h
    rw [decodeDots.eq_def]
    split
    · rename_i heq
      cases heq
      cases h
    · rename_i heq
      cases heq
      cases h
    · rename_i heq
      cases heq
      rw [ih hrest]
    · rename_i heq
      cases heq

theorem segments_plain (h : hasDotSegment s = false) : ∀ seg ∈ (pathPart s).splitOn '/', Plain seg := by
  unfold hasDotSegment at h
  rw [Bool.or_eq_false_iff] at h
  intro seg hseg
  have hdots := decodeDots_eq (encodedDot_part (Split.mem_splitOn '/' _ seg hseg).2 h.1)
  have hown := List.any_eq_false.mp h.2 seg hseg
  simp only [Bool.or_eq_true, decide_eq_true_eq, not_or] at hown
  refine ⟨?_, ?_⟩
  · unfold isSingleDot
    rw [hdots]
    exact decide_eq_false hown.1
  · unfold isDoubleDot
    rw [hdots]
    exact decide_eq_false hown.2

theorem pathPart_eq (s : Text) : pathPart s = (splitQuery s).1 := by
  unfold pathPart
  by_cases h : '?' ∈ s
  · obtain ⟨u, v, rfl, hnot⟩ := List.eq_append_cons_of_mem h
    rw [splitQuery_some hnot, List.splitOn_append_cons_self_of_not_mem hnot]
    rfl
  · rw [splitQuery_none h, List.splitOn_eq_singleton h]
    rfl

theorem url_splitQuery (s : Text) : url (splitQuery s).1 (splitQuery s).2 = s := by
  by_cases h : '?' ∈ s
  · obtain ⟨u, v, rfl, hnot⟩ := List.eq_append_cons_of_mem h
    rw [splitQuery_some hnot]
    rfl
  · rw [splitQuery_none h]
    rfl

/-- A beginning without a question mark is the path's. -/
theorem prefix_path {w : Text} (hw : '?' ∉ w) (h : w <+: s) : w <+: (splitQuery s).1 := by
  by_cases hmark : '?' ∈ s
  · obtain ⟨u, v, rfl, hnot⟩ := List.eq_append_cons_of_mem hmark
    rw [splitQuery_some hnot]
    by_cases hlen : w.length ≤ u.length
    · exact List.prefix_of_prefix_length_le h (List.prefix_append u _) hlen
    · obtain ⟨t, ht⟩ : u ++ ['?'] <+: w := by
        refine List.prefix_of_prefix_length_le ⟨v, by simp⟩ h ?_
        rw [List.length_append, List.length_singleton]
        omega
      exact absurd (ht ▸ List.mem_append_left t (List.mem_append_right u List.mem_cons_self)) hw
  · rw [splitQuery_none hmark]
    exact h

theorem path_starts (s : Text) : (splitQuery s).1 <+: s := by
  have h : (splitQuery s).1 <+: url (splitQuery s).1 (splitQuery s).2 := by
    unfold url
    split
    · exact List.prefix_refl _
    · exact List.prefix_append _ _
  rw [url_splitQuery] at h
  exact h

theorem not_twoSlashes (h : uiPath <+: path) : ¬ ['/', '/'] <+: path := by
  intro hp
  have hboth := List.prefix_of_prefix_length_le hp h (by decide)
  exact absurd hboth (by decide)

/-- An address under `/ui/` of plain characters without dot segments is asked for as it is. -/
theorem browse_plain (hui : uiPath <+: s) (hchars : s.all plainChar = true) (hdots : hasDotSegment s = false) :
    browse s = some ((splitQuery s).1, (splitQuery s).2) := by
  obtain ⟨hmark, hpath, hquery⟩ := splitQuery_spec s
  have hplain : ∀ c ∈ s, dropped c = false ∧ c ≠ '#' ∧ c ≠ '\\' := fun c hc => plainChar_verbatim (List.all_eq_true.mp hchars c hc)
  have huiPath := prefix_path (by decide) hui
  have hsegments := segments_plain hdots
  rw [pathPart_eq] at hsegments
  have hasked : Asked (splitQuery s).1 (splitQuery s).2 := by
    refine ⟨⟨fun c hc => ⟨(hplain c (hpath c hc)).1, (hplain c (hpath c hc)).2.1⟩, hmark, fun hc => (hplain _ (hpath _ hc)).2.2 rfl⟩, ?_,
      fun q hq c hc => ⟨(hplain c (hquery q hq c hc)).1, (hplain c (hquery q hq c hc)).2.1⟩⟩
    obtain ⟨rest, hrest⟩ := huiPath
    refine ⟨"ui/".toList ++ rest, hrest.symm, resolve_plain fun seg hseg => hsegments seg ?_⟩
    rw [← hrest]
    show seg ∈ ('/' :: ("ui/".toList ++ rest)).splitOn '/'
    rw [List.splitOn_cons_eq_if_modifyHead, if_pos (by rfl)]
    exact List.mem_cons_of_mem _ hseg
  have hagain := browse_again hasked (not_twoSlashes huiPath)
  rw [url_splitQuery] at hagain
  exact hagain

/-! ## The `next` rule -/

theorem isSafeNext_spec (h : isSafeNext s = true) :
    uiPath <+: s ∧ Text.byteLen s ≤ nextMax ∧ s.all plainChar = true ∧ hasDotSegment s = false ∧ ∀ x ∈ excluded, ¬ x <+: s := by
  unfold isSafeNext at h
  simp only [Bool.and_eq_true, Bool.not_eq_true', decide_eq_true_eq, List.isPrefixOf_iff_prefix] at h
  obtain ⟨⟨⟨⟨⟨hui, hlen⟩, -⟩, hchars⟩, hdots⟩, hexcluded⟩ := h
  refine ⟨hui, hlen, hchars, hdots, fun x hx hp => ?_⟩
  have hx := List.any_eq_false.mp hexcluded x hx
  exact hx (List.isPrefixOf_iff_prefix.mpr hp)

/-- What the rule accepts stays under `/ui/`, outside of what it excludes. -/
theorem browse_next (h : isSafeNext s = true) :
    ∃ p q, browse s = some (p, q) ∧ uiPath <+: p ∧ ∀ x ∈ excluded, ¬ x <+: p := by
  obtain ⟨hui, -, hchars, hdots, hexcluded⟩ := isSafeNext_spec h
  exact ⟨_, _, browse_plain hui hchars hdots, prefix_path (by decide) hui, fun x hx hp => hexcluded x hx (hp.trans (path_starts s))⟩

theorem safeNext_safe (s : Option Text) : isSafeNext (safeNext s) = true := by
  unfold safeNext
  cases hs : s.filter isSafeNext with
  | none => decide
  | some t => exact (Option.filter_eq_some_iff.mp hs).2

/-! ## Queries -/

theorem mem_dropKey {p : Text} : p ∈ dropKey key ps ↔ p ∈ ps ∧ p ≠ [] ∧ p ≠ key ∧ (key ++ ['=']).isPrefixOf p = false := by
  unfold dropKey
  simp only [List.mem_filter, Bool.and_eq_true, Bool.not_eq_true', decide_eq_true_eq, and_assoc]

theorem dropKey_append (key : Text) (ps qs : List Text) : dropKey key (ps ++ qs) = dropKey key ps ++ dropKey key qs := List.filter_append ..

theorem dropKey_idem (key : Text) (ps : List Text) : dropKey key (dropKey key ps) = dropKey key ps := by
  unfold dropKey
  rw [List.filter_filter]
  simp only [Bool.and_self]

theorem dropKey_comm (key key' : Text) (ps : List Text) : dropKey key (dropKey key' ps) = dropKey key' (dropKey key ps) := by
  unfold dropKey
  rw [List.filter_filter, List.filter_filter]
  exact List.filter_congr fun p _ => Bool.and_comm _ _

theorem mem_pieces {p : Text} (h : p ∈ pieces query) : '&' ∉ p := (Split.mem_splitOn '&' _ p h).1

theorem pieces_join (hne : ps ≠ []) (h : ∀ p ∈ ps, '&' ∉ p) : pieces (some (join ps)) = ps :=
  List.splitOn_intercalate '&' h hne

theorem pieces_none : pieces none = [[]] := by decide

theorem amp_not_mem (h : ∀ p ∈ ps, '&' ∉ p) (key : Text) : ∀ p ∈ dropKey key ps, '&' ∉ p := fun p hp => h p (mem_dropKey.mp hp).1

theorem withoutHop_none (h : dropKey hop (pieces query) = []) : withoutHop query = none := if_pos h

theorem withoutHop_some (h : dropKey hop (pieces query) ≠ []) : withoutHop query = some (join (dropKey hop (pieces query))) := if_neg h

theorem dropKey_withoutHop (key : Text) (query : Option Text) : dropKey key (pieces (withoutHop query)) = dropKey key (dropKey hop (pieces query)) := by
  by_cases h : dropKey hop (pieces query) = []
  · rw [withoutHop_none h, h, pieces_none]
    rfl
  · rw [withoutHop_some h, pieces_join h (amp_not_mem (fun p hp => mem_pieces hp) hop)]

theorem hopped_withoutHop (query : Option Text) : hopped (withoutHop query) = false := by
  refine List.any_eq_false.mpr fun p hp => ?_
  intro hflag
  have hp' : p = hopFlag := of_decide_eq_true hflag
  subst hp'
  have hkept : hopFlag ∈ dropKey [] (pieces (withoutHop query)) := mem_dropKey.mpr ⟨hp, by decide, by decide, by decide⟩
  rw [dropKey_withoutHop] at hkept
  exact absurd (mem_dropKey.mp (mem_dropKey.mp hkept).1).2.2.2 (by decide)

/-- A query without its hop and search parameters. -/
def stripped (query : Option Text) : Option Text :=
  let kept := dropKey search (dropKey hop (pieces query))
  if kept = [] then none else some (join kept)

/-! ## The hop -/

/-- The query of the hop's request. -/
def hopQuery (query : Option Text) : Text := join (dropKey search (pieces (withoutHop query)) ++ [hopFlag])

theorem pieces_hopQuery (query : Option Text) :
    pieces (some (hopQuery query)) = dropKey search (dropKey hop (pieces query)) ++ [hopFlag] := by
  unfold hopQuery
  rw [pieces_join, dropKey_withoutHop]
  · exact List.append_ne_nil_of_right_ne_nil _ (List.cons_ne_nil _ _)
  · intro p hp
    cases List.mem_append.mp hp with
    | inl hp => exact mem_pieces (mem_dropKey.mp hp).1
    | inr hp =>
      cases List.mem_singleton.mp hp
      decide

theorem hopped_hopQuery (query : Option Text) : hopped (some (hopQuery query)) = true := by
  unfold hopped
  rw [pieces_hopQuery]
  exact List.any_eq_true.mpr ⟨hopFlag, List.mem_append_right _ List.mem_cons_self, by decide⟩

/-- Behind the hop: the request's query without `hop` and `q`. -/
theorem withoutHop_hopQuery (query : Option Text) : withoutHop (some (hopQuery query)) = stripped query := by
  have hkept : dropKey hop (pieces (some (hopQuery query))) = dropKey search (dropKey hop (pieces query)) := by
    rw [pieces_hopQuery, dropKey_append, dropKey_comm, dropKey_idem]
    exact List.append_nil _
  unfold withoutHop stripped
  rw [hkept]

theorem keyValue_self (h : '=' ∉ key) : keyValue key = (key, []) := by
  have hnone : Split.splitOnce ['='] key = none := Split.splitOnce_none_of_not_mem h List.mem_cons_self
  unfold keyValue
  rw [hnone]
  rfl

theorem keyValue_cons (h : '=' ∉ key) (value : Text) : keyValue (key ++ ['='] ++ value) = (key, value) := by
  have hsome : Split.splitOnce ['='] (key ++ ['='] ++ value) = some (key, value) := Split.splitOnce_of_not_mem h
  unfold keyValue
  rw [hsome]
  rfl

/-- Another key's value is not among what is dropped. -/
theorem paramValue_dropped {p other : Text} (hkey : '=' ∉ key) (hne : key ≠ other) (hother : other ≠ []) (hp : p ∉ dropKey key ps) (hin : p ∈ ps) :
    paramValue other p = none := by
  unfold paramValue
  refine if_neg fun heq => hp (mem_dropKey.mpr ⟨hin, ?_, ?_, ?_⟩)
  · intro hnil
    subst hnil
    rw [keyValue_self List.not_mem_nil] at heq
    exact hother heq.symm
  · intro hself
    subst hself
    rw [keyValue_self hkey] at heq
    exact hne heq
  · refine Bool.eq_false_iff.mpr fun hstarts => ?_
    obtain ⟨value, hvalue⟩ := List.isPrefixOf_iff_prefix.mp hstarts
    rw [← hvalue, keyValue_cons hkey] at heq
    exact hne heq

theorem findSome_dropKey {other : Text} (hkey : '=' ∉ key) (hne : key ≠ other) (hother : other ≠ []) (ps : List Text) :
    (dropKey key ps).findSome? (paramValue other) = ps.findSome? (paramValue other) := by
  induction ps with
  | nil => rfl
  | cons p ps ih =>
    have hcons : dropKey key (p :: ps) = dropKey key [p] ++ dropKey key ps := dropKey_append key [p] ps
    rw [hcons, List.findSome?_append, ih, List.findSome?_cons]
    by_cases hp : p ∈ dropKey key [p]
    · have hone : dropKey key [p] = [p] := by
        refine List.filter_eq_self.mpr fun q hq => ?_
        cases List.mem_singleton.mp hq
        exact (List.mem_filter.mp hp).2
      rw [hone, List.findSome?_singleton]
      cases paramValue other p <;> rfl
    · have hnone := paramValue_dropped hkey hne hother hp List.mem_cons_self
      have hnil : dropKey key [p] = [] := by
        refine List.filter_eq_nil_iff.mpr fun q hq hkept => hp ?_
        cases List.mem_singleton.mp hq
        exact List.mem_filter.mpr ⟨List.mem_cons_self, hkept⟩
      rw [hnil, hnone]
      rfl

theorem queryParam_pieces (h : key ≠ []) (query : Option Text) : queryParam query key = (pieces query).findSome? (paramValue key) := by
  cases query with
  | some q => rfl
  | none =>
    rw [pieces_none, List.findSome?_singleton]
    unfold paramValue
    rw [keyValue_self List.not_mem_nil]
    exact (if_neg fun heq => h heq.symm).symm

/-- A hop keeps `next`. -/
theorem queryParam_hopQuery (query : Option Text) : queryParam (some (hopQuery query)) "next".toList = queryParam query "next".toList := by
  rw [queryParam_pieces (by decide), queryParam_pieces (by decide), pieces_hopQuery, List.findSome?_append,
    findSome_dropKey (by decide) (by decide) (by decide), findSome_dropKey (by decide) (by decide) (by decide)]
  have hflag : [hopFlag].findSome? (paramValue "next".toList) = none := by decide
  rw [hflag, Option.or_none]

theorem withQuery_flag (path : Text) (ps : List Text) : withQuery path (ps ++ [hopFlag]) = path ++ '?' :: join (ps ++ [hopFlag]) :=
  if_neg (List.append_ne_nil_of_right_ne_nil _ (List.cons_ne_nil _ _))

theorem hopTarget_spec {target : Text} (h : hopTarget path query = some target) :
    target = withQuery path (dropKey search (pieces query) ++ [hopFlag]) ∧ uiPath <+: target ∧ target.all plainChar = true ∧
      hasDotSegment target = false ∧ ¬ "/ui/live/".toList <+: target ∧ ¬ "/ui/a/".toList <+: target := by
  unfold hopTarget at h
  dsimp only at h
  split at h
  · rename_i hok
    cases h
    simp only [Bool.and_eq_true, Bool.not_eq_true', List.isPrefixOf_iff_prefix] at hok
    obtain ⟨⟨⟨⟨⟨hui, -⟩, hchars⟩, hdots⟩, hlive⟩, hasset⟩ := hok
    refine ⟨rfl, hui, hchars, hdots, ?_, ?_⟩
    · intro hp
      rw [List.isPrefixOf_iff_prefix.mpr hp] at hlive
      cases hlive
    · intro hp
      rw [List.isPrefixOf_iff_prefix.mpr hp] at hasset
      cases hasset
  · cases h

/-- A hop leads to the request's own path, with the flag. -/
theorem browse_hop {target : Text} (hmark : '?' ∉ path) (h : hopTarget path (withoutHop query) = some target) :
    browse target = some (path, some (hopQuery query)) ∧ uiPath <+: path ∧ ¬ "/ui/live/".toList <+: path ∧ ¬ "/ui/a/".toList <+: path := by
  obtain ⟨htarget, hui, hchars, hdots, hlive, hasset⟩ := hopTarget_spec h
  rw [withQuery_flag] at htarget
  have hsplit : splitQuery target = (path, some (hopQuery query)) := by
    rw [htarget]
    exact splitQuery_some hmark _
  have hbrowse := browse_plain hui hchars hdots
  have hstarts := prefix_path (by decide) hui
  have hpath := path_starts target
  rw [hsplit] at hbrowse hstarts hpath
  exact ⟨hbrowse, hstarts, fun hp => hlive (hp.trans hpath), fun hp => hasset (hp.trans hpath)⟩

theorem join_snoc (hne : ps ≠ []) (p : Text) : join (ps ++ [p]) = join ps ++ '&' :: p := by
  unfold join
  induction ps with
  | nil => exact absurd rfl hne
  | cons q ps ih =>
    by_cases hend : ps = []
    · subst hend
      rw [List.singleton_append, List.intercalate_cons_of_ne_nil (List.cons_ne_nil _ _), List.intercalate_singleton, List.intercalate_singleton,
        List.append_assoc]
      rfl
    · rw [List.cons_append, List.intercalate_cons_of_ne_nil (List.append_ne_nil_of_right_ne_nil _ (List.cons_ne_nil _ _)), ih hend,
        List.intercalate_cons_of_ne_nil hend, List.append_assoc, List.append_assoc, List.append_assoc]

theorem splitQuery_withQuery (hmark : '?' ∉ path) (ps : List Text) : (splitQuery (withQuery path ps)).1 = path := by
  unfold withQuery
  split
  · rw [splitQuery_none hmark]
  · rw [splitQuery_some hmark]

/-- What may be `next` may be hopped to: there is room for the flag. -/
theorem hopTarget_of_next (h : isSafeNext (withQuery path (dropKey search (pieces query))) = true) (hmark : '?' ∉ path) :
    ∃ target, hopTarget path query = some target := by
  obtain ⟨hui, hlen, hchars, hdots, hexcluded⟩ := isSafeNext_spec h
  unfold hopTarget
  dsimp only
  generalize dropKey search (pieces query) = ps at hui hlen hchars hdots hexcluded ⊢
  have hflag : ∃ c, plainChar c = true ∧ c.utf8Size = 1 ∧ withQuery path (ps ++ [hopFlag]) = withQuery path ps ++ c :: hopFlag := by
    rw [withQuery_flag]
    by_cases hps : ps = []
    · refine ⟨'?', by decide, by decide, ?_⟩
      subst hps
      rfl
    · refine ⟨'&', by decide, by decide, ?_⟩
      rw [join_snoc hps, withQuery, if_neg hps, List.append_assoc]
      rfl
  obtain ⟨c, hc, hsize, htarget⟩ := hflag
  have hpath := splitQuery_withQuery hmark (ps ++ [hopFlag])
  have hroom : Text.byteLen (withQuery path (ps ++ [hopFlag])) ≤ hopMax := by
    have hfour : Text.byteLen hopFlag = 5 := by decide
    rw [htarget, Text.byteLen_append, Text.byteLen_cons, hsize, hfour]
    unfold nextMax at hlen
    unfold hopMax
    omega
  have hall : (withQuery path (ps ++ [hopFlag])).all plainChar = true := by
    rw [htarget, List.all_append, hchars, List.all_cons, hc]
    decide
  have hdots' : hasDotSegment (withQuery path (ps ++ [hopFlag])) = false := by
    unfold hasDotSegment at hdots ⊢
    rw [pathPart_eq, splitQuery_withQuery hmark] at hdots ⊢
    exact hdots
  have hnot : ∀ x ∈ excluded, '?' ∉ x → x.isPrefixOf (withQuery path (ps ++ [hopFlag])) = false := by
    intro x hx hxmark
    refine Bool.eq_false_iff.mpr fun hp => hexcluded x hx ?_
    have hin := prefix_path hxmark (List.isPrefixOf_iff_prefix.mp hp)
    rw [hpath, ← splitQuery_withQuery hmark ps] at hin
    exact hin.trans (path_starts _)
  have hui' : uiPath.isPrefixOf (withQuery path (ps ++ [hopFlag])) = true := by
    rw [List.isPrefixOf_iff_prefix, htarget]
    exact hui.trans (List.prefix_append _ _)
  refine ⟨_, if_pos ?_⟩
  rw [hui', hall, hdots', hnot _ (by decide) (by decide), hnot _ (by decide) (by decide), decide_eq_true hroom]
  rfl

end OpenU60.Web.Session
