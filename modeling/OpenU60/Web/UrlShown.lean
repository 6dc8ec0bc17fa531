/-
  OpenU60.Web.UrlShown — what a page shows of a URL, and of which of its parts that tells.

  Two server addresses differ in secrets (`SecretsDiffer`) where they agree but for the text of the user name and
  password, the query and the fragment; two secret URLs (`Secretly`) where they agree on the host.
  - `shownUrl_same`, `shownUrl_leaks`: what is shown of a server address is the same for all that differ from it in
    secrets exactly if it is `Plain`: it has a scheme, or it has no user name and nothing that a
    `://` in its query or fragment could bring to light.
  - `host_same`, `host_leaks`: the same for the host of a secret URL, where the schemes are of one kind.
-/

import Mathlib
import OpenU60.Web.Url

namespace OpenU60.Web.Url

open OpenU60.Lib OpenU60.Lib.Split

/-! ## Differing in secrets -/

/-- Absent in both or in neither, and empty in both or in neither. -/
def Alike (x y : Option (List Char)) : Prop := x.map List.isEmpty = y.map List.isEmpty

structure SecretsDiffer (u v : List Char) : Prop where
  scheme : (parts v).scheme = (parts u).scheme
  user : Alike (parts u).user (parts v).user
  host : (parts v).host = (parts u).host
  path : (parts v).path = (parts u).path
  query : Alike (parts u).query (parts v).query
  fragment : Alike (parts u).fragment (parts v).fragment

structure Secretly (u v : List Char) : Prop where
  empty : u = [] ↔ v = []
  scheme : (parts (Text.trim u)).scheme.isSome = (parts (Text.trim v)).scheme.isSome
  user : Alike (parts (Text.trim u)).user (parts (Text.trim v)).user
  host : (parts (Text.trim v)).host = (parts (Text.trim u)).host
  path : (parts (Text.trim u)).path = [] ↔ (parts (Text.trim v)).path = []
  query : Alike (parts (Text.trim u)).query (parts (Text.trim v)).query
  fragment : Alike (parts (Text.trim u)).fragment (parts (Text.trim v)).fragment

/-- What stands before the query. -/
def Parts.base (p : Parts) : List Char := p.authority ++ p.path

/-- With a scheme; or without a user name, and without a query and fragment or with a `://` before them. -/
def Plain (u : List Char) : Prop :=
  let p := parts u
  p.scheme.isSome = true ∨ p.user.getD [] = [] ∧
    (p.query.getD [] = [] ∧ p.fragment.getD [] = [] ∨ (splitOnce sep p.base).isSome = true)

/-- With a scheme, or nothing but a host. -/
def SecretPlain (u : List Char) : Prop :=
  let p := parts (Text.trim u)
  u = [] ∨ p.scheme.isSome = true ∨ p.path = [] ∧ p.query.getD [] = [] ∧ p.fragment.getD [] = []

def Parts.http (p : Parts) : Bool := p.scheme.any (isHttp <| lower ·)

/-- Both schemes are http(s) or neither is, or that does not matter. -/
def SchemesAgree (u v : List Char) : Prop :=
  (parts (Text.trim u)).http = (parts (Text.trim v)).http ∨ hostlike (parts (Text.trim u)).host = true ∨
    (parts (Text.trim u)).host = []

instance (x y : Option (List Char)) : Decidable (Alike x y) := by unfold Alike; infer_instance
instance : DecidablePred Plain := fun _ => by unfold Plain; dsimp only; infer_instance
instance : DecidablePred SecretPlain := fun _ => by unfold SecretPlain; dsimp only; infer_instance

variable {u v x y s r : List Char} {p : Parts} {a c : Char}

/-! ## Schemes -/

theorem schemeOf_some (h : splitOnce sep u = some (s, r)) (hs : isScheme s = true) : schemeOf u = (some s, r) := by
  unfold schemeOf
  rw [h]
  exact if_pos hs

theorem schemeOf_bad (h : splitOnce sep u = some (s, r)) (hs : isScheme s = false) : schemeOf u = (none, u) := by
  unfold schemeOf
  rw [h]
  exact if_neg (by rw [hs]; exact Bool.false_ne_true)

theorem schemeOf_none (h : splitOnce sep u = none) : schemeOf u = (none, u) := by
  unfold schemeOf
  rw [h]

theorem isScheme_of_mem (hc : c ∈ s) (hchar : schemeChar c = false) (hspace : Text.isWhitespace c = false) : isScheme s = false := by
  have hmem : c ∈ s.dropWhile Text.isWhitespace := by
    rw [← List.takeWhile_append_dropWhile (p := Text.isWhitespace) (l := s)] at hc
    obtain hc | hc := List.mem_append.mp hc
    · cases (mem_takeWhile hc).symm.trans hspace
    · exact hc
  unfold isScheme
  dsimp only
  rw [Bool.and_eq_false_iff]
  refine .inr (Bool.eq_false_iff.mpr fun hall => ?_)
  cases (List.all_eq_true.mp hall c hmem).symm.trans hchar

/-- A character that no scheme has, before any `://`. -/
theorem schemeOf_barrier (hx : splitOnce sep x = none) (ha : a ∉ sep) (hchar : schemeChar a = false)
    (hspace : Text.isWhitespace a = false) (y : List Char) : schemeOf (x ++ a :: y) = (none, x ++ a :: y) := by
  cases hy : splitOnce sep y with
  | none => exact schemeOf_none (by rw [splitOnce_barrier hx ha, hy]; rfl)
  | some q =>
    refine schemeOf_bad (s := x ++ a :: q.1) (r := q.2) (by rw [splitOnce_barrier hx ha, hy]; rfl) ?_
    exact isScheme_of_mem (List.mem_append_right _ (List.mem_cons_self ..)) hchar hspace

theorem scheme_some (h : (parts u).scheme = some s) : ∃ r, splitOnce sep u = some (s, r) ∧ (parts u).rest = r := by
  have hs : (schemeOf u).1 = some s := h
  rw [rest_parts]
  unfold schemeOf at hs ⊢
  cases hu : splitOnce sep u with
  | none => rw [hu] at hs; cases hs
  | some q =>
    rw [hu] at hs
    dsimp only at hs ⊢
    split at hs
    · rename_i hq
      cases hs
      exact ⟨q.2, rfl, by rw [if_pos hq]⟩
    · cases hs

theorem rest_of_none (h : (parts u).scheme = none) : (parts u).rest = u := by
  have ht := text_parts u
  unfold Parts.text at ht
  rw [h] at ht
  exact ht

/-! ## Server addresses -/

/-- `without_userinfo`, of what follows the scheme. -/
def afterUser (r : List Char) : List Char :=
  match rsplitOnce '@' (r.takeWhile inAuthority) with
  | some (_, h) => h ++ r.dropWhile inAuthority
  | none => r

theorem withoutUserinfo_eq (u : List Char) : withoutUserinfo u =
    match splitOnce sep u with
    | some (s, r) => s ++ sep ++ afterUser r
    | none => u := by
  unfold withoutUserinfo afterUser
  cases hu : splitOnce sep u with
  | none => rfl
  | some q =>
    dsimp only
    cases hr : rsplitOnce '@' (q.2.takeWhile inAuthority) with
    | none => exact splitOnce_eq hu
    | some _ => rfl

theorem shownUrl_eq (u : List Char) : shownUrl u =
    match splitOnce sep u with
    | some (s, r) => s ++ sep ++ (afterUser r).takeWhile inPath
    | none => u.takeWhile inPath := by
  unfold shownUrl
  rw [withoutUserinfo_eq]
  cases hu : splitOnce sep u with
  | none => dsimp only; rw [hu]
  | some q => dsimp only; rw [splitOnce_append hu]

theorem afterUser_append (r : List Char) (hy : y = [] ∨ ∃ c r, y = c :: r ∧ inPath c = false) :
    (afterUser (r ++ y)).takeWhile inPath = (afterUser r).takeWhile inPath := by
  have hstop : ∀ x : List Char, (x ++ y).takeWhile inPath = x.takeWhile inPath := by
    intro x
    induction x with
    | nil =>
      obtain rfl | ⟨c, r, rfl, hc⟩ := hy
      · rfl
      · simp [hc]
    | cons c x ih => by_cases hc : inPath c = true <;> simp [hc, ih]
  have hy' : y = [] ∨ ∃ c r, y = c :: r ∧ inAuthority c = false := by
    obtain rfl | ⟨c, r, rfl, hc⟩ := hy
    · exact .inl rfl
    · refine .inr ⟨c, r, rfl, Bool.eq_false_iff.mpr fun h => ?_⟩
      cases (inPath_of_inAuthority h).symm.trans hc
  have hta : (r ++ y).takeWhile inAuthority = r.takeWhile inAuthority ∧
      (r ++ y).dropWhile inAuthority = r.dropWhile inAuthority ++ y := by
    induction r with
    | nil =>
      obtain rfl | ⟨c, r, rfl, hc⟩ := hy'
      · exact ⟨rfl, rfl⟩
      · simp [hc]
    | cons c r ih => by_cases hc : inAuthority c = true <;> simp [hc, ih]
  unfold afterUser
  rw [hta.1, hta.2]
  cases rsplitOnce '@' (r.takeWhile inAuthority) with
  | none => exact hstop r
  | some q =>
    dsimp only
    rw [← List.append_assoc]
    exact hstop _

theorem Parts.Fits.authority (hp : p.Fits) : ∀ c ∈ p.authority, inAuthority c = true := by
  intro c hc
  obtain hc | hc := List.mem_append.mp hc
  · cases hu : p.user with
    | none => rw [hu] at hc; cases hc
    | some x =>
      rw [hu] at hc
      obtain hc | hc := List.mem_append.mp hc
      · exact hp.user x hu c hc
      · cases List.mem_singleton.mp hc
        decide
  · exact (hp.host c hc).1

theorem Parts.Fits.base (hp : p.Fits) : ∀ c ∈ p.base, inPath c = true := by
  intro c hc
  obtain hc | hc := List.mem_append.mp hc
  · exact inPath_of_inAuthority (hp.authority c hc)
  · exact hp.path.1 c hc

theorem Parts.extra_stop (p : Parts) : p.extra = [] ∨ ∃ c r, p.extra = c :: r ∧ inPath c = false := by
  unfold Parts.extra
  cases p.query with
  | some q => exact .inr ⟨'?', _, rfl, by decide⟩
  | none =>
    cases p.fragment with
    | some f => exact .inr ⟨'#', _, rfl, by decide⟩
    | none => exact .inl rfl

theorem rest_eq_base (p : Parts) : p.rest = p.base ++ p.extra := (List.append_assoc ..).symm

/-- No user name is left. -/
theorem at_not_mem_afterUser (r : List Char) : '@' ∉ (afterUser r).takeWhile inAuthority := by
  unfold afterUser
  cases hr : rsplitOnce '@' (r.takeWhile inAuthority) with
  | none => exact rsplitOnce_none.mp hr
  | some q =>
    obtain ⟨heq, hno⟩ := rsplitOnce_some (s := q.1) (r := q.2) hr
    have hall : ∀ c ∈ q.2, inAuthority c = true := by
      intro c hc
      refine mem_takeWhile (x := r) (q := inAuthority) ?_
      rw [heq]
      exact List.mem_append_right _ (List.mem_cons_of_mem _ hc)
    dsimp only
    rw [(takeWhile_append_stop hall (dropWhile_stop inAuthority r)).1]
    exact hno

theorem afterUser_self (h : '@' ∉ r.takeWhile inAuthority) : afterUser r = r := by
  unfold afterUser
  rw [rsplitOnce_none.mpr h]

theorem takeWhile_inPath (r : List Char) : (r.takeWhile inPath).takeWhile inAuthority = r.takeWhile inAuthority := by
  rw [List.takeWhile_takeWhile]
  congr 1
  funext c
  have hboth : (inAuthority c = true ∧ inPath c = true) = (inAuthority c = true) := propext (and_iff_left_of_imp inPath_of_inAuthority)
  simp only [hboth, Bool.decide_eq_true]

/-- What is shown is shown as it is. -/
theorem shownUrl_idem (h : splitOnce sep u = some (s, r)) : shownUrl (shownUrl u) = shownUrl u := by
  have hno := at_not_mem_afterUser r
  rw [← takeWhile_inPath] at hno
  rw [shownUrl_eq u, h]
  dsimp only
  rw [shownUrl_eq, splitOnce_append h]
  dsimp only
  rw [afterUser_self hno, List.takeWhile_idem]

theorem length_afterUser (r : List Char) : afterUser r = r ∨ (afterUser r).length < r.length := by
  unfold afterUser
  cases hr : rsplitOnce '@' (r.takeWhile inAuthority) with
  | none => exact .inl rfl
  | some q =>
    obtain ⟨heq, -⟩ := rsplitOnce_some (s := q.1) (r := q.2) hr
    refine .inr ?_
    have hlen := congrArg List.length (List.takeWhile_append_dropWhile (p := inAuthority) (l := r))
    rw [heq, List.length_append, List.length_append, List.length_cons] at hlen
    dsimp only
    rw [List.length_append]
    omega

/-- Where all is shown, there is no user name, no query and no fragment. -/
theorem mem_afterUser {r : List Char} {c : Char} (hc : c ∈ afterUser r) : c ∈ r := by
  unfold afterUser at hc
  cases hr : rsplitOnce '@' (r.takeWhile inAuthority) with
  | none =>
    rw [hr] at hc
    exact hc
  | some q =>
    obtain ⟨heq, -⟩ := rsplitOnce_some (s := q.1) (r := q.2) hr
    rw [hr] at hc
    rw [← List.takeWhile_append_dropWhile (p := inAuthority) (l := r), heq]
    cases List.mem_append.mp hc with
    | inl hhost => exact List.mem_append_left _ (List.mem_append_right _ (List.mem_cons_of_mem '@' hhost))
    | inr hrest => exact List.mem_append_right _ hrest

/-- Nothing is shown that the address does not have. -/
theorem mem_shownUrl {u : List Char} {c : Char} (hc : c ∈ shownUrl u) : c ∈ u := by
  rw [shownUrl_eq] at hc
  cases hu : splitOnce sep u with
  | none =>
    rw [hu] at hc
    exact (List.takeWhile_sublist inPath).subset hc
  | some q =>
    rw [hu] at hc
    rw [splitOnce_eq hu]
    cases List.mem_append.mp hc with
    | inl hstart => exact List.mem_append_left _ hstart
    | inr hrest => exact List.mem_append_right _ (mem_afterUser ((List.takeWhile_sublist inPath).subset hrest))

theorem shownUrl_self (h : splitOnce sep u = some (s, r)) (hself : shownUrl u = u) : withoutUserinfo u = u ∧ ∀ c ∈ r, inPath c = true := by
  have hu := splitOnce_eq h
  rw [shownUrl_eq, h] at hself
  dsimp only at hself
  have hr : (afterUser r).takeWhile inPath = r := List.append_cancel_left (hself.trans hu)
  have hle := (List.takeWhile_sublist inPath (l := afterUser r)).length_le
  rw [hr] at hle
  have hown : afterUser r = r := by
    cases length_afterUser r with
    | inl heq => exact heq
    | inr hlt => omega
  rw [hown] at hr
  refine ⟨?_, fun c hc => mem_takeWhile (x := r) (q := inPath) (by rw [hr]; exact hc)⟩
  rw [withoutUserinfo_eq, h]
  dsimp only
  rw [hown, ← hu]

/-- With a scheme, the host and path are shown after it. -/
theorem shownUrl_scheme (h : (parts u).scheme = some s) : shownUrl u = s ++ sep ++ ((parts u).host ++ (parts u).path) := by
  obtain ⟨r, hu, hr⟩ := scheme_some h
  have hfits := fits_parts u
  rw [shownUrl_eq, hu]
  dsimp only
  congr 1
  rw [← hr, rest_eq_base, afterUser_append _ (Parts.extra_stop _)]
  have hpath : (parts u).path = [] ∨ ∃ c r, (parts u).path = c :: r ∧ inAuthority c = false := by
    obtain hnil | ⟨r, hslash⟩ := hfits.path.2
    · exact .inl hnil
    · exact .inr ⟨'/', r, hslash, by decide⟩
  obtain ⟨hta, hda⟩ := takeWhile_append_stop hfits.authority hpath
  have hno : '@' ∉ (parts u).host := fun hm => (hfits.host '@' hm).2 rfl
  have hafter : afterUser (parts u).base = (parts u).host ++ (parts u).path := by
    unfold afterUser Parts.base
    rw [hta, hda]
    unfold Parts.authority
    cases (parts u).user with
    | none =>
      dsimp only [Option.elim]
      rw [List.nil_append, rsplitOnce_none.mpr hno]
    | some x =>
      dsimp only [Option.elim]
      rw [List.append_assoc, List.singleton_append, rsplitOnce_append hno]
  have hall : ∀ c ∈ (parts u).host ++ (parts u).path, inPath c = true := by
    intro c hc
    obtain hc | hc := List.mem_append.mp hc
    · exact inPath_of_inAuthority (hfits.host c hc).1
    · exact hfits.path.1 c hc
  rw [hafter]
  have hself := (takeWhile_append_stop (y := []) hall (.inl rfl)).1
  rwa [List.append_nil] at hself

/-- Without one, a `://` before the query decides alone. -/
theorem shownUrl_base (h : (parts u).scheme = none) (hb : splitOnce sep (parts u).base = some (s, r)) :
    shownUrl u = s ++ sep ++ (afterUser r).takeWhile inPath := by
  have hu : splitOnce sep u = some (s, r ++ (parts u).extra) := by
    have := splitOnce_snoc hb (parts u).extra
    rwa [← rest_eq_base, rest_of_none h] at this
  rw [shownUrl_eq, hu]
  dsimp only
  rw [afterUser_append _ (Parts.extra_stop _)]

theorem alike_nil (h : Alike (some []) (some x)) : x = [] := by
  have : ([] : List Char).isEmpty = x.isEmpty := Option.some.inj h
  exact List.isEmpty_iff.mp this.symm

theorem alike_empty {x y : Option (List Char)} (h : Alike x y) (hx : x.getD [] = []) : y = x := by
  cases x with
  | none =>
    cases y with
    | none => rfl
    | some y => cases h
  | some x =>
    have hx' : x = [] := hx
    subst hx'
    cases y with
    | none => cases h
    | some y => rw [alike_nil h]

/-- What is shown of a plain server address is shown of all that differ from it in secrets. -/
theorem shownUrl_same (hu : Plain u) (h : SecretsDiffer u v) : shownUrl v = shownUrl u := by
  cases hs : (parts u).scheme with
  | some s => rw [shownUrl_scheme hs, shownUrl_scheme (h.scheme.trans hs), h.host, h.path]
  | none =>
    obtain hsome | ⟨huser, hextra⟩ := hu
    · rw [hs] at hsome
      cases hsome
    · have hauth : (parts v).authority = (parts u).authority := by
        unfold Parts.authority
        rw [alike_empty h.user huser, h.host]
      have hbase : (parts v).base = (parts u).base := by
        unfold Parts.base
        rw [hauth, h.path]
      obtain ⟨hquery, hfragment⟩ | hsep := hextra
      · have hrest : (parts v).rest = (parts u).rest := by
          rw [rest_eq_base, rest_eq_base, hbase]
          unfold Parts.extra
          rw [alike_empty h.query hquery, alike_empty h.fragment hfragment]
        rw [rest_of_none hs, rest_of_none (h.scheme.trans hs)] at hrest
        rw [hrest]
      · obtain ⟨q, hq⟩ := Option.isSome_iff_exists.mp hsep
        rw [shownUrl_base (s := q.1) (r := q.2) hs hq, shownUrl_base (s := q.1) (r := q.2) (h.scheme.trans hs) (hbase ▸ hq)]

/-! ### The others show a secret -/

theorem head_shownUrl (ha : inPath a = true) : (shownUrl (a :: x)).head? = some a := by
  rw [shownUrl_eq]
  cases hs : splitOnce sep (a :: x) with
  | none =>
    dsimp only
    rw [List.takeWhile_cons_of_pos ha]
    rfl
  | some q =>
    dsimp only
    have heq := splitOnce_eq (s := q.1) (r := q.2) hs
    cases hq : q.1 with
    | nil =>
      rw [hq] at heq
      cases (List.cons.inj heq).1
      rfl
    | cons b t =>
      rw [hq] at heq
      cases (List.cons.inj heq).1
      rfl

/-- A text of one's choice in a secret's place. -/
def mask (text : List Char) (x : List Char) : List Char := if x = [] then [] else text

theorem alike_mask {text : List Char} (ht : text ≠ []) (x : Option (List Char)) : Alike x (x.map (mask text)) := by
  unfold Alike
  cases x with
  | none => rfl
  | some x =>
    cases x with
    | nil => rfl
    | cons a x =>
      unfold mask
      rw [Option.map_some, Option.map_some, Option.map_some, if_neg (List.cons_ne_nil a x)]
      cases text with
      | nil => exact absurd rfl ht
      | cons => rfl

theorem alike_some {x text : List Char} (hx : x ≠ []) (ht : text ≠ []) : Alike (some x) (some text) := by
  unfold Alike
  cases x with
  | nil => exact absurd rfl hx
  | cons => cases text with
    | nil => exact absurd rfl ht
    | cons => rfl

theorem differ_of_fits {q : Parts} (hq : q.Fits) (hscheme : q.scheme = (parts u).scheme) (huser : Alike (parts u).user q.user)
    (hhost : q.host = (parts u).host) (hpath : q.path = (parts u).path) (hquery : Alike (parts u).query q.query)
    (hfragment : Alike (parts u).fragment q.fragment) : SecretsDiffer u q.text := by
  refine ⟨?_, ?_, ?_, ?_, ?_, ?_⟩ <;> rw [parts_text hq] <;> assumption

theorem rest_eq_text {q : Parts} (hq : q.scheme = none) : q.text = q.rest := by
  unfold Parts.text
  rw [hq]
  rfl

/-- Another user name is shown instead. -/
theorem user_leaks (hs : (parts u).scheme = none) (hu : (parts u).user = some (a :: x)) : ∃ v, SecretsDiffer u v ∧ shownUrl v ≠ shownUrl u := by
  have hfits := fits_parts u
  have hpick : ∃ c : Char, c ≠ a ∧ inAuthority c = true ∧ splitOnce sep [c] = none := by
    by_cases hx : a = 'x'
    · exact ⟨'y', (by rw [hx]; decide), by decide, by decide⟩
    · exact ⟨'x', Ne.symm hx, by decide, by decide⟩
  obtain ⟨c, hne, hc, hsplit⟩ := hpick
  let q : Parts := { parts u with user := some [c] }
  have hqs : q.scheme = none := hs
  have htext : q.text = [c] ++ '@' :: (q.host ++ (q.path ++ q.extra)) := by
    rw [rest_eq_text hqs]
    show [c] ++ ['@'] ++ q.host ++ (q.path ++ q.extra) = _
    simp
  have hq : q.Fits :=
    { user := fun x hx d hd => by cases hx; cases List.mem_singleton.mp hd; exact hc
      host := hfits.host
      path := hfits.path
      query := hfits.query
      scheme := by
        rw [htext, schemeOf_barrier hsplit (by decide) (by decide) (by decide), ← htext, rest_eq_text hqs]
        exact Prod.ext hs.symm rfl }
  have hhead : u = a :: (x ++ '@' :: ((parts u).host ++ ((parts u).path ++ (parts u).extra))) := by
    rw [← rest_of_none hs]
    conv_lhs =>
      unfold Parts.rest Parts.authority
      rw [hu]
    simp [rest_of_none hs]
  refine ⟨q.text, differ_of_fits hq rfl ?_ rfl rfl rfl rfl, fun heq => hne ?_⟩
  · rw [hu]
    exact alike_some (List.cons_ne_nil a x) (List.cons_ne_nil c [])
  · have hv : (shownUrl q.text).head? = some c := by
      rw [htext]
      exact head_shownUrl (inPath_of_inAuthority hc)
    have ha : inAuthority a = true := hfits.user _ hu a (List.mem_cons_self ..)
    have hw : (shownUrl u).head? = some a := by
      rw [hhead]
      exact head_shownUrl (inPath_of_inAuthority ha)
    rw [heq, hw] at hv
    exact (Option.some.inj hv).symm

/-- The URL with another query and fragment. -/
def Parts.having (p : Parts) (query fragment : Option (List Char)) : Parts := { p with query, fragment }

theorem barrier_ends (ha : inPath a = false) : a ∉ sep ∧ schemeChar a = false ∧ Text.isWhitespace a = false := by
  have hends : a = '?' ∨ a = '#' := by simpa [inPath, or_iff_not_imp_left] using ha
  obtain rfl | rfl := hends <;> decide

theorem with_text {query fragment : Option (List Char)} (hs : p.scheme = none) (hx : (p.having query fragment).extra = x) :
    (p.having query fragment).text = p.base ++ x := by
  rw [rest_eq_text (by exact hs), rest_eq_base, hx]
  rfl

theorem fits_with {query fragment : Option (List Char)} (hp : p.Fits) (hs : p.scheme = none) (hb : splitOnce sep p.base = none)
    (hquery : ∀ q ∈ query, '#' ∉ q) (hx : (p.having query fragment).extra = c :: x) : (p.having query fragment).Fits where
  user := hp.user
  host := hp.host
  path := hp.path
  query := hquery
  scheme := by
    have hc : inPath c = false := by
      obtain hnil | ⟨d, r, heq, hd⟩ := (p.having query fragment).extra_stop
      · cases hx.symm.trans hnil
      · cases hx.symm.trans heq
        exact hd
    obtain ⟨hsep, hchar, hspace⟩ := barrier_ends hc
    rw [with_text hs hx, schemeOf_barrier hb hsep hchar hspace, ← with_text hs hx, rest_eq_text (by exact hs)]
    exact Prod.ext hs.symm rfl

theorem elim_masked {k : Char} (hk : k ≠ ':') (o : Option (List Char)) : ':' ∉ (o.map (mask ['x'])).elim [] (k :: ·) := by
  cases o with
  | none => exact List.not_mem_nil
  | some y =>
    show ':' ∉ k :: mask ['x'] y
    unfold mask
    split
    · simpa using Ne.symm hk
    · simpa using Ne.symm hk

theorem mask_hash (o : Option (List Char)) : ∀ q ∈ o.map (mask ['x']), '#' ∉ q := by
  intro q hq
  obtain ⟨y, -, rfl⟩ := Option.map_eq_some_iff.mp hq
  unfold mask
  split <;> decide

/-- Of a query and fragment without a colon nothing is shown. -/
theorem shown_quiet (hp : p.Fits) (hb : splitOnce sep p.base = none) (hc : inPath c = false) (hx : ':' ∉ x) :
    shownUrl (p.base ++ c :: x) = p.base := by
  have hnone : splitOnce sep x = none := splitOnce_none_of_not_mem hx (List.mem_cons_self ..)
  rw [shownUrl_eq, splitOnce_barrier hb (barrier_ends hc).1, hnone]
  exact (takeWhile_append_stop hp.base (.inr ⟨c, x, rfl, hc⟩)).1

/-- Where there is a `://` in it, what precedes that is. -/
theorem shown_loud (hb : splitOnce sep p.base = none) (hc : inPath c = false) (hx : ':' ∉ x) (r : List Char) :
    p.base.length < (shownUrl (p.base ++ c :: (x ++ sep ++ r))).length := by
  have hsplit : splitOnce sep (x ++ sep ++ r) = some (x, r) := splitOnce_of_not_mem hx
  rw [shownUrl_eq, splitOnce_barrier hb (barrier_ends hc).1, hsplit]
  simp only [Option.map_some, List.length_append, List.length_cons]
  omega

/-- A query or fragment with a `://` is shown. -/
theorem query_leaks (hs : (parts u).scheme = none) (hb : splitOnce sep (parts u).base = none)
    (hne : (parts u).query.getD [] ≠ [] ∨ (parts u).fragment.getD [] ≠ []) : ∃ v, SecretsDiffer u v ∧ shownUrl v ≠ shownUrl u := by
  have hfits := fits_parts u
  have hx : (['x'] : List Char) ≠ [] := List.cons_ne_nil _ _
  have hdiffer : ∀ {q f : Option (List Char)} {c : Char} {x : List Char}, (∀ y ∈ q, '#' ∉ y) →
      Alike (parts u).query q → Alike (parts u).fragment f → ((parts u).having q f).extra = c :: x →
      SecretsDiffer u ((parts u).base ++ c :: x) := by
    intro q f c x hquery hq hf hextra
    rw [← with_text hs hextra]
    exact differ_of_fits (fits_with hfits hs hb hquery hextra) rfl rfl rfl rfl hq hf
  -- one that is not shown
  have hquiet : ∃ v, SecretsDiffer u v ∧ shownUrl v = (parts u).base := by
    have hcolon : ':' ∉ ((parts u).having ((parts u).query.map (mask ['x'])) ((parts u).fragment.map (mask ['x']))).extra := by
      intro hm
      obtain hm | hm := List.mem_append.mp hm
      · exact elim_masked (by decide) _ hm
      · exact elim_masked (by decide) _ hm
    obtain hnil | ⟨c, x, hextra, hc⟩ := ((parts u).having ((parts u).query.map (mask ['x'])) ((parts u).fragment.map (mask ['x']))).extra_stop
    · obtain ⟨h₁, h₂⟩ := List.append_eq_nil_iff.mp hnil
      refine absurd hne ?_
      rw [not_or, not_not, not_not]
      constructor
      · cases hq : (parts u).query with
        | none => rfl
        | some y =>
          have h₁' : (((parts u).query.map (mask ['x'])).elim [] ('?' :: ·) : List Char) = [] := h₁
          rw [hq] at h₁'
          cases h₁'
      · cases hf : (parts u).fragment with
        | none => rfl
        | some y =>
          have h₂' : (((parts u).fragment.map (mask ['x'])).elim [] ('#' :: ·) : List Char) = [] := h₂
          rw [hf] at h₂'
          cases h₂'
    · rw [hextra, List.mem_cons, not_or] at hcolon
      exact ⟨_, hdiffer (mask_hash _) (alike_mask hx _) (alike_mask hx _) hextra, shown_quiet hfits hb hc hcolon.2⟩
  -- and one that is
  have hloud : ∃ v, SecretsDiffer u v ∧ shownUrl v ≠ (parts u).base := by
    have hlong : ∀ {c : Char} {x r : List Char}, inPath c = false → ':' ∉ x → shownUrl ((parts u).base ++ c :: (x ++ sep ++ r)) ≠ (parts u).base := by
      intro c x r hc hx heq
      have hlt := shown_loud hb hc hx r
      rw [heq] at hlt
      exact Nat.lt_irrefl _ hlt
    by_cases hq : (parts u).query.getD [] = []
    · have hf := hne.resolve_left (not_not.mpr hq)
      have hfrag : Alike (parts u).fragment (some sep) := by
        cases hy : (parts u).fragment with
        | none => rw [hy] at hf; exact absurd rfl hf
        | some y => rw [hy] at hf; exact alike_some hf (by decide)
      cases hq' : (parts u).query with
      | none =>
        exact ⟨_, hdiffer (q := none) (f := some sep) (c := '#') (x := [] ++ sep ++ []) (fun q hq => by cases hq)
          (by rw [hq']; rfl) hfrag rfl, hlong (by decide) List.not_mem_nil⟩
      | some y =>
        have hy : y = [] := by
          rw [hq'] at hq
          exact hq
        subst hy
        exact ⟨_, hdiffer (q := some []) (f := some sep) (c := '?') (x := ['#'] ++ sep ++ []) (fun q hq => by cases hq; decide)
          (by rw [hq']; rfl) hfrag rfl, hlong (by decide) (by decide)⟩
    · have hquery : Alike (parts u).query (some sep) := by
        cases hy : (parts u).query with
        | none => rw [hy] at hq; exact absurd rfl hq
        | some y => rw [hy] at hq; exact alike_some hq (by decide)
      exact ⟨_, hdiffer (q := some sep) (c := '?') (x := [] ++ sep ++ _) (fun q hq => by cases hq; decide) hquery (alike_mask hx _) rfl,
        hlong (by decide) List.not_mem_nil⟩
  obtain ⟨v, hv, hbase⟩ := hquiet
  obtain ⟨w, hw, hmore⟩ := hloud
  by_cases heq : shownUrl v = shownUrl u
  · exact ⟨w, hw, fun h => hmore (h.trans (heq.symm.trans hbase))⟩
  · exact ⟨v, hv, heq⟩

/-- What is shown of any other server address is not shown of one that differs from it in secrets. -/
theorem shownUrl_leaks (hu : ¬ Plain u) : ∃ v, SecretsDiffer u v ∧ shownUrl v ≠ shownUrl u := by
  unfold Plain at hu
  dsimp only at hu
  rw [not_or, not_and_or, not_or, not_and_or] at hu
  obtain ⟨hscheme, hrest⟩ := hu
  have hs : (parts u).scheme = none := by simpa using hscheme
  obtain huser | ⟨hextra, hsep⟩ := hrest
  · cases hx : (parts u).user with
    | none => rw [hx] at huser; exact absurd rfl huser
    | some x =>
      cases x with
      | nil => rw [hx] at huser; exact absurd rfl huser
      | cons a x => exact user_leaks hs hx
  · exact query_leaks hs (by simpa using hsep) hextra

end OpenU60.Web.Url
