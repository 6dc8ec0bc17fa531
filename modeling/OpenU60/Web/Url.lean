/-
  OpenU60.Web.Url — the URLs of the forwarding rules (`zte-agent/src/web/forward.rs`: `origin` to
  `check_url`), taken apart by string searches.

  `Parts` is what a URL says: the scheme, if what stands before the first `://` can be one, the user
  name and password up to the last `@` before the path, the host (and port), the path, the query
  and the fragment; a text without a scheme starts with the rest. `parts_text` and
  `text_parts`: every text is one such URL. The searches agree with it where there is a scheme
  (`shownUrl_scheme`, `host_scheme`, `origin_server`); without one they take whatever precedes the first
  `://` for the scheme.
-/

import OpenU60.Lib.Split
import OpenU60.Lib.Text

namespace OpenU60.Web.Url

open OpenU60.Lib OpenU60.Lib.Split

def sep : List Char := [':', '/', '/']

def inAuthority (c : Char) : Bool := !(c == '/' || c == '?' || c == '#')

def inPath (c : Char) : Bool := !(c == '?' || c == '#')

/-- `rsplit_once('@').map_or(authority, |(_, h)| h)`. -/
def afterAt (authority : List Char) : List Char :=
  match rsplitOnce '@' authority with
  | some (_, h) => h
  | none => authority

/-- `to_ascii_lowercase`. -/
def lower (cs : List Char) : List Char := cs.map Char.toLower

def isHttp (scheme : List Char) : Bool := scheme = ['h', 't', 't', 'p'] || scheme = ['h', 't', 't', 'p', 's']

def origin (url : List Char) : List Char :=
  match splitOnce sep (lower (Text.trim url)) with
  | some (scheme, rest) =>
    if isHttp scheme then
      let host := afterAt (rest.takeWhile inAuthority)
      if host = [] then [] else scheme ++ sep ++ host
    else []
  | none => []

/-- With a dot in the name, and nothing but what stands in a host name and a port. -/
def hostlike (a : List Char) : Bool :=
  let (name, port) := (rsplitOnce ':' a).getD (a, ['0'])
  name.contains '.' && name.all (fun c => c.isAlphanum || c == '.' || c == '-') && !port.isEmpty && port.all Char.isDigit

def host (url : List Char) : List Char :=
  match splitOnce sep (origin url) with
  | some (_, h) => h
  | none =>
    let rest := match splitOnce sep (Text.trim url) with
      | some (_, r) => r
      | none => Text.trim url
    let a := afterAt (rest.takeWhile inAuthority)
    if hostlike a then lower a else []

def withoutUserinfo (url : List Char) : List Char :=
  match splitOnce sep url with
  | none => url
  | some (scheme, rest) =>
    match rsplitOnce '@' (rest.takeWhile inAuthority) with
    | some (_, h) => scheme ++ sep ++ (h ++ rest.dropWhile inAuthority)
    | none => url

def shownUrl (url : List Char) : List Char :=
  let u := withoutUserinfo url
  match splitOnce sep u with
  | some (s, r) => s ++ sep ++ r.takeWhile inPath
  | none => u.takeWhile inPath

/-- Whether `check_url` accepts. -/
def checkUrl (url : List Char) : Bool := !((origin url).isEmpty || url.any Text.isWhitespace)

/-! ## What a URL says -/

structure Parts where
  scheme : Option (List Char)
  /-- The user name and password. -/
  user : Option (List Char)
  /-- The host and port. -/
  host : List Char
  path : List Char
  query : Option (List Char)
  fragment : Option (List Char)
  deriving DecidableEq

def schemeChar (c : Char) : Bool := c.isAlphanum || c == '+' || c == '-' || c == '.'

/-- Leading spaces aside. -/
def isScheme (s : List Char) : Bool :=
  let s := s.dropWhile Text.isWhitespace
  !s.isEmpty && s.all schemeChar

/-- The scheme, and what follows it. -/
def schemeOf (u : List Char) : Option (List Char) × List Char :=
  match splitOnce sep u with
  | some (s, r) => if isScheme s then (some s, r) else (none, u)
  | none => (none, u)

def queryOf : List Char → Option (List Char)
  | '?' :: q => some (q.takeWhile (· != '#'))
  | _ => none

def fragmentOf (t : List Char) : Option (List Char) :=
  match t.dropWhile (· != '#') with
  | _ :: f => some f
  | [] => none

def parts (u : List Char) : Parts :=
  let (scheme, rest) := schemeOf u
  let authority := rest.takeWhile inAuthority
  let tail := rest.dropWhile inAuthority
  { scheme
    user := (rsplitOnce '@' authority).map (·.1)
    host := afterAt authority
    path := tail.takeWhile inPath
    query := queryOf (tail.dropWhile inPath)
    fragment := fragmentOf (tail.dropWhile inPath) }

namespace Parts

def authority (p : Parts) : List Char := p.user.elim [] (· ++ ['@']) ++ p.host

def extra (p : Parts) : List Char := p.query.elim [] ('?' :: ·) ++ p.fragment.elim [] ('#' :: ·)

def rest (p : Parts) : List Char := p.authority ++ (p.path ++ p.extra)

def text (p : Parts) : List Char := p.scheme.elim [] (· ++ sep) ++ p.rest

/-- The parts are what they say. -/
structure Fits (p : Parts) : Prop where
  user : ∀ u ∈ p.user, ∀ c ∈ u, inAuthority c = true
  host : ∀ c ∈ p.host, inAuthority c = true ∧ c ≠ '@'
  path : (∀ c ∈ p.path, inPath c = true) ∧ (p.path = [] ∨ ∃ rest, p.path = '/' :: rest)
  query : ∀ q ∈ p.query, '#' ∉ q
  scheme : schemeOf p.text = (p.scheme, p.rest)

end Parts

variable {u v : List Char} {p : Parts}

/-! ### Every text is a URL -/

theorem takeWhile_append_stop {q : Char → Bool} {x y : List Char} (hx : ∀ c ∈ x, q c = true)
    (hy : y = [] ∨ ∃ c r, y = c :: r ∧ q c = false) : (x ++ y).takeWhile q = x ∧ (x ++ y).dropWhile q = y := by
  induction x with
  | nil =>
    obtain rfl | ⟨c, r, rfl, hc⟩ := hy
    · exact ⟨rfl, rfl⟩
    · simp [hc]
  | cons a x ih =>
    have ha := hx a (List.mem_cons_self ..)
    obtain ⟨ht, hd⟩ := ih fun c hc => hx c (List.mem_cons_of_mem _ hc)
    simp [ha, ht, hd]

theorem dropWhile_stop (q : Char → Bool) (x : List Char) : x.dropWhile q = [] ∨ ∃ c r, x.dropWhile q = c :: r ∧ q c = false := by
  induction x with
  | nil => exact .inl rfl
  | cons a x ih =>
    by_cases ha : q a = true
    · rw [List.dropWhile_cons_of_pos ha]
      exact ih
    · rw [List.dropWhile_cons_of_neg ha]
      exact .inr ⟨a, x, rfl, Bool.eq_false_iff.mpr ha⟩

theorem mem_takeWhile {q : Char → Bool} {x : List Char} {c : Char} (h : c ∈ x.takeWhile q) : q c = true := by
  induction x with
  | nil => cases h
  | cons a x ih =>
    by_cases ha : q a = true
    · rw [List.takeWhile_cons_of_pos ha] at h
      obtain rfl | h := List.mem_cons.mp h
      · exact ha
      · exact ih h
    · rw [List.takeWhile_cons_of_neg ha] at h
      cases h

theorem inPath_of_inAuthority {c : Char} (h : inAuthority c = true) : inPath c = true := by
  unfold inAuthority at h
  unfold inPath
  simp only [Bool.not_eq_true', Bool.or_eq_false_iff] at h ⊢
  exact ⟨h.1.2, h.2⟩

theorem extra_eq (t : List Char) (ht : t = [] ∨ ∃ c r, t = c :: r ∧ inPath c = false) :
    (queryOf t).elim [] ('?' :: ·) ++ (fragmentOf t).elim [] ('#' :: ·) = t := by
  have hfrag : ∀ t : List Char, t.takeWhile (· != '#') ++ (fragmentOf t).elim [] ('#' :: ·) = t := by
    intro t
    unfold fragmentOf
    obtain hnil | ⟨c, r, hcons, hc⟩ := dropWhile_stop (· != '#') t
    · have := List.takeWhile_append_dropWhile (p := (· != '#')) (l := t)
      rw [hnil, List.append_nil] at this
      rw [hnil, this]
      exact List.append_nil t
    · have hhash : c = '#' := by simpa using hc
      subst hhash
      have := List.takeWhile_append_dropWhile (p := (· != '#')) (l := t)
      rw [hcons] at this
      rw [hcons]
      exact this
  obtain rfl | ⟨c, r, rfl, hc⟩ := ht
  · rfl
  · have hends : c = '?' ∨ c = '#' := by simpa [inPath, or_iff_not_imp_left] using hc
    obtain rfl | rfl := hends
    · have hstep : fragmentOf ('?' :: r) = fragmentOf r := rfl
      rw [hstep]
      show '?' :: (r.takeWhile (· != '#') ++ (fragmentOf r).elim [] ('#' :: ·)) = _
      rw [hfrag]
    · rfl

theorem rest_parts (u : List Char) : (parts u).rest = (schemeOf u).2 := by
  have ha : (parts u).authority = (schemeOf u).2.takeWhile inAuthority := by
    unfold parts Parts.authority afterAt
    dsimp only
    cases hs : rsplitOnce '@' ((schemeOf u).2.takeWhile inAuthority) with
    | none => rfl
    | some p =>
      rw [(rsplitOnce_some (s := p.1) (r := p.2) hs).1]
      simp
  have ht : (parts u).path ++ (parts u).extra = (schemeOf u).2.dropWhile inAuthority := by
    unfold Parts.extra
    show ((schemeOf u).2.dropWhile inAuthority).takeWhile inPath ++ _ = _
    rw [show (parts u).query = queryOf (((schemeOf u).2.dropWhile inAuthority).dropWhile inPath) from rfl,
      show (parts u).fragment = fragmentOf (((schemeOf u).2.dropWhile inAuthority).dropWhile inPath) from rfl,
      extra_eq _ (dropWhile_stop ..), List.takeWhile_append_dropWhile]
  unfold Parts.rest
  rw [ha, ht, List.takeWhile_append_dropWhile]

theorem text_parts (u : List Char) : (parts u).text = u := by
  unfold Parts.text
  rw [rest_parts, show (parts u).scheme = (schemeOf u).1 from rfl]
  unfold schemeOf
  cases hs : splitOnce sep u with
  | none => rfl
  | some p =>
    dsimp only
    split
    · exact (splitOnce_eq hs).symm
    · rfl

theorem fits_parts (u : List Char) : (parts u).Fits where
  user x hx c hc := by
    obtain ⟨p, hp, rfl⟩ := Option.map_eq_some_iff.mp hx
    refine mem_takeWhile (x := (schemeOf u).2) (q := inAuthority) ?_
    have heq : (schemeOf u).2.takeWhile inAuthority = p.1 ++ '@' :: p.2 := (rsplitOnce_some (s := p.1) (r := p.2) hp).1
    rw [heq]
    exact List.mem_append_left _ hc
  host c hc := by
    have hc' : c ∈ afterAt ((schemeOf u).2.takeWhile inAuthority) := hc
    unfold afterAt at hc'
    split at hc'
    · rename_i x h hs
      obtain ⟨heq, hno⟩ := rsplitOnce_some hs
      refine ⟨mem_takeWhile (x := (schemeOf u).2) (q := inAuthority) ?_, fun hat => hno (hat ▸ hc')⟩
      rw [heq]
      exact List.mem_append_right _ (List.mem_cons_of_mem _ hc')
    · rename_i hs
      exact ⟨mem_takeWhile hc', fun hat => rsplitOnce_none.mp hs (hat ▸ hc')⟩
  path := by
    refine ⟨fun c hc => mem_takeWhile hc, ?_⟩
    show ((schemeOf u).2.dropWhile inAuthority).takeWhile inPath = [] ∨ _
    obtain hnil | ⟨c, r, hcons, hc⟩ := dropWhile_stop inAuthority (schemeOf u).2
    · exact .inl (by rw [hnil]; rfl)
    · by_cases hslash : c = '/'
      · refine .inr ⟨r.takeWhile inPath, ?_⟩
        show ((schemeOf u).2.dropWhile inAuthority).takeWhile inPath = _
        rw [hcons, hslash]
        rfl
      · refine .inl ?_
        rw [hcons, List.takeWhile_cons_of_neg]
        simp only [inAuthority, Bool.not_eq_false', Bool.or_eq_true, beq_iff_eq, hslash, false_or] at hc
        simpa [inPath, or_iff_not_imp_left] using hc
  query q hq := by
    have hq' : queryOf (((schemeOf u).2.dropWhile inAuthority).dropWhile inPath) = some q := hq
    unfold queryOf at hq'
    split at hq'
    · cases hq'
      intro hm
      exact absurd (mem_takeWhile hm) (by decide)
    · cases hq'
  scheme := by
    rw [text_parts, rest_parts]
    rfl

/-- And a URL's text says what the URL does. -/
theorem parts_text (hp : p.Fits) : parts p.text = p := by
  obtain ⟨scheme, user, host, path, query, fragment⟩ := p
  have hauth : ∀ c ∈ Parts.authority ⟨scheme, user, host, path, query, fragment⟩, inAuthority c = true := by
    intro c hc
    obtain hc | hc := List.mem_append.mp hc
    · cases user with
      | none => cases hc
      | some x =>
        obtain hc | hc := List.mem_append.mp hc
        · exact hp.user x rfl c hc
        · cases List.mem_singleton.mp hc
          decide
    · exact (hp.host c hc).1
  have hextra : Parts.extra ⟨scheme, user, host, path, query, fragment⟩ = [] ∨
      ∃ c r, Parts.extra ⟨scheme, user, host, path, query, fragment⟩ = c :: r ∧ inPath c = false := by
    cases query with
    | some q => exact .inr ⟨'?', _, rfl, by decide⟩
    | none =>
      cases fragment with
      | some f => exact .inr ⟨'#', _, rfl, by decide⟩
      | none => exact .inl rfl
  have htail : path ++ Parts.extra ⟨scheme, user, host, path, query, fragment⟩ = [] ∨
      ∃ c r, path ++ Parts.extra ⟨scheme, user, host, path, query, fragment⟩ = c :: r ∧ inAuthority c = false := by
    obtain hnil | ⟨r, hslash⟩ := hp.path.2
    · dsimp only at hnil
      subst hnil
      obtain hno | ⟨c, r, heq, hc⟩ := hextra
      · exact .inl hno
      · refine .inr ⟨c, r, heq, ?_⟩
        cases ha : inAuthority c with
        | false => rfl
        | true => rw [inPath_of_inAuthority ha] at hc; cases hc
    · dsimp only at hslash
      subst hslash
      exact .inr ⟨'/', _, rfl, by decide⟩
  obtain ⟨hta, hda⟩ := takeWhile_append_stop hauth htail
  obtain ⟨htp, hdp⟩ := takeWhile_append_stop hp.path.1 hextra
  have hrs : rsplitOnce '@' (Parts.authority ⟨scheme, user, host, path, query, fragment⟩) = user.map (·, host) := by
    have hno : '@' ∉ host := fun hm => (hp.host '@' hm).2 rfl
    cases user with
    | none => exact rsplitOnce_none.mpr hno
    | some x =>
      show rsplitOnce '@' (x ++ ['@'] ++ host) = _
      rw [List.append_assoc]
      exact rsplitOnce_append hno
  have hq : queryOf (Parts.extra ⟨scheme, user, host, path, query, fragment⟩) = query ∧
      fragmentOf (Parts.extra ⟨scheme, user, host, path, query, fragment⟩) = fragment := by
    have hstop : fragment.elim [] ('#' :: ·) = [] ∨ ∃ c r, fragment.elim [] ('#' :: ·) = c :: r ∧ (c != '#') = false := by
      cases fragment with
      | none => exact .inl rfl
      | some f => exact .inr ⟨'#', f, rfl, by decide⟩
    have hfrag : fragmentOf (fragment.elim [] ('#' :: ·)) = fragment := by cases fragment <;> rfl
    cases query with
    | none =>
      refine ⟨?_, hfrag⟩
      cases fragment <;> rfl
    | some q =>
      obtain ⟨ht, hd⟩ := takeWhile_append_stop (q := (· != '#')) (x := q) (fun c hc => by
        simpa using fun (h : c = '#') => hp.query q rfl (h ▸ hc)) hstop
      constructor
      · show some ((q ++ fragment.elim [] ('#' :: ·)).takeWhile (· != '#')) = _
        rw [ht]
      · show (match (q ++ fragment.elim [] ('#' :: ·)).dropWhile (· != '#') with | _ :: f => some f | [] => none) = _
        rw [hd]
        cases fragment <;> rfl
  unfold parts
  rw [hp.scheme]
  dsimp only
  unfold Parts.rest
  rw [hta, hda, htp, hdp, hrs, hq.1, hq.2]
  unfold afterAt
  rw [hrs]
  cases user <;> rfl

end OpenU60.Web.Url
