/-
  OpenU60.Web.Browser — a browser that follows the replies of `OpenU60.Web.Session`.

  Environment. A navigation brings its cookies: those with `SameSite=Strict` only when it comes from
  this site, and what `Sec-Fetch-Site` then says. A hop page navigates by itself, so from this site; a
  redirect goes on as the navigation it answers.
  - `cookies_headers`: the server reads the cookies that were sent.
  - `hasMarker_headers`: the marker comes along on every navigation.
  - `findSession_unmark`: without the marker the same session is found.
  - `Leads`: the requests that follow, and how many of the answers were hop pages.
-/

import OpenU60.Web.Targets

namespace OpenU60.Web.Session

open OpenU60.Lib OpenU60.Lib.UrlPath

/-- A cookie of the site as it is sent; the marker is `Lax`. -/
structure Cookie where
  pair : Text
  strict : Bool
  whole : ';' ∉ pair
  lax : strict = true → cookieValue markerCookie pair = none

/-- A navigation: how it was started, and whether `Strict` cookies go along. -/
structure Nav where
  site : Option Text
  mode : Option Text
  dest : Option Text
  strict : Bool
  sent : site = some "same-origin".toList ∨ site = some "same-site".toList → strict = true

/-- What a page of the site starts by itself. -/
def Nav.fromPage (nav : Nav) : Nav where
  site := nav.site.map fun _ => "same-origin".toList
  mode := nav.mode
  dest := nav.dest
  strict := true
  sent := fun _ => rfl

def sentCookies (nav : Nav) (jar : List Cookie) : List Cookie := jar.filter fun c => nav.strict || !c.strict

def cookieHeader : List Cookie → List Text
  | [] => []
  | cs => ["; ".toList.intercalate (cs.map (·.pair))]

def headers (nav : Nav) (jar : List Cookie) : Headers := ⟨cookieHeader (sentCookies nav jar), nav.site, nav.mode, nav.dest⟩

/-- `CLEAR_MARKER`. -/
def unmark (jar : List Cookie) : List Cookie := jar.filter fun c => (cookieValue markerCookie c.pair).isNone

def marked (jar : List Cookie) : Bool := jar.any fun c => cookieValue markerCookie c.pair = some ['1']

/-- A request of the browser's. -/
structure Visit where
  path : Text
  query : Option Text
  nav : Nav
  jar : List Cookie
  asked : Asked path query

def Visit.headers (v : Visit) : Headers := Session.headers v.nav v.jar

def openUrl (location : Text) (nav : Nav) (jar : List Cookie) : Option Visit :=
  match h : browse location with
  | some (path, query) => some ⟨path, query, nav, jar, browse_asked h⟩
  | none => none

variable (site : Site) (live : Text → Bool)

def Visit.reply (v : Visit) : Reply := site.reply live v.headers v.path v.query

/-- The cookies after the reply. -/
def Visit.kept (v : Visit) : List Cookie := if (v.reply site live).clearMarker then unmark v.jar else v.jar

def Visit.follow (v : Visit) : Option Visit :=
  match (v.reply site live).body with
  | .hopPage target => openUrl target v.nav.fromPage (v.kept site live)
  | .seeOther location => openUrl location v.nav (v.kept site live)
  | .page | .login | .other => none

def Visit.hops (v : Visit) : Nat :=
  match (v.reply site live).body with
  | .hopPage _ => 1
  | .page | .login | .other | .seeOther _ => 0

/-- `n` more requests lead to `w`, `k` of the answers before were hop pages. -/
inductive Leads : Visit → Nat → Nat → Visit → Prop
  | here (v : Visit) : Leads v 0 0 v
  | next {v u w : Visit} {n k : Nat} (step : v.follow site live = some u) (rest : Leads u n k w) : Leads v (n + 1) (v.hops site live + k) w

variable {site live} {nav : Nav} {jar : List Cookie} {v w : Visit} {name location path target : Text} {query : Option Text}

/-! ## What the server reads -/

theorem cookieValue_space (name pair : Text) : cookieValue name (' ' :: pair) = cookieValue name pair := by
  unfold cookieValue
  rw [Text.trim_space]

theorem splitOn_cookies (cs : List Cookie) (hne : cs ≠ []) :
    (("; ".toList.intercalate (cs.map (·.pair))).splitOn ';').filterMap (cookieValue name) = cs.filterMap fun c => cookieValue name c.pair := by
  have hwhole : ∀ p ∈ cs.map (·.pair), ';' ∉ p := by
    intro p hp
    obtain ⟨c, -, rfl⟩ := List.mem_map.mp hp
    exact c.whole
  have hspaced := Split.splitOn_spaced (cookieValue_space name) (by decide) (fun h => hne (List.map_eq_nil_iff.mp h)) hwhole
  rw [List.filterMap_map] at hspaced
  exact hspaced

theorem cookies_headers : cookies (headers nav jar) name = (sentCookies nav jar).filterMap fun c => cookieValue name c.pair := by
  unfold cookies headers
  cases h : sentCookies nav jar with
  | nil => rfl
  | cons c cs =>
    show ([_] : List Text).flatMap _ = _
    rw [List.flatMap_singleton]
    exact splitOn_cookies (c :: cs) (List.cons_ne_nil c cs)

/-- The marker comes along on every navigation. -/
theorem hasMarker_headers : hasMarker (headers nav jar) = marked jar := by
  unfold hasMarker marked
  rw [cookies_headers, Bool.eq_iff_iff, List.any_eq_true, List.any_eq_true]
  constructor
  · intro h
    obtain ⟨t, ht, hone⟩ := h
    obtain ⟨c, hc, hvalue⟩ := List.mem_filterMap.mp ht
    exact ⟨c, (List.mem_filter.mp hc).1, by rw [hvalue, of_decide_eq_true hone]; decide⟩
  · intro h
    obtain ⟨c, hc, hone⟩ := h
    have hvalue := of_decide_eq_true hone
    have hlax : c.strict = false := by
      refine Bool.eq_false_iff.mpr fun hstrict => ?_
      rw [c.lax hstrict] at hvalue
      cases hvalue
    exact ⟨['1'], List.mem_filterMap.mpr ⟨c, List.mem_filter.mpr ⟨hc, by rw [hlax, Bool.not_false, Bool.or_true]⟩, hvalue⟩, by decide⟩

theorem marked_unmark (jar : List Cookie) : marked (unmark jar) = false := by
  refine List.any_eq_false.mpr fun c hc hone => ?_
  have hnone := (List.mem_filter.mp hc).2
  rw [of_decide_eq_true hone] at hnone
  cases hnone

/-- No pair is both cookies. -/
theorem cookieValue_session (pair : Text) (h : (cookieValue markerCookie pair).isSome = true) : cookieValue sessionCookie pair = none := by
  unfold cookieValue at h ⊢
  cases hpair : Split.splitOnce ['='] (Text.trim pair) with
  | none => rfl
  | some kv =>
    rw [hpair] at h
    obtain ⟨k, t⟩ := kv
    change (if Text.trim k = markerCookie then some (Text.trim t) else none).isSome = true at h
    show (if Text.trim k = sessionCookie then some (Text.trim t) else none) = none
    refine if_neg fun hk => ?_
    rw [hk, if_neg (by decide)] at h
    cases h

theorem cookies_unmark : cookies (headers nav (unmark jar)) sessionCookie = cookies (headers nav jar) sessionCookie := by
  rw [cookies_headers, cookies_headers]
  unfold sentCookies unmark
  rw [List.filterMap_filter, List.filterMap_filter, List.filterMap_filter]
  refine List.filterMap_congr fun c _ => ?_
  cases hmarker : cookieValue markerCookie c.pair with
  | none => rfl
  | some t =>
    rw [cookieValue_session c.pair (by rw [hmarker]; rfl), ite_self, ite_self]

theorem sessionCookies_unmark : sessionCookies (headers nav (unmark jar)) = sessionCookies (headers nav jar) := by
  unfold sessionCookies
  rw [cookies_unmark]

/-- Without the marker the same session is found. -/
theorem findSession_unmark : findSession live (headers nav (unmark jar)) = findSession live (headers nav jar) := by
  unfold findSession
  rw [sessionCookies_unmark]

/-! ## Following -/

theorem openUrleq (h : browse location = some (path, query)) : openUrl location nav jar = some ⟨path, query, nav, jar, browse_asked h⟩ := by
  unfold openUrl
  split
  · rename_i p q h'
    rw [h] at h'
    cases h'
    rfl
  · rename_i h'
    rw [h] at h'
    cases h'

theorem follow_hopPage (hbody : (v.reply site live).body = .hopPage target) (h : browse target = some (path, query)) :
    v.follow site live = some ⟨path, query, v.nav.fromPage, v.kept site live, browse_asked h⟩ := by
  unfold Visit.follow
  rw [hbody]
  exact openUrleq h

theorem follow_seeOther (hbody : (v.reply site live).body = .seeOther location) (h : browse location = some (path, query)) :
    v.follow site live = some ⟨path, query, v.nav, v.kept site live, browse_asked h⟩ := by
  unfold Visit.follow
  rw [hbody]
  exact openUrleq h

theorem hops_hopPage (hbody : (v.reply site live).body = .hopPage target) : v.hops site live = 1 := by
  unfold Visit.hops
  rw [hbody]

theorem hops_seeOther (hbody : (v.reply site live).body = .seeOther location) : v.hops site live = 0 := by
  unfold Visit.hops
  rw [hbody]

/-- A hop page leads on. -/
theorem Leads.hop {n k : Nat} (hbody : (v.reply site live).body = .hopPage target) (h : browse target = some (path, query))
    (rest : Leads site live ⟨path, query, v.nav.fromPage, v.kept site live, browse_asked h⟩ n k w) : Leads site live v (n + 1) (1 + k) w := by
  have hstep := Leads.next (follow_hopPage hbody h) rest
  rw [hops_hopPage hbody] at hstep
  exact hstep

/-- A redirect leads on. -/
theorem Leads.redirect {n k : Nat} (hbody : (v.reply site live).body = .seeOther location) (h : browse location = some (path, query))
    (rest : Leads site live ⟨path, query, v.nav, v.kept site live, browse_asked h⟩ n k w) : Leads site live v (n + 1) k w := by
  have hstep := Leads.next (follow_seeOther hbody h) rest
  rw [hops_seeOther hbody, Nat.zero_add] at hstep
  exact hstep

end OpenU60.Web.Session
