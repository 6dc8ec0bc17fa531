/-
  OpenU60.Web.MarkerHop — the marker hop ends and keeps the page (see `OpenU60.Web.Session`,
  `OpenU60.Web.Browser`).

  - `outcome_page` / `outcome_login`: from a page or from the login, at most three more requests and one
    hop page show a page or the login.
  - `reply_inside`: hop pages and redirects go to pages.
  - `marker_hop`: both, and the `next` rule.
  A page whose address may not be hopped to is left for the login, and the login's own hop leads to the
  dashboard (`plus_sign`).
-/

import OpenU60.Lib.BigEndian
import OpenU60.Web.Browser

namespace OpenU60.Web.Session

open OpenU60.Lib OpenU60.Lib.UrlPath

def Visit.found (live : Text → Bool) (v : Visit) : Bool := (findSession live v.headers).isSome

/-- The hop can help. -/
def Visit.hopping (v : Visit) : Bool := hasMarker v.headers && !gone v.headers v.query && !notANavigation v.headers

def signedIn (live : Text → Bool) (jar : List Cookie) : Bool := (findSession live ⟨cookieHeader jar, none, none, none⟩).isSome

/-- The session cookie is absent or stale. -/
def SignedOut (live : Text → Bool) (jar : List Cookie) : Prop := ∀ c ∈ jar, ∀ t, cookieValue sessionCookie c.pair = some t → live t = false

def nextKey : Text := "next".toList

variable {site : Site} {live : Text → Bool} {v w : Visit} {path target location : Text} {query : Option Text} {ps : List Text} {c : Char}

/-! ## One reply -/

theorem reply_login (hlogin : v.path = loginPath) : v.reply site live = loginForm live v.headers .get v.path v.query := if_pos hlogin

theorem reply_page (hpage : site.page v.path = true) : v.reply site live = pageReply site live v.headers .get v.path v.query := by
  have hne : v.path ≠ loginPath := by
    intro heq
    rw [heq, site.login] at hpage
    cases hpage
  unfold Visit.reply Site.reply
  rw [if_neg hne, if_pos hpage]

theorem withoutSession_hop {toLogin : Option Text → Body} (hhop : v.hopping = true) (htarget : hopTarget v.path (withoutHop v.query) = some target) :
    withoutSession v.headers .get v.path v.query toLogin = ⟨.hopPage target, false⟩ := by
  unfold Visit.hopping at hhop
  simp only [Bool.and_eq_true] at hhop
  unfold withoutSession
  rw [hhop.1.1, hhop.1.2, hhop.2, htarget]
  rfl

theorem withoutSession_direct {toLogin : Option Text → Body} (h : v.hopping = true → hopTarget v.path (withoutHop v.query) = none) :
    withoutSession v.headers .get v.path v.query toLogin = ⟨toLogin (withoutHop v.query), hasMarker v.headers && gone v.headers v.query⟩ := by
  unfold withoutSession
  by_cases hhop : v.hopping = true
  · rw [h hhop]
    exact ite_self _
  · refine if_neg fun hall => hhop ?_
    simp only [Bool.and_eq_true] at hall
    unfold Visit.hopping
    rw [hall.1.1.1, hall.1.1.2, hall.2]
    rfl

theorem findSession_none (hfound : v.found live = false) : findSession live v.headers = none := by
  unfold Visit.found at hfound
  rw [← Option.not_isSome_iff_eq_none, hfound]
  exact Bool.false_ne_true

theorem reply_page_found (hpage : site.page v.path = true) (hfound : v.found live = true) (hhop : hopped v.query = false) :
    v.reply site live = ⟨.page, false⟩ := by
  obtain ⟨token, htoken⟩ := Option.isSome_iff_exists.mp hfound
  rw [reply_page hpage]
  unfold pageReply afterHop
  rw [htoken, hhop]
  rfl

theorem reply_page_clean (hpage : site.page v.path = true) (hfound : v.found live = true) (hhop : hopped v.query = true) :
    v.reply site live = ⟨.seeOther (url v.path (withoutHop v.query)), false⟩ := by
  obtain ⟨token, htoken⟩ := Option.isSome_iff_exists.mp hfound
  rw [reply_page hpage]
  unfold pageReply afterHop
  rw [htoken, hhop]
  cases withoutHop v.query with
  | none => rfl
  | some q => rfl

theorem reply_page_lost (hpage : site.page v.path = true) (hfound : v.found live = false) :
    v.reply site live = withoutSession v.headers .get v.path v.query fun q => .seeOther (loginRedirect site .get v.path q) := by
  rw [reply_page hpage]
  unfold pageReply
  rw [findSession_none hfound]

theorem reply_login_found (hlogin : v.path = loginPath) (hfound : v.found live = true) :
    v.reply site live = ⟨.seeOther (safeNext (queryParam v.query nextKey)), false⟩ := by
  rw [reply_login hlogin]
  exact if_pos hfound

theorem reply_login_lost (hlogin : v.path = loginPath) (hfound : v.found live = false) :
    v.reply site live = withoutSession v.headers .get v.path v.query fun _ => .login := by
  rw [reply_login hlogin]
  exact if_neg (Bool.eq_false_iff.mp hfound)

/-! ## Sessions along the way -/

theorem findSession_cookie {headers headers' : Headers} (h : headers.cookie = headers'.cookie) : findSession live headers = findSession live headers' := by
  unfold findSession sessionCookies cookies
  rw [h]

theorem found_strict (hstrict : v.nav.strict = true) : v.found live = signedIn live v.jar := by
  have hall : sentCookies v.nav v.jar = v.jar := List.filter_eq_self.mpr fun c _ => by rw [hstrict]; rfl
  have hcookie : v.headers.cookie = (⟨cookieHeader v.jar, none, none, none⟩ : Headers).cookie := congrArg cookieHeader hall
  unfold Visit.found signedIn
  rw [findSession_cookie hcookie]

theorem found_signedOut (h : SignedOut live v.jar) : v.found live = false := by
  refine Bool.eq_false_iff.mpr fun hfound => ?_
  obtain ⟨token, htoken⟩ := Option.isSome_iff_exists.mp hfound
  have hlive := List.find?_some htoken
  have hmem := (List.mem_filter.mp (List.mem_of_mem_take (List.mem_of_find?_eq_some htoken))).1
  unfold Visit.headers at hmem
  rw [cookies_headers] at hmem
  obtain ⟨c, hc, hvalue⟩ := List.mem_filterMap.mp hmem
  rw [h c (List.mem_filter.mp hc).1 token hvalue] at hlive
  cases hlive

theorem hopping_hopped (h : hopped v.query = true) : v.hopping = false := by
  unfold Visit.hopping gone
  rw [h]
  cases hasMarker v.headers <;> rfl

theorem hopping_unmarked (h : marked v.jar = false) : v.hopping = false := by
  unfold Visit.hopping Visit.headers
  rw [hasMarker_headers, h]
  rfl

/-! ## Where the replies lead -/

/-- Without its hop parameters an address is still one. -/
theorem asked_withoutHop (h : Asked path query) : Asked path (withoutHop query) := by
  refine ⟨h.chars, h.resolved, ?_⟩
  intro q hq
  unfold withoutHop at hq
  dsimp only at hq
  split at hq
  · cases hq
  · cases hq
    intro c hc
    cases Split.mem_intercalate hc with
    | inl heq =>
      cases List.mem_singleton.mp heq
      decide
    | inr hc =>
      obtain ⟨p, hp, hcp⟩ := hc
      have hpieces := (mem_dropKey.mp hp).1
      have hin := (Split.mem_splitOn '&' _ p hpieces).2.subset hcp
      cases query with
      | none => exact absurd hin List.not_mem_nil
      | some q => exact h.params q rfl c hin

theorem browse_clean (hpage : site.page v.path = true) : browse (url v.path (withoutHop v.query)) = some (v.path, withoutHop v.query) :=
  browse_again (asked_withoutHop v.asked) (not_twoSlashes (site.inside v.path hpage).1)

theorem encodeByte_verbatim (b : UInt8) : Verbatim (encodeByte b) := by
  have hall : ∀ b : UInt8, (encodeByte b).all (fun c => !dropped c && c ≠ '#') = true := BigEndian.forall_byte (by decide +kernel)
  intro c hc
  have hok := List.all_eq_true.mp (hall b) c hc
  simpa using hok

theorem percentEncode_verbatim (t : Text) : Verbatim (percentEncode t) := by
  intro c hc
  obtain ⟨b, -, hb⟩ := List.mem_flatMap.mp hc
  exact encodeByte_verbatim b c hb

theorem next_url (t : Text) : "/ui/login?next=".toList ++ t = url loginPath (some ("next=".toList ++ t)) := by
  unfold url loginPath
  dsimp only
  rw [show "/ui/login?next=".toList = "/ui/login".toList ++ '?' :: "next=".toList by decide, List.append_assoc]
  rfl

theorem verbatim_of_all {t : Text} (h : t.all (fun c => decide (dropped c = false ∧ c ≠ '#')) = true) : Verbatim t :=
  fun c hc => of_decide_eq_true (List.all_eq_true.mp h c hc)

theorem browse_login (h : ∀ q, query = some q → Verbatim q) : browse (url loginPath query) = some (loginPath, query) := by
  refine browse_again ⟨⟨verbatim_of_all (by decide), by decide, by decide⟩, ⟨"ui/login".toList, rfl, by decide +kernel⟩, h⟩ (by decide)

/-- A page is left for the login, plainly if its address may not be hopped to. -/
theorem browse_loginRedirect (site : Site) (path : Text) (query : Option Text) (hmark : '?' ∉ path) :
    ∃ q, browse (loginRedirect site .get path query) = some (loginPath, q) ∧ (hopTarget path query = none → q = none) := by
  unfold loginRedirect
  dsimp only
  by_cases hsafe : isSafeNext (withQuery path (dropKey search (pieces query))) = true
  · rw [if_pos hsafe, next_url]
    have hquery : Verbatim ("next=".toList ++ percentEncode (withQuery path (dropKey search (pieces query)))) :=
      Verbatim.append (verbatim_of_all (by decide)) (percentEncode_verbatim _)
    refine ⟨_, browse_login fun q hq => ?_, ?_⟩
    · cases hq
      exact hquery
    · intro hnone
      obtain ⟨target, htarget⟩ := hopTarget_of_next hsafe hmark
      rw [hnone] at htarget
      cases htarget
  · rw [if_neg hsafe]
    have hplain : browse (url loginPath none) = some (loginPath, none) := browse_login fun q hq => nomatch hq
    exact ⟨none, hplain, fun _ => rfl⟩

/-! ## One step -/

theorem kept_eq (h : (v.reply site live).clearMarker = false) : v.kept site live = v.jar := by
  unfold Visit.kept
  rw [h]
  rfl

/-- The hop's own request. -/
theorem hop_visit (hreply : v.reply site live = ⟨.hopPage target, false⟩) (htarget : hopTarget v.path (withoutHop v.query) = some target) :
    ∃ u : Visit, u.path = v.path ∧ u.query = some (hopQuery v.query) ∧ u.nav = v.nav.fromPage ∧ u.jar = v.jar ∧
      ∀ n k w, Leads site live u n k w → Leads site live v (n + 1) (1 + k) w := by
  have hbody : (v.reply site live).body = .hopPage target := by rw [hreply]
  have hkept : v.kept site live = v.jar := kept_eq (by rw [hreply])
  have hbrowse := (browse_hop v.asked.chars.2.1 htarget).1
  exact ⟨⟨v.path, some (hopQuery v.query), v.nav.fromPage, v.kept site live, browse_asked hbrowse⟩, rfl, rfl, rfl, hkept,
    fun n k w hrest => Leads.hop hbody hbrowse hrest⟩

/-- The login that a page was left for. -/
theorem redirect_visit (hpage : site.page v.path = true) (hlost : v.found live = false)
    (hdirect : v.hopping = true → hopTarget v.path (withoutHop v.query) = none) :
    ∃ u : Visit, u.path = loginPath ∧ u.nav = v.nav ∧ u.jar = v.kept site live ∧ (hopTarget v.path (withoutHop v.query) = none → u.query = none) ∧
      ∀ n k w, Leads site live u n k w → Leads site live v (n + 1) k w := by
  have hreply := (reply_page_lost hpage hlost).trans (withoutSession_direct hdirect)
  have hbody : (v.reply site live).body = .seeOther (loginRedirect site .get v.path (withoutHop v.query)) := by rw [hreply]
  obtain ⟨q, hbrowse, hplain⟩ := browse_loginRedirect site v.path (withoutHop v.query) v.asked.chars.2.1
  exact ⟨⟨loginPath, q, v.nav, v.kept site live, browse_asked hbrowse⟩, rfl, rfl, rfl, hplain, fun n k w hrest => Leads.redirect hbody hbrowse hrest⟩

theorem marked_kept (hclear : (v.reply site live).clearMarker = (hasMarker v.headers && gone v.headers v.query))
    (h : marked v.jar = true → gone v.headers v.query = true) : marked (v.kept site live) = false := by
  unfold Visit.headers at hclear h
  rw [hasMarker_headers] at hclear
  unfold Visit.kept
  cases hmarked : marked v.jar with
  | false =>
    rw [hclear, hmarked]
    exact hmarked
  | true =>
    rw [hclear, hmarked, h hmarked]
    exact marked_unmark v.jar

theorem found_kept {u : Visit} (hnav : u.nav = v.nav) (hjar : u.jar = v.kept site live) : u.found live = v.found live := by
  unfold Visit.found Visit.headers
  rw [hnav, hjar]
  unfold Visit.kept
  split
  · rw [findSession_unmark]
  · rfl

/-! ## With a session -/

/-- A page with a session is shown, after a hop at its address without the flag. -/
theorem leads_page (hpage : site.page v.path = true) (hfound : v.found live = true) :
    ∃ n w, Leads site live v n 0 w ∧ n ≤ 1 ∧ (w.reply site live).body = .page ∧ w.path = v.path ∧
      w.query = if hopped v.query then withoutHop v.query else v.query := by
  cases hhop : hopped v.query with
  | false =>
    refine ⟨0, v, .here v, by omega, ?_, rfl, rfl⟩
    rw [reply_page_found hpage hfound hhop]
  | true =>
    have hreply := reply_page_clean hpage hfound hhop
    have hbody : (v.reply site live).body = .seeOther (url v.path (withoutHop v.query)) := by rw [hreply]
    have hbrowse := browse_clean hpage
    have hshown : ∀ u : Visit, u.path = v.path → u.query = withoutHop v.query → u.nav = v.nav → u.jar = v.kept site live → (u.reply site live).body = .page := by
      intro u hpath hquery hnav hjar
      rw [reply_page_found (by rw [hpath, hpage]) (by rw [found_kept hnav hjar, hfound]) (by rw [hquery, hopped_withoutHop])]
    exact ⟨1, ⟨v.path, withoutHop v.query, v.nav, v.kept site live, browse_asked hbrowse⟩, Leads.redirect hbody hbrowse (.here _), by omega,
      hshown _ rfl rfl rfl rfl, rfl, rfl⟩

/-- The login with a session goes on to `next`, else to the dashboard. -/
theorem next_visit (site : Site) (hlogin : v.path = loginPath) (hfound : v.found live = true) :
    ∃ u : Visit, u.found live = true ∧ u.path ≠ loginPath ∧
      u.path = (splitQuery (safeNext (queryParam v.query nextKey))).1 ∧ u.query = (splitQuery (safeNext (queryParam v.query nextKey))).2 ∧
      ∀ n k w, Leads site live u n k w → Leads site live v (n + 1) k w := by
  have hreply : v.reply site live = _ := reply_login_found hlogin hfound
  have hbody : (v.reply site live).body = .seeOther (safeNext (queryParam v.query nextKey)) := by rw [hreply]
  obtain ⟨hui, -, hchars, hdots, hexcluded⟩ := isSafeNext_spec (safeNext_safe (queryParam v.query nextKey))
  have hbrowse := browse_plain hui hchars hdots
  refine ⟨⟨_, _, v.nav, v.kept site live, browse_asked hbrowse⟩, ?_, ?_, rfl, rfl, fun n k w hrest => Leads.redirect hbody hbrowse hrest⟩
  · rw [← hfound]
    exact found_kept rfl rfl
  · intro heq
    have hprefix : loginPath <+: safeNext (queryParam v.query nextKey) := heq ▸ path_starts _
    exact hexcluded loginPath (List.mem_cons_self) hprefix

theorem leads_next (site : Site) (hlogin : v.path = loginPath) (hfound : v.found live = true) :
    ∃ n w, Leads site live v n 0 w ∧ n ≤ 2 ∧ ((w.reply site live).body = .page ∨ (w.reply site live).body = .other) ∧
      w.path = (splitQuery (safeNext (queryParam v.query nextKey))).1 := by
  obtain ⟨u, hu, hne, hpath, -, hleads⟩ := next_visit site hlogin hfound
  cases hpage : site.page u.path with
  | true =>
    obtain ⟨n, w, hrest, hn, hbody, hwpath, -⟩ := leads_page hpage hu
    exact ⟨n + 1, w, hleads n 0 w hrest, by omega, .inl hbody, hwpath.trans hpath⟩
  | false =>
    refine ⟨1, u, hleads 0 0 u (.here u), by omega, .inr ?_, hpath⟩
    unfold Visit.reply Site.reply
    rw [if_neg hne, hpage]
    rfl

/-- Without `next`: the dashboard. -/
theorem leads_home (site : Site) (hlogin : v.path = loginPath) (hfound : v.found live = true) (hnext : queryParam v.query nextKey = none) :
    ∃ w, Leads site live v 1 0 w ∧ (w.reply site live).body = .page ∧ w.path = uiPath := by
  obtain ⟨u, hu, -, hpath, hquery, hleads⟩ := next_visit site hlogin hfound
  rw [hnext] at hpath hquery
  have hhome : u.path = uiPath := hpath.trans (by decide)
  have hplain : u.query = none := hquery.trans (by decide)
  refine ⟨u, hleads 0 0 u (.here u), ?_, hhome⟩
  rw [reply_page_found (by rw [hhome, site.home]) hu (by rw [hplain]; decide)]

/-! ## Without a session -/

theorem reply_login_shown (hlogin : v.path = loginPath) (hlost : v.found live = false)
    (hdirect : v.hopping = true → hopTarget v.path (withoutHop v.query) = none) :
    v.reply site live = ⟨.login, hasMarker v.headers && gone v.headers v.query⟩ :=
  (reply_login_lost hlogin hlost).trans (withoutSession_direct hdirect)

/-- A page that may not hop is left for the login, and the marker is cleared if the session is known to be gone. -/
theorem leads_login (hpage : site.page v.path = true) (hlost : v.found live = false) (hdirect : v.hopping = false) :
    ∃ w, Leads site live v 1 0 w ∧ (w.reply site live).body = .login ∧
      ((marked v.jar = true → gone v.headers v.query = true) → marked (w.kept site live) = false) := by
  have hno : v.hopping = true → hopTarget v.path (withoutHop v.query) = none := by
    intro h
    rw [hdirect] at h
    cases h
  obtain ⟨u, hpath, hnav, hjar, -, hleads⟩ := redirect_visit hpage hlost hno
  have hclear : (v.reply site live).clearMarker = (hasMarker v.headers && gone v.headers v.query) := by
    rw [reply_page_lost hpage hlost, withoutSession_direct hno]
  have hulost : u.found live = false := (found_kept hnav hjar).trans hlost
  have hudirect : u.hopping = false := by
    by_cases hgone : marked v.jar = true → gone v.headers v.query = true
    · exact hopping_unmarked (hjar ▸ marked_kept hclear hgone)
    · have hnav' : notANavigation v.headers = true := by
        have hmarked : marked v.jar = true := by_contra fun h => hgone fun h' => absurd h' h
        have hstays : gone v.headers v.query = false := Bool.eq_false_iff.mpr fun h => hgone fun _ => h
        unfold Visit.hopping at hdirect
        unfold Visit.headers at hdirect hstays ⊢
        rw [hasMarker_headers, hmarked, hstays] at hdirect
        simpa using hdirect
      have hsame : notANavigation u.headers = notANavigation v.headers := by
        unfold notANavigation Visit.headers headers
        rw [hnav]
      unfold Visit.hopping
      rw [hsame, hnav', Bool.not_true, Bool.and_false]
  have hushown : u.reply site live = _ := reply_login_shown hpath hulost fun h => by rw [hudirect] at h; cases h
  refine ⟨u, hleads 0 0 u (.here u), by rw [hushown], fun hgone => marked_kept (by rw [hushown]) fun hmarked => ?_⟩
  rw [hjar, marked_kept hclear hgone] at hmarked
  cases hmarked

/-! ## Outcomes -/

/-- After `n` more requests, `k` of the answers before hop pages, `w` is shown. -/
structure Outcome (site : Site) (live : Text → Bool) (v : Visit) (n k : Nat) (w : Visit) : Prop where
  leads : Leads site live v n k w
  requests : n ≤ 3
  hopPages : k ≤ 1
  shown : (w.reply site live).body = .page ∨ (w.reply site live).body = .login ∨ ((w.reply site live).body = .other ∧ v.path = loginPath)
  itself : site.page v.path = true → (w.reply site live).body = .page →
    w.path = v.path ∨ (hopTarget v.path (withoutHop v.query) = none ∧ w.path = uiPath)
  behind : ∀ target, (v.reply site live).body = .hopPage target → signedIn live v.jar = true →
    (site.page v.path = true → (w.reply site live).body = .page ∧ w.path = v.path ∧ w.query = stripped v.query) ∧
    (v.path = loginPath → w.path = (splitQuery (safeNext (queryParam v.query nextKey))).1)
  cleared : SignedOut live v.jar →
    (gone v.headers v.query = true ∨
      (notANavigation v.headers = false ∧ (site.page v.path = true ∨ (hopTarget v.path (withoutHop v.query)).isSome = true))) →
    marked (w.kept site live) = false

theorem gone_of_marked (hdirect : v.hopping = false) (h : gone v.headers v.query = true ∨ notANavigation v.headers = false) :
    marked v.jar = true → gone v.headers v.query = true := by
  intro hmarked
  cases h with
  | inl h => exact h
  | inr h =>
    unfold Visit.hopping at hdirect
    rw [h] at hdirect
    unfold Visit.headers at hdirect ⊢
    rw [hasMarker_headers, hmarked] at hdirect
    simpa using hdirect

theorem gone_hopped {headers : Headers} (h : hopped query = true) : gone headers query = true := by
  unfold gone
  rw [h]
  rfl

theorem not_found (hout : SignedOut live v.jar) (hfound : v.found live = true) : False := by
  rw [found_signedOut hout] at hfound
  cases hfound

theorem outcome_found (hpage : site.page v.path = true) (hfound : v.found live = true) : ∃ n k w, Outcome site live v n k w := by
  obtain ⟨n, w, hleads, hn, hbody, hpath, -⟩ := leads_page hpage hfound
  refine ⟨n, 0, w, hleads, by omega, by omega, .inl hbody, fun _ _ => .inl hpath, ?_, fun hout => absurd hfound fun h => not_found hout h⟩
  intro target htarget
  cases hhop : hopped v.query with
  | false =>
    rw [reply_page_found hpage hfound hhop] at htarget
    cases htarget
  | true =>
    rw [reply_page_clean hpage hfound hhop] at htarget
    cases htarget

/-- The hop is taken at the page: with the session the page is shown behind it. -/
theorem outcome_hop (hpage : site.page v.path = true) (hlost : v.found live = false) (hhop : v.hopping = true)
    (htarget : hopTarget v.path (withoutHop v.query) = some target) : ∃ n k w, Outcome site live v n k w := by
  have hne : v.path ≠ loginPath := by
    intro heq
    rw [heq, site.login] at hpage
    cases hpage
  obtain ⟨u, hpath, hquery, hnav, hjar, hleads⟩ := hop_visit ((reply_page_lost hpage hlost).trans (withoutSession_hop hhop htarget)) htarget
  have hupage : site.page u.path = true := by rw [hpath, hpage]
  have hflag : hopped u.query = true := by rw [hquery, hopped_hopQuery]
  have hstrict : u.found live = signedIn live v.jar := by
    rw [← hjar]
    exact found_strict (by rw [hnav]; rfl)
  cases hfound : u.found live with
  | true =>
    obtain ⟨n, w, hrest, hn, hbody, hwpath, hwquery⟩ := leads_page hupage hfound
    rw [hflag, if_pos rfl, hquery, withoutHop_hopQuery] at hwquery
    refine ⟨n + 1, 1 + 0, w, hleads n 0 w hrest, by omega, by omega, .inl hbody, fun _ _ => .inl (hwpath.trans hpath), ?_, ?_⟩
    · exact fun _ _ _ => ⟨fun _ => ⟨hbody, hwpath.trans hpath, hwquery⟩, fun h => absurd h hne⟩
    · intro hout
      exact absurd hfound fun h => not_found (hjar ▸ hout) h
  | false =>
    obtain ⟨w, hrest, hbody, hcleared⟩ := leads_login hupage hfound (hopping_hopped hflag)
    refine ⟨1 + 1, 1 + 0, w, hleads 1 0 w hrest, by omega, by omega, .inr (.inl hbody), ?_, ?_, ?_⟩
    · intro _ h
      rw [hbody] at h
      cases h
    · intro _ _ hin
      rw [← hstrict, hfound] at hin
      cases hin
    · exact fun _ _ => hcleared fun _ => gone_hopped hflag

theorem outcome_direct (hpage : site.page v.path = true) (hlost : v.found live = false) (hdirect : v.hopping = false) :
    ∃ n k w, Outcome site live v n k w := by
  obtain ⟨w, hleads, hbody, hcleared⟩ := leads_login hpage hlost hdirect
  refine ⟨1, 0, w, hleads, by omega, by omega, .inr (.inl hbody), ?_, ?_, ?_⟩
  · intro _ h
    rw [hbody] at h
    cases h
  · intro target htarget
    rw [reply_page_lost hpage hlost, withoutSession_direct fun h => by rw [hdirect] at h; cases h] at htarget
    cases htarget
  · exact fun _ h => hcleared (gone_of_marked hdirect (h.imp_right And.left))

/-- The login without a query may be hopped to wherever the page before it could have hopped. -/
theorem hopping_plain {u : Visit} (hnav : u.nav = v.nav) (hjar : u.jar = v.jar) (hquery : u.query = none) (hhop : v.hopping = true) : u.hopping = true := by
  have hheaders : u.headers = v.headers := by
    unfold Visit.headers
    rw [hnav, hjar]
  unfold Visit.hopping gone at hhop ⊢
  rw [hheaders, hquery, show hopped none = false by decide]
  simp only [Bool.and_eq_true, Bool.not_eq_true', Bool.or_eq_false_iff] at hhop ⊢
  exact ⟨⟨hhop.1.1, ⟨trivial, hhop.1.2.1.2⟩, hhop.1.2.2⟩, hhop.2⟩

/-- The page's address may not be hopped to: the login hops. -/
theorem detour_visit (hpage : site.page v.path = true) (hlost : v.found live = false) (hhop : v.hopping = true)
    (hnone : hopTarget v.path (withoutHop v.query) = none) :
    ∃ u : Visit, u.path = loginPath ∧ hopped u.query = true ∧ queryParam u.query nextKey = none ∧ u.jar = v.jar ∧ u.found live = signedIn live v.jar ∧
      ∀ n k w, Leads site live u n k w → Leads site live v (n + 1 + 1) (1 + k) w := by
  have hstays : gone v.headers v.query = false := by
    unfold Visit.hopping at hhop
    simp only [Bool.and_eq_true, Bool.not_eq_true'] at hhop
    exact hhop.1.2
  have hreply := (reply_page_lost hpage hlost).trans (withoutSession_direct fun _ => hnone)
  obtain ⟨x, hpath, hnav, hjar, hquery, hleads⟩ := redirect_visit hpage hlost fun _ => hnone
  rw [kept_eq (by rw [hreply, hstays, Bool.and_false])] at hjar
  have hxlost : x.found live = false := by
    rw [← hlost]
    unfold Visit.found Visit.headers
    rw [hnav, hjar]
  obtain ⟨target, htarget⟩ : ∃ target, hopTarget x.path (withoutHop x.query) = some target := by
    rw [hpath, hquery hnone]
    exact Option.isSome_iff_exists.mp (by decide)
  have hxreply : x.reply site live = _ := (reply_login_lost hpath hxlost).trans (withoutSession_hop (hopping_plain hnav hjar (hquery hnone) hhop) htarget)
  obtain ⟨u, hupath, huquery, hunav, hujar, huleads⟩ := hop_visit hxreply htarget
  refine ⟨u, hupath.trans hpath, by rw [huquery, hopped_hopQuery], ?_, hujar.trans hjar, ?_, fun n k w hrest => hleads _ _ w (huleads n k w hrest)⟩
  · rw [huquery]
    refine (queryParam_hopQuery x.query).trans ?_
    rw [hquery hnone]
    rfl
  · rw [← hjar, ← hujar]
    exact found_strict (by rw [hunav]; rfl)

/-- With the session the dashboard is shown there. -/
theorem detour_home (hpage : site.page v.path = true) (hlost : v.found live = false) (hhop : v.hopping = true)
    (hnone : hopTarget v.path (withoutHop v.query) = none) (hin : signedIn live v.jar = true) :
    ∃ w, Leads site live v 3 1 w ∧ (w.reply site live).body = .page ∧ w.path = uiPath := by
  obtain ⟨u, hpath, -, hnext, -, hfound, hleads⟩ := detour_visit hpage hlost hhop hnone
  obtain ⟨w, hrest, hbody, hwpath⟩ := leads_home site hpath (hfound.trans hin) hnext
  exact ⟨w, hleads 1 0 w hrest, hbody, hwpath⟩

theorem outcome_detour (hpage : site.page v.path = true) (hlost : v.found live = false) (hhop : v.hopping = true)
    (hnone : hopTarget v.path (withoutHop v.query) = none) : ∃ n k w, Outcome site live v n k w := by
  have hno : ∀ target, (v.reply site live).body ≠ .hopPage target := by
    intro target h
    rw [reply_page_lost hpage hlost, withoutSession_direct fun _ => hnone] at h
    cases h
  cases hin : signedIn live v.jar with
  | true =>
    obtain ⟨w, hleads, hbody, hwpath⟩ := detour_home hpage hlost hhop hnone hin
    refine ⟨3, 1, w, hleads, by omega, by omega, .inl hbody, fun _ _ => .inr ⟨hnone, hwpath⟩, fun target h => absurd h (hno target), ?_⟩
    intro hout
    obtain ⟨u, -, -, -, hjar, hfound, -⟩ := detour_visit hpage hlost hhop hnone
    exact absurd (hfound.trans hin) fun h => not_found (hjar ▸ hout) h
  | false =>
    obtain ⟨u, hpath, hflag, -, -, hfound, hleads⟩ := detour_visit hpage hlost hhop hnone
    have hshown : u.reply site live = _ := reply_login_shown hpath (hfound.trans hin) fun h => by rw [hopping_hopped hflag] at h; cases h
    refine ⟨_, _, u, hleads 0 0 u (.here u), by omega, by omega, .inr (.inl (by rw [hshown])), ?_, fun target h => absurd h (hno target), ?_⟩
    · intro _ h
      rw [hshown] at h
      cases h
    · exact fun _ _ => marked_kept (by rw [hshown]) fun _ => gone_hopped hflag

theorem outcome_page (live : Text → Bool) (hpage : site.page v.path = true) : ∃ n k w, Outcome site live v n k w := by
  cases hfound : v.found live with
  | true => exact outcome_found hpage hfound
  | false =>
    cases hhop : v.hopping with
    | false => exact outcome_direct hpage hfound hhop
    | true =>
      cases htarget : hopTarget v.path (withoutHop v.query) with
      | none => exact outcome_detour hpage hfound hhop htarget
      | some target => exact outcome_hop hpage hfound hhop htarget

theorem outcome_login (site : Site) (live : Text → Bool) (hlogin : v.path = loginPath) : ∃ n k w, Outcome site live v n k w := by
  have hno : ∀ {p : Prop}, site.page v.path = true → p := by
    intro p h
    rw [hlogin, site.login] at h
    cases h
  cases hfound : v.found live with
  | true =>
    obtain ⟨n, w, hleads, hn, hbody, -⟩ := leads_next site hlogin hfound
    refine ⟨n, 0, w, hleads, by omega, by omega, hbody.imp_right fun h => .inr ⟨h, hlogin⟩, fun h => hno h, ?_,
      fun hout => absurd hfound fun h => not_found hout h⟩
    intro target htarget
    rw [reply_login_found hlogin hfound] at htarget
    cases htarget
  | false =>
    by_cases hhop : v.hopping = true ∧ (hopTarget v.path (withoutHop v.query)).isSome = true
    · obtain ⟨hhop, hsome⟩ := hhop
      obtain ⟨target, htarget⟩ := Option.isSome_iff_exists.mp hsome
      have hreply : v.reply site live = _ := (reply_login_lost hlogin hfound).trans (withoutSession_hop hhop htarget)
      obtain ⟨u, hpath, hquery, hnav, hjar, hleads⟩ := hop_visit hreply htarget
      have hflag : hopped u.query = true := by rw [hquery, hopped_hopQuery]
      have hstrict : u.found live = signedIn live v.jar := by
        rw [← hjar]
        exact found_strict (by rw [hnav]; rfl)
      cases hufound : u.found live with
      | true =>
        obtain ⟨n, w, hrest, hn, hbody, hwpath⟩ := leads_next site (hpath.trans hlogin) hufound
        rw [hquery, show queryParam (some (hopQuery v.query)) nextKey = queryParam v.query nextKey from queryParam_hopQuery v.query] at hwpath
        refine ⟨n + 1, 1 + 0, w, hleads n 0 w hrest, by omega, by omega, hbody.imp_right fun h => .inr ⟨h, hlogin⟩, fun h => hno h,
          fun _ _ _ => ⟨fun h => hno h, fun _ => hwpath⟩, ?_⟩
        intro hout
        exact absurd hufound fun h => not_found (hjar ▸ hout) h
      | false =>
        have hshown : u.reply site live = _ := reply_login_shown (hpath.trans hlogin) hufound fun h => by rw [hopping_hopped hflag] at h; cases h
        refine ⟨0 + 1, 1 + 0, u, hleads 0 0 u (.here u), by omega, by omega, .inr (.inl (by rw [hshown])), fun h => hno h, ?_, ?_⟩
        · intro _ _ hin
          rw [← hstrict, hufound] at hin
          cases hin
        · exact fun _ _ => marked_kept (by rw [hshown]) fun _ => gone_hopped hflag
    · have hdirect : v.hopping = true → hopTarget v.path (withoutHop v.query) = none := by
        intro h
        rw [← Option.not_isSome_iff_eq_none]
        exact fun hsome => hhop ⟨h, hsome⟩
      have hshown : v.reply site live = _ := reply_login_shown hlogin hfound hdirect
      refine ⟨0, 0, v, .here v, by omega, by omega, .inr (.inl (by rw [hshown])), fun h => hno h, ?_, ?_⟩
      · intro target htarget
        rw [hshown] at htarget
        cases htarget
      · intro _ h
        refine marked_kept (by rw [hshown]) ?_
        cases h with
        | inl h => exact fun _ => h
        | inr h =>
          cases h.2 with
          | inl hpage => exact hno hpage
          | inr hsome => exact gone_of_marked (Bool.eq_false_iff.mpr fun hhopping => hhop ⟨hhopping, hsome⟩) (.inr h.1)

/-! ## Inside -/

/-- A page's path, or the login's, or what `next` may be. -/
def Inside (path : Text) : Prop := uiPath <+: path ∧ ¬ "/ui/live/".toList <+: path ∧ ¬ "/ui/a/".toList <+: path

/-- Hop pages and redirects go to a path under `/ui/` that is no live stream and no asset. -/
theorem reply_inside (hours : site.page v.path = true ∨ v.path = loginPath)
    (hgoes : (v.reply site live).body = .hopPage location ∨ (v.reply site live).body = .seeOther location) :
    ∃ p q, browse location = some (p, q) ∧ Inside p := by
  have hlost : ∀ toLogin : Option Text → Body, (∀ q, toLogin q = .login ∨ ∃ p r, toLogin q = .seeOther (loginRedirect site .get p r) ∧ '?' ∉ p) →
      v.reply site live = withoutSession v.headers .get v.path v.query toLogin → ∃ p q, browse location = some (p, q) ∧ Inside p := by
    intro toLogin hto hreply
    by_cases hhop : v.hopping = true ∧ (hopTarget v.path (withoutHop v.query)).isSome = true
    · obtain ⟨hhop, hsome⟩ := hhop
      obtain ⟨target, htarget⟩ := Option.isSome_iff_exists.mp hsome
      rw [hreply, withoutSession_hop hhop htarget] at hgoes
      have heq : target = location := by
        cases hgoes with
        | inl h => exact Body.hopPage.inj h
        | inr h => cases h
      obtain ⟨hbrowse, hinside⟩ := browse_hop v.asked.chars.2.1 htarget
      exact ⟨_, _, heq ▸ hbrowse, hinside⟩
    · have hdirect : v.hopping = true → hopTarget v.path (withoutHop v.query) = none := by
        intro h
        rw [← Option.not_isSome_iff_eq_none]
        exact fun hsome => hhop ⟨h, hsome⟩
      rw [hreply, withoutSession_direct hdirect] at hgoes
      cases hto (withoutHop v.query) with
      | inl hlogin =>
        dsimp only at hgoes
        rw [hlogin] at hgoes
        cases hgoes with
        | inl h => cases h
        | inr h => cases h
      | inr hto =>
        obtain ⟨p, r, hto, hmark⟩ := hto
        dsimp only at hgoes
        rw [hto] at hgoes
        have heq : loginRedirect site .get p r = location := by
          cases hgoes with
          | inl h => cases h
          | inr h => exact Body.seeOther.inj h
        obtain ⟨q, hbrowse, -⟩ := browse_loginRedirect site p r hmark
        exact ⟨_, _, heq ▸ hbrowse, by decide, by decide, by decide⟩
  cases hours with
  | inl hpage =>
    cases hfound : v.found live with
    | false =>
      exact hlost _ (fun q => .inr ⟨v.path, q, rfl, v.asked.chars.2.1⟩) (reply_page_lost hpage hfound)
    | true =>
      cases hhop : hopped v.query with
      | false =>
        rw [reply_page_found hpage hfound hhop] at hgoes
        cases hgoes with
        | inl h => cases h
        | inr h => cases h
      | true =>
        rw [reply_page_clean hpage hfound hhop] at hgoes
        have heq : url v.path (withoutHop v.query) = location := by
          cases hgoes with
          | inl h => cases h
          | inr h => exact Body.seeOther.inj h
        exact ⟨_, _, heq ▸ browse_clean hpage, site.inside v.path hpage⟩
  | inr hlogin =>
    cases hfound : v.found live with
    | false => exact hlost _ (fun _ => .inl rfl) (reply_login_lost hlogin hfound)
    | true =>
      rw [reply_login_found hlogin hfound] at hgoes
      have heq : safeNext (queryParam v.query nextKey) = location := by
        cases hgoes with
        | inl h => cases h
        | inr h => exact Body.seeOther.inj h
      obtain ⟨p, q, hbrowse, hui, hexcluded⟩ := browse_next (safeNext_safe (queryParam v.query nextKey))
      exact ⟨p, q, heq ▸ hbrowse, hui, hexcluded _ (by decide), hexcluded _ (by decide)⟩

/-- The marker hop ends and keeps the page, hops and redirects stay inside, and so does every accepted `next`. -/
theorem marker_hop (site : Site) (live : Text → Bool) :
    (∀ v : Visit, site.page v.path = true ∨ v.path = loginPath → (∃ n k w, Outcome site live v n k w) ∧
      ∀ location, (v.reply site live).body = .hopPage location ∨ (v.reply site live).body = .seeOther location →
        ∃ p q, browse location = some (p, q) ∧ Inside p) ∧
    ∀ s, isSafeNext s = true → ∃ p q, browse s = some (p, q) ∧ uiPath <+: p ∧ ∀ x ∈ excluded, ¬ x <+: p := by
  refine ⟨?_, fun s => browse_next⟩
  intro v hours
  refine ⟨?_, fun location => reply_inside hours⟩
  cases hours with
  | inl hpage => exact outcome_page live hpage
  | inr hlogin => exact outcome_login site live hlogin

/-- The dashboard and the messages. -/
def smsSite : Site where
  page := fun p => p = uiPath || p = "/ui/sms".toList
  formPage := fun _ => none
  inside := by
    intro p hp
    simp only [Bool.or_eq_true, decide_eq_true_eq] at hp
    cases hp with
    | inl hp =>
      subst hp
      decide
    | inr hp =>
      subst hp
      decide
  home := rfl
  login := by decide

def token : Text := List.replicate 64 'a'

/-- A link in another app to the messages, with a query; the browser is signed in. -/
def outside (query : Text) (hquery : Verbatim query) : Visit where
  path := "/ui/sms".toList
  query := some query
  nav := ⟨some "cross-site".toList, some "navigate".toList, some "document".toList, false, by decide⟩
  jar := [⟨sessionCookie ++ '=' :: token, true, by decide, fun _ => by decide⟩, ⟨markerCookie ++ ['=', '1'], false, by decide, fun h => nomatch h⟩]
  asked := ⟨⟨verbatim_of_all (by decide), by decide, by decide⟩, ⟨"ui/sms".toList, rfl, by decide +kernel⟩, fun q hq => by cases hq; exact hquery⟩

def stored : Visit := outside "store=sim".toList (verbatim_of_all (by decide))

theorem marker_hop_sms : (∃ n k w, Outcome smsSite (· = token) stored n k w) ∧
    ∃ p q, browse "/ui/sms?store=sim".toList = some (p, q) ∧ uiPath <+: p ∧ ∀ x ∈ excluded, ¬ x <+: p :=
  ⟨((marker_hop smsSite (· = token)).1 stored (.inl (by decide))).1, (marker_hop smsSite (· = token)).2 _ (by decide)⟩

def plus : Visit := outside "a=b+c".toList (verbatim_of_all (by decide))

/-- A plus sign is no plain character: the session is live, a hop was taken, and another page is reached. -/
theorem plus_sign : signedIn (· = token) plus.jar = true ∧
    ∃ w, Leads smsSite (· = token) plus 3 1 w ∧ (w.reply smsSite (· = token)).body = .page ∧ w.path ≠ plus.path := by
  have hin : signedIn (· = token) plus.jar = true := by decide +kernel
  refine ⟨hin, ?_⟩
  obtain ⟨w, hleads, hbody, hpath⟩ := detour_home (by decide : smsSite.page plus.path = true) (by decide +kernel) (by decide +kernel) (by decide +kernel) hin
  refine ⟨w, hleads, hbody, ?_⟩
  rw [hpath]
  decide

end OpenU60.Web.Session
