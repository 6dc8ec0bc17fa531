/-
  OpenU60.Web.UrlHost — the host a page shows of a secret URL, and the server two URLs share.

  - `host_same`, `host_leaks`: of a secret URL that is `SecretPlain` the same host is shown for all
    that differ from it `Secretly` and whose schemes agree; of any other, the `://` of another
    path or query brings another one to light.
  - `origin_server`: URLs of one origin have one scheme, host and port.
-/

import OpenU60.Web.UrlShown

namespace OpenU60.Web.Url

open OpenU60.Lib OpenU60.Lib.Split

variable {u v w x r : List Char} {p : Parts} {c d : Char}

/-! ## Lower case -/

theorem toLower_upper (h : 'A' ≤ c ∧ c ≤ 'Z') : c.toLower.val.toNat = c.val.toNat + 32 := by
  have hhigh : c.val.toNat ≤ 90 := h.2
  have hval : c.toLower.val = c.val + 32 := by
    unfold Char.toLower
    rw [dif_pos ⟨h.1, h.2⟩]
    rfl
  rw [hval, UInt32.toNat_add, show (32 : UInt32).toNat = 32 from rfl]
  exact Nat.mod_eq_of_lt (by omega)

theorem toLower_eq (c : Char) : c.toLower = c ∨ ('A' ≤ c ∧ c ≤ 'Z') ∧ 'a' ≤ c.toLower ∧ c.toLower ≤ 'z' := by
  by_cases h : 'A' ≤ c ∧ c ≤ 'Z'
  · refine .inr ⟨h, ?_⟩
    have hlow : 65 ≤ c.val.toNat := h.1
    have hhigh : c.val.toNat ≤ 90 := h.2
    have hnat := toLower_upper h
    constructor
    · show 97 ≤ c.toLower.val.toNat
      omega
    · show c.toLower.val.toNat ≤ 122
      omega
  · refine .inl ?_
    unfold Char.toLower
    exact dif_neg fun hc => h ⟨hc.1, hc.2⟩

theorem toLower_inj (hc : c < 'A') (h : d.toLower = c) : d = c := by
  obtain heq | ⟨-, hlow, -⟩ := toLower_eq d
  · exact heq.symm.trans h
  · rw [h] at hlow
    have h₁ : c.val.toNat < 65 := hc
    have h₂ : 97 ≤ c.val.toNat := hlow
    omega

theorem lower_sep : sep.map Char.toLower = sep := by decide

theorem splitOnce_lower (u : List Char) : splitOnce sep (lower u) = (splitOnce sep u).map fun q => (lower q.1, lower q.2) := by
  have hinj : ∀ a ∈ sep, ∀ b : Char, b.toLower = a.toLower → b = a := by
    intro a ha b hb
    have hfix : a.toLower = a ∧ a < 'A' := by
      unfold sep at ha
      simp only [List.mem_cons, List.not_mem_nil, or_false] at ha
      obtain rfl | rfl | rfl := ha <;> decide
    rw [hfix.1] at hb
    exact toLower_inj hfix.2 hb
  have := splitOnce_map (f := Char.toLower) hinj u
  rwa [lower_sep] at this

theorem inAuthority_toLower (c : Char) : inAuthority c.toLower = inAuthority c := by
  have hiff : ∀ k : Char, k < 'A' → k.toLower = k → (c.toLower == k) = (c == k) := by
    intro k hk hfix
    rw [Bool.eq_iff_iff, beq_iff_eq, beq_iff_eq]
    exact ⟨toLower_inj hk, fun h => by rw [h, hfix]⟩
  unfold inAuthority
  rw [hiff '/' (by decide) (by decide), hiff '?' (by decide) (by decide), hiff '#' (by decide) (by decide)]

theorem takeWhile_lower (u : List Char) : (lower u).takeWhile inAuthority = lower (u.takeWhile inAuthority) := by
  induction u with
  | nil => rfl
  | cons c u ih =>
    unfold lower at ih ⊢
    rw [List.map_cons]
    by_cases hc : inAuthority c = true
    · rw [List.takeWhile_cons_of_pos (by rw [inAuthority_toLower]; exact hc), List.takeWhile_cons_of_pos hc, ih, List.map_cons]
    · rw [List.takeWhile_cons_of_neg (by rw [inAuthority_toLower]; exact hc), List.takeWhile_cons_of_neg hc]
      rfl

theorem afterAt_lower (u : List Char) : afterAt (lower u) = lower (afterAt u) := by
  have hsplit : rsplitOnce '@' (lower u) = (rsplitOnce '@' u).map fun q => (lower q.1, lower q.2) :=
    rsplitOnce_map (f := Char.toLower) (a := '@') (fun b hb => toLower_inj (by decide) hb) u
  unfold afterAt
  rw [hsplit]
  cases rsplitOnce '@' u <;> rfl

theorem letter_toLower (h : d.toLower.isAlpha = true) : d.isAlpha = true := by
  obtain heq | ⟨⟨hlow, hhigh⟩, -⟩ := toLower_eq d
  · rw [← heq]
    exact h
  · have hupper : d.isUpper = true := by
      unfold Char.isUpper
      simp only [decide_eq_true_eq]
      exact ⟨hlow, hhigh⟩
    unfold Char.isAlpha
    rw [hupper]
    rfl

theorem letter_schemeChar (h : d.isAlpha = true) : schemeChar d = true ∧ Text.isWhitespace d = false := by
  constructor
  · unfold schemeChar Char.isAlphanum
    rw [h]
    rfl
  · have hval : 65 ≤ d.toNat ∧ d.toNat ≤ 122 := by
      unfold Char.isAlpha Char.isUpper Char.isLower at h
      simp only [Bool.or_eq_true, Bool.and_eq_true, decide_eq_true_eq] at h
      have hnat : d.toNat = d.val.toNat := rfl
      obtain ⟨h₁, h₂⟩ | ⟨h₁, h₂⟩ := h
      · have h₁' : 65 ≤ d.val.toNat := h₁
        have h₂' : d.val.toNat ≤ 90 := h₂
        omega
      · have h₁' : 97 ≤ d.val.toNat := h₁
        have h₂' : d.val.toNat ≤ 122 := h₂
        omega
    obtain ⟨hlow, hhigh⟩ := hval
    unfold Text.isWhitespace
    simp only [Bool.or_eq_false_iff, Bool.and_eq_false_iff, decide_eq_false_iff_not, beq_eq_false_iff_ne]
    omega

/-- One character after the other. -/
theorem forall_mem_of_all {p : Char → Prop} [DecidablePred p] {l : List Char} (h : l.all (p ·) = true) : ∀ c ∈ l, p c :=
  fun c hc => of_decide_eq_true (List.all_eq_true.mp h c hc)

theorem isScheme_of_http (h : isHttp (lower u) = true) : isScheme u = true := by
  have hletters : lower u ≠ [] ∧ ∀ c ∈ lower u, c.isAlpha = true := by
    unfold isHttp at h
    rw [Bool.or_eq_true, decide_eq_true_eq, decide_eq_true_eq] at h
    obtain h | h := h <;> rw [h] <;> exact ⟨List.cons_ne_nil _ _, forall_mem_of_all (by decide)⟩
  have hall : ∀ c ∈ u, schemeChar c = true ∧ Text.isWhitespace c = false := fun c hc =>
    letter_schemeChar (letter_toLower (hletters.2 _ (List.mem_map_of_mem hc)))
  cases u with
  | nil => exact absurd rfl hletters.1
  | cons a u =>
    have hdrop : (a :: u).dropWhile Text.isWhitespace = a :: u :=
      List.dropWhile_cons_of_neg (by rw [(hall a (List.mem_cons_self ..)).2]; exact Bool.false_ne_true)
    unfold isScheme
    rw [hdrop]
    exact List.all_eq_true.mpr fun c hc => (hall c hc).1

/-! ## Origin and host -/

theorem origin_eq (u : List Char) : origin u =
    match splitOnce sep (Text.trim u) with
    | some (s, r) =>
      if isHttp (lower s) = true ∧ afterAt (r.takeWhile inAuthority) ≠ [] then
        lower s ++ sep ++ lower (afterAt (r.takeWhile inAuthority))
      else []
    | none => [] := by
  unfold origin
  rw [splitOnce_lower]
  cases splitOnce sep (Text.trim u) with
  | none => rfl
  | some q =>
    dsimp only [Option.map_some]
    rw [takeWhile_lower, afterAt_lower]
    have hnil : lower (afterAt (q.2.takeWhile inAuthority)) = [] ↔ afterAt (q.2.takeWhile inAuthority) = [] := List.map_eq_nil_iff
    by_cases hhttp : isHttp (lower q.1) = true
    · by_cases hno : afterAt (q.2.takeWhile inAuthority) = []
      · simp only [hhttp, hno, ne_eq, not_true, and_false, if_true, if_false]
        rfl
      · simp only [hhttp, hnil, hno, ne_eq, not_false_eq_true, and_self, if_true, if_false]
    · rw [if_neg hhttp, if_neg fun h => hhttp h.1]

theorem hostlike_nil : hostlike [] = false := by decide

theorem host_eq (u : List Char) : host u =
    match splitOnce sep (Text.trim u) with
    | some (s, r) =>
      if isHttp (lower s) = true ∨ hostlike (afterAt (r.takeWhile inAuthority)) = true then
        lower (afterAt (r.takeWhile inAuthority))
      else []
    | none =>
      if hostlike (afterAt ((Text.trim u).takeWhile inAuthority)) = true then
        lower (afterAt ((Text.trim u).takeWhile inAuthority))
      else [] := by
  have hempty : splitOnce sep ([] : List Char) = none := by decide
  unfold host
  rw [origin_eq]
  cases hs : splitOnce sep (Text.trim u) with
  | none =>
    dsimp only
    rw [hempty]
  | some q =>
    dsimp only
    by_cases hhttp : isHttp (lower q.1) = true ∧ afterAt (q.2.takeWhile inAuthority) ≠ []
    · have hno : ':' ∉ lower q.1 := by
        have h := hhttp.1
        unfold isHttp at h
        rw [Bool.or_eq_true, decide_eq_true_eq, decide_eq_true_eq] at h
        obtain h | h := h <;> rw [h] <;> decide
      have hsplit : splitOnce sep (lower q.1 ++ sep ++ lower (afterAt (q.2.takeWhile inAuthority))) =
          some (lower q.1, lower (afterAt (q.2.takeWhile inAuthority))) := splitOnce_of_not_mem hno
      rw [if_pos hhttp, hsplit, if_pos (Or.inl hhttp.1)]
    · rw [if_neg hhttp, hempty]
      dsimp only
      by_cases hlike : hostlike (afterAt (q.2.takeWhile inAuthority)) = true
      · rw [if_pos hlike, if_pos (Or.inr hlike)]
      · rw [if_neg hlike]
        by_cases hh : isHttp (lower q.1) = true
        · have hnil : afterAt (q.2.takeWhile inAuthority) = [] := Decidable.not_not.mp fun hne => hhttp ⟨hh, hne⟩
          rw [if_pos (Or.inl hh), hnil]
          rfl
        · rw [if_neg fun h => h.elim hh hlike]

/-- With a scheme, the host is shown where the scheme is http(s) or it looks like one. -/
theorem host_scheme (h : (parts (Text.trim u)).scheme.isSome = true) : host u =
    if (parts (Text.trim u)).http = true ∨ hostlike (parts (Text.trim u)).host = true then lower (parts (Text.trim u)).host else [] := by
  obtain ⟨s, hs⟩ := Option.isSome_iff_exists.mp h
  obtain ⟨r, hsplit, -⟩ := scheme_some hs
  have hscheme : isScheme s = true := by
    have hs' : (schemeOf (Text.trim u)).1 = some s := hs
    unfold schemeOf at hs'
    rw [hsplit] at hs'
    dsimp only at hs'
    split at hs'
    · assumption
    · cases hs'
  have hhost : (parts (Text.trim u)).host = afterAt (r.takeWhile inAuthority) := by
    show afterAt ((schemeOf (Text.trim u)).2.takeWhile inAuthority) = _
    rw [schemeOf_some hsplit hscheme]
  have hhttp : (parts (Text.trim u)).http = isHttp (lower s) := by
    unfold Parts.http
    rw [hs]
    rfl
  rw [host_eq, hsplit, hhost, hhttp]

/-- Without a `://`, where it looks like one. -/
theorem host_bare (h : splitOnce sep (Text.trim u) = none) : host u =
    if hostlike (parts (Text.trim u)).host = true then lower (parts (Text.trim u)).host else [] := by
  have hhost : (parts (Text.trim u)).host = afterAt ((Text.trim u).takeWhile inAuthority) := by
    show afterAt ((schemeOf (Text.trim u)).2.takeWhile inAuthority) = _
    rw [schemeOf_none h]
  rw [host_eq, h, hhost]

/-- URLs of one origin have one scheme, host and port. -/
theorem origin_server (h : origin u = origin v) (hne : origin u ≠ []) :
    (parts (Text.trim u)).scheme.map lower = (parts (Text.trim v)).scheme.map lower ∧
      lower (parts (Text.trim u)).host = lower (parts (Text.trim v)).host := by
  have hread : ∀ {t : List Char}, origin t ≠ [] → ∃ s, (parts (Text.trim t)).scheme.map lower = some s ∧ ':' ∉ s ∧
      origin t = s ++ sep ++ lower (parts (Text.trim t)).host := by
    intro t ht
    rw [origin_eq] at ht ⊢
    cases hs : splitOnce sep (Text.trim t) with
    | none =>
      rw [hs] at ht
      exact absurd rfl ht
    | some q =>
      rw [hs] at ht
      dsimp only at ht ⊢
      split at ht
      · rename_i hc
        have hof := schemeOf_some (s := q.1) (r := q.2) hs (isScheme_of_http hc.1)
        refine ⟨lower q.1, ?_, ?_, ?_⟩
        · show (schemeOf (Text.trim t)).1.map lower = _
          rw [hof]
          rfl
        · have h := hc.1
          unfold isHttp at h
          rw [Bool.or_eq_true, decide_eq_true_eq, decide_eq_true_eq] at h
          obtain h | h := h <;> rw [h] <;> decide
        · rw [if_pos hc]
          show _ = lower q.1 ++ sep ++ lower (afterAt ((schemeOf (Text.trim t)).2.takeWhile inAuthority))
          rw [hof]
      · exact absurd rfl ht
  obtain ⟨s, hs, hcolon, hu⟩ := hread hne
  obtain ⟨s', hs', hcolon', hv⟩ := hread (t := v) (h ▸ hne)
  have hsplit : splitOnce sep (origin u) = some (s, lower (parts (Text.trim u)).host) := by
    rw [hu]
    exact splitOnce_of_not_mem hcolon
  have hsplit' : splitOnce sep (origin v) = some (s', lower (parts (Text.trim v)).host) := by
    rw [hv]
    exact splitOnce_of_not_mem hcolon'
  rw [h, hsplit'] at hsplit
  obtain ⟨hscheme, hhost⟩ := Prod.mk.inj (Option.some.inj hsplit)
  exact ⟨by rw [hs, hs', hscheme], hhost.symm⟩

/-- An accepted URL has no spaces, and begins with its scheme. -/
theorem checkUrl_spec (h : checkUrl u = true) : (∀ c ∈ u, Text.isWhitespace c = false) ∧ ∃ s r, splitOnce sep u = some (s, r) ∧ isHttp (lower s) = true := by
  unfold checkUrl at h
  rw [Bool.not_eq_true', Bool.or_eq_false_iff] at h
  have hvisible : ∀ c ∈ u, Text.isWhitespace c = false := fun c hc => Bool.eq_false_iff.mpr (List.any_eq_false.mp h.2 c hc)
  refine ⟨hvisible, ?_⟩
  have horigin := h.1
  rw [origin_eq, Text.trim_visible hvisible] at horigin
  cases hs : splitOnce sep u with
  | none =>
    rw [hs] at horigin
    cases horigin
  | some q =>
    rw [hs] at horigin
    dsimp only at horigin
    split at horigin
    · rename_i hok
      exact ⟨q.1, q.2, rfl, hok.1⟩
    · cases horigin

/-- An accepted URL of which all is shown has no user name, no query and no fragment. -/
theorem shownUrl_whole (h : checkUrl u = true) (hself : shownUrl u = u) : withoutUserinfo u = u ∧ ∀ c ∈ u, inPath c = true := by
  obtain ⟨-, s, r, hs, hhttp⟩ := checkUrl_spec h
  obtain ⟨huser, hrest⟩ := shownUrl_self hs hself
  refine ⟨huser, fun c hc => ?_⟩
  rw [splitOnce_eq hs] at hc
  cases List.mem_append.mp hc with
  | inr hc => exact hrest c hc
  | inl hc =>
    cases List.mem_append.mp hc with
    | inr hc =>
      have hall : sep.all inPath = true := by decide
      exact List.all_eq_true.mp hall c hc
    | inl hc =>
      have hlower : (lower s).all (fun c => inPath c) = true := by
        unfold isHttp at hhttp
        rw [Bool.or_eq_true, decide_eq_true_eq, decide_eq_true_eq] at hhttp
        cases hhttp with
        | inl heq =>
          rw [heq]
          decide
        | inr heq =>
          rw [heq]
          decide
      have hown := List.all_eq_true.mp hlower c.toLower (List.mem_map_of_mem hc)
      cases toLower_eq c with
      | inl heq => exact heq ▸ hown
      | inr hupper =>
        obtain ⟨⟨hlow, -⟩, -⟩ := hupper
        unfold inPath
        rw [Bool.not_eq_true', Bool.or_eq_false_iff]
        refine ⟨?_, ?_⟩
        · refine beq_eq_false_iff_ne.mpr fun heq => ?_
          rw [heq] at hlow
          exact absurd hlow (by decide)
        · refine beq_eq_false_iff_ne.mpr fun heq => ?_
          rw [heq] at hlow
          exact absurd hlow (by decide)

/-! ## Secret URLs -/

theorem no_slash (hp : p.Fits) : '/' ∉ p.authority := by
  intro hm
  cases (hp.authority '/' hm).symm.trans (show inAuthority '/' = false by decide)

theorem mem_elim_empty {o : Option (List Char)} (ho : o.getD [] = []) (hc : c ∈ o.elim [] (d :: ·)) : c = d := by
  cases o with
  | none => cases hc
  | some q =>
    have hq : q = [] := ho
    subst hq
    exact List.mem_singleton.mp hc

/-- Nothing but a host has no `://`. -/
theorem bare_of_empty (hs : (parts u).scheme = none) (hpath : (parts u).path = []) (hquery : (parts u).query.getD [] = [])
    (hfragment : (parts u).fragment.getD [] = []) : splitOnce sep u = none := by
  have hslash : '/' ∉ u := by
    rw [← rest_of_none hs]
    unfold Parts.rest Parts.extra
    rw [hpath, List.nil_append]
    intro hm
    obtain hm | hm := List.mem_append.mp hm
    · exact no_slash (fits_parts u) hm
    · obtain hm | hm := List.mem_append.mp hm
      · exact absurd (mem_elim_empty hquery hm) (by decide)
      · exact absurd (mem_elim_empty hfragment hm) (by decide)
  exact splitOnce_none_of_not_mem hslash (by decide)

theorem host_same_scheme (hsome : (parts (Text.trim u)).scheme.isSome = true) (h : Secretly u v) :
    host v = host u ↔ SchemesAgree u v := by
  rw [host_scheme hsome, host_scheme (h.scheme.symm.trans hsome), h.host]
  unfold SchemesAgree
  have hlower : lower (parts (Text.trim u)).host = [] ↔ (parts (Text.trim u)).host = [] := List.map_eq_nil_iff
  generalize (parts (Text.trim u)).host = a at hlower
  generalize (parts (Text.trim u)).http = k
  generalize (parts (Text.trim v)).http = k'
  cases hlike : hostlike a with
  | true => simp
  | false =>
    cases k <;> cases k'
    · exact iff_of_true rfl (.inl rfl)
    · simp [hlower]
    · have hcomm : [] = lower a ↔ a = [] := eq_comm.trans hlower
      simp [hcomm]
    · exact iff_of_true rfl (.inl rfl)

/-- Of a secret URL with a scheme, or with nothing but a host, the shown host is decided by the host
    and the kind of scheme. -/
theorem host_same (hu : SecretPlain u) (h : Secretly u v) : host v = host u ↔ SchemesAgree u v := by
  cases hs : (parts (Text.trim u)).scheme with
  | some s => exact host_same_scheme (by rw [hs]; rfl) h
  | none =>
    obtain rfl | hsome | ⟨hpath, hquery, hfragment⟩ := hu
    · have hv : v = [] := h.empty.mp rfl
      subst hv
      exact iff_of_true rfl (.inl rfl)
    · rw [hs] at hsome
      cases hsome
    · have hs' : (parts (Text.trim v)).scheme = none := by
        have hsome := h.scheme
        rw [hs] at hsome
        exact Option.isNone_iff_eq_none.mp (by rw [← Option.not_isSome, ← hsome]; rfl)
      have hu' := bare_of_empty hs hpath hquery hfragment
      have hv' := bare_of_empty hs' (h.path.mp hpath) (by rw [alike_empty h.query hquery]; exact hquery)
        (by rw [alike_empty h.fragment hfragment]; exact hfragment)
      rw [host_bare hu', host_bare hv', h.host]
      refine iff_of_true rfl (.inl ?_)
      unfold Parts.http
      rw [hs, hs']

/-! ### The others show a secret -/

/-- What stands between the first `://` and the next end of an authority. -/
theorem host_shows {t a y : List Char} (ht : Text.trim t = t) (hw : splitOnce sep t = some (w, a ++ y)) (hbad : isScheme w = false)
    (ha : ∀ c ∈ a, inAuthority c = true) (hat : '@' ∉ a) (hy : y = [] ∨ ∃ c r, y = c :: r ∧ inAuthority c = false)
    (hlike : hostlike a = true) : host t = lower a ∧ schemeOf t = (none, t) := by
  refine ⟨?_, schemeOf_bad hw hbad⟩
  have hafter : afterAt ((a ++ y).takeWhile inAuthority) = a := by
    rw [(takeWhile_append_stop ha hy).1]
    unfold afterAt
    rw [rsplitOnce_none.mpr hat]
  rw [host_eq, ht, hw]
  dsimp only
  rw [hafter, if_pos (Or.inr hlike)]

/-- The one slash a path begins with makes no `://`. -/
theorem splitOnce_slash (hx : '/' ∉ x) : splitOnce sep (x ++ ['/']) = none := by
  cases hs : splitOnce sep (x ++ ['/']) with
  | none => rfl
  | some q =>
    have hcount := congrArg (List.count '/') (splitOnce_eq (s := q.1) (r := q.2) hs)
    have hsep : List.count '/' sep = 2 := by decide
    simp only [List.count_append, List.count_singleton_self, hsep, List.count_eq_zero_of_not_mem hx] at hcount
    omega

/-- A host name a path may carry. -/
structure Bait (d : List Char) : Prop where
  plain : ∀ c ∈ d, inAuthority c = true ∧ c ≠ '@' ∧ c ≠ '#' ∧ Text.isWhitespace c = false
  like : hostlike d = true
  lower : lower d = d

theorem bait_ab : Bait ['a', '.', 'b'] := ⟨forall_mem_of_all (by decide), by decide, by decide⟩
theorem bait_cd : Bait ['c', '.', 'd'] := ⟨forall_mem_of_all (by decide), by decide, by decide⟩

theorem Bait.ne_nil {d : List Char} (h : Bait d) : d ≠ [] := by
  rintro rfl
  cases h.like.symm.trans hostlike_nil

/-- The masked authority begins as the trimmed text does, if with anything. -/
theorem head_masked (hs : (parts (Text.trim u)).scheme = none) {q : Parts} (huser : q.user = (parts (Text.trim u)).user.map (mask ['x']))
    (hhost : q.host = (parts (Text.trim u)).host) {k : Char} (hk : Text.isWhitespace k = false) (z : List Char) :
    ∀ c ∈ (q.authority ++ k :: z).head?, Text.isWhitespace c = false := by
  intro c hc
  unfold Parts.authority at hc
  rw [huser, hhost] at hc
  cases hu : (parts (Text.trim u)).user with
  | some x =>
    rw [hu] at hc
    have hmask : mask ['x'] x = [] ∨ mask ['x'] x = ['x'] := by
      unfold mask
      split
      · exact .inl rfl
      · exact .inr rfl
    dsimp only [Option.map_some, Option.elim] at hc
    obtain hm | hm := hmask
    · rw [hm] at hc
      obtain rfl : '@' = c := Option.some.inj hc
      rfl
    · rw [hm] at hc
      obtain rfl : 'x' = c := Option.some.inj hc
      rfl
  | none =>
    rw [hu] at hc
    dsimp only [Option.map_none, Option.elim] at hc
    rw [List.nil_append] at hc
    cases hh : (parts (Text.trim u)).host with
    | nil =>
      rw [hh] at hc
      cases hc
      exact hk
    | cons a t =>
      rw [hh] at hc
      cases hc
      refine Text.head_trim u _ ?_
      rw [← rest_of_none hs]
      unfold Parts.rest Parts.authority
      rw [hu, hh]
      rfl

/-- A URL that differs secretly and shows the bait. -/
theorem leak (hu : u ≠ []) (hs : (parts (Text.trim u)).scheme = none) {q : Parts} (hscheme : q.scheme = none)
    (huser : q.user = (parts (Text.trim u)).user.map (mask ['x'])) (hhost : q.host = (parts (Text.trim u)).host)
    (hpath : (parts (Text.trim u)).path = [] ↔ q.path = [])
    (hpath' : (∀ c ∈ q.path, inPath c = true) ∧ (q.path = [] ∨ ∃ rest, q.path = '/' :: rest))
    (hquery : Alike (parts (Text.trim u)).query q.query) (hquery' : ∀ x ∈ q.query, '#' ∉ x)
    (hfragment : Alike (parts (Text.trim u)).fragment q.fragment) {k : Char} {z a y : List Char}
    (hk : schemeChar k = false ∧ Text.isWhitespace k = false) (hrest : q.rest = q.authority ++ k :: z ++ sep ++ (a ++ y))
    (hsplit : splitOnce sep (q.authority ++ k :: z ++ sep ++ (a ++ y)) = some (q.authority ++ k :: z, a ++ y)) (ha : Bait a)
    (hy : ∀ c ∈ y, Text.isWhitespace c = false) (hstop : y = [] ∨ ∃ c r, y = c :: r ∧ inAuthority c = false) :
    Secretly u q.text ∧ host q.text = a := by
  have hfits := fits_parts (Text.trim u)
  have htext : q.text = q.authority ++ k :: z ++ sep ++ (a ++ y) := (rest_eq_text hscheme).trans hrest
  have htrim : Text.trim q.text = q.text := by
    rw [htext]
    refine Text.trim_eq_self ?_ fun c hc => ?_
    · have hassoc : q.authority ++ k :: z ++ sep ++ (a ++ y) = q.authority ++ k :: (z ++ sep ++ (a ++ y)) := by simp
      rw [hassoc]
      exact head_masked hs huser hhost hk.2 _
    · have hne : a ++ y ≠ [] := fun h => ha.ne_nil (List.append_eq_nil_iff.mp h).1
      rw [List.getLast?_append_of_ne_nil _ hne] at hc
      obtain hm | hm := List.mem_append.mp (List.mem_of_mem_getLast? hc)
      · exact (ha.plain c hm).2.2.2
      · exact hy c hm
  have hbad : isScheme (q.authority ++ k :: z) = false :=
    isScheme_of_mem (List.mem_append_right _ (List.mem_cons_self ..)) hk.1 hk.2
  obtain ⟨hshown, hof⟩ := host_shows htrim (by rw [htext]; exact hsplit) hbad (fun c hc => (ha.plain c hc).1)
    (fun hm => (ha.plain '@' hm).2.1 rfl) hstop ha.like
  have hq : q.Fits :=
    { user := fun x hx c hc => by
        rw [huser] at hx
        obtain ⟨x', -, rfl⟩ := Option.map_eq_some_iff.mp hx
        unfold mask at hc
        split at hc
        · cases hc
        · cases List.mem_singleton.mp hc
          decide
      host := by rw [hhost]; exact hfits.host
      path := hpath'
      query := hquery'
      scheme := by
        rw [hof, rest_eq_text hscheme]
        exact Prod.ext hscheme.symm rfl }
  have hparts : parts (Text.trim q.text) = q := by rw [htrim, parts_text hq]
  refine ⟨⟨iff_of_false hu ?_, ?_, ?_, ?_, ?_, ?_, ?_⟩, hshown.trans ha.lower⟩
  · rw [htext]
    simp
  · rw [hparts, hs, hscheme]
  · rw [hparts, huser]
    exact alike_mask (List.cons_ne_nil _ _) _
  · rw [hparts, hhost]
  · rw [hparts]
    exact hpath
  · rw [hparts]
    exact hquery
  · rw [hparts]
    exact hfragment

theorem elim_plain {k : Char} (hk : Text.isWhitespace k = false) (o : Option (List Char)) :
    ∀ c ∈ (o.map (mask ['x'])).elim [] (k :: ·), Text.isWhitespace c = false := by
  cases o with
  | none => exact fun c hc => by cases hc
  | some x =>
    intro c hc
    obtain rfl | hc := List.mem_cons.mp hc
    · exact hk
    · have hc' : c ∈ mask ['x'] x := hc
      unfold mask at hc'
      split at hc'
      · cases hc'
      · cases List.mem_singleton.mp hc'
        decide

theorem elim_stop {k : Char} (hk : inAuthority k = false) (o : Option (List Char)) :
    o.elim [] (k :: ·) = [] ∨ ∃ c r, o.elim [] (k :: ·) = c :: r ∧ inAuthority c = false := by
  cases o with
  | none => exact .inl rfl
  | some x => exact .inr ⟨k, x, rfl, hk⟩

/-- The bait after a `://` in the path, the query or the fragment, whichever is not empty. -/
theorem leaks_with {a : List Char} (ha : Bait a) (hu : u ≠ []) (hs : (parts (Text.trim u)).scheme = none)
    (hne : (parts (Text.trim u)).path ≠ [] ∨ (parts (Text.trim u)).query.getD [] ≠ [] ∨ (parts (Text.trim u)).fragment.getD [] ≠ []) :
    ∃ v, Secretly u v ∧ host v = a := by
  have hx : (['x'] : List Char) ≠ [] := List.cons_ne_nil _ _
  have hsepa : sep ++ a ≠ [] := fun h => ha.ne_nil (List.append_eq_nil_iff.mp h).2
  have hhash : '#' ∉ sep ++ a := by
    intro hm
    obtain hm | hm := List.mem_append.mp hm
    · exact absurd hm (by decide)
    · exact (ha.plain '#' hm).2.2.1 rfl
  let p : Parts := { parts (Text.trim u) with user := (parts (Text.trim u)).user.map (mask ['x']) }
  have hslash : '/' ∉ p.authority := by
    intro hm
    obtain hm | hm := List.mem_append.mp hm
    · obtain hm | hm : '/' ∈ (p.user.elim [] id) ∨ '/' = '@' := by
        cases huser : p.user with
        | none => rw [huser] at hm; cases hm
        | some x =>
          rw [huser] at hm
          exact (List.mem_append.mp hm).imp_right List.mem_singleton.mp
      · cases huser : (parts (Text.trim u)).user with
        | none =>
          have hmask : p.user = none := by show Option.map _ _ = _; rw [huser]; rfl
          rw [hmask] at hm
          cases hm
        | some x =>
          have hmask : p.user = some (mask ['x'] x) := by show Option.map _ _ = _; rw [huser]; rfl
          rw [hmask] at hm
          have hm' : '/' ∈ mask ['x'] x := hm
          unfold mask at hm'
          split at hm'
          · cases hm'
          · exact absurd hm' (by decide)
      · exact absurd hm (by decide)
    · cases (((fits_parts (Text.trim u)).host '/' hm).1).symm.trans (show inAuthority '/' = false by decide)
  have hbare : splitOnce sep p.authority = none := splitOnce_none_of_not_mem hslash (by decide)
  have hsplit : ∀ {k : Char} {z r : List Char}, inPath k = false → ':' ∉ z →
      splitOnce sep (p.authority ++ k :: z ++ sep ++ r) = some (p.authority ++ k :: z, r) := by
    intro k z r hk hz
    have hassoc : p.authority ++ k :: z ++ sep ++ r = p.authority ++ k :: (z ++ sep ++ r) := by simp
    have hsep : splitOnce sep (z ++ sep ++ r) = some (z, r) := splitOnce_of_not_mem hz
    rw [hassoc, splitOnce_barrier hbare (barrier_ends hk).1, hsep]
    rfl
  by_cases hpath : (parts (Text.trim u)).path = []
  · by_cases hquery : (parts (Text.trim u)).query.getD [] = []
    · have hfragment := (hne.resolve_left (not_not.mpr hpath)).resolve_left (not_not.mpr hquery)
      have halike : Alike (parts (Text.trim u)).fragment (some (sep ++ a)) := by
        cases hf : (parts (Text.trim u)).fragment with
        | none => rw [hf] at hfragment; exact absurd rfl hfragment
        | some y => rw [hf] at hfragment; exact alike_some hfragment hsepa
      cases hq : (parts (Text.trim u)).query with
      | none =>
        obtain ⟨hv, hhost⟩ := leak (q := { p with path := [], query := none, fragment := some (sep ++ a) }) (k := '#') (z := []) (y := [])
          hu hs hs rfl rfl (iff_of_true hpath rfl) ⟨(fun c hc => by cases hc), .inl rfl⟩ (by rw [hq]; rfl) (fun x hx => by cases hx) halike
          (by decide) (by simp [Parts.rest, Parts.extra, Parts.authority]) (hsplit (by decide) List.not_mem_nil) ha
          (fun c hc => by cases hc) (.inl rfl)
        exact ⟨_, hv, hhost⟩
      | some y =>
        have hy : y = [] := by
          rw [hq] at hquery
          exact hquery
        subst hy
        obtain ⟨hv, hhost⟩ := leak (q := { p with path := [], query := some [], fragment := some (sep ++ a) }) (k := '?') (z := ['#']) (y := [])
          hu hs hs rfl rfl (iff_of_true hpath rfl) ⟨(fun c hc => by cases hc), .inl rfl⟩ (by rw [hq]; rfl)
          (fun x hx => by cases hx; exact List.not_mem_nil) halike
          (by decide) (by simp [Parts.rest, Parts.extra, Parts.authority]) (hsplit (by decide) (by decide)) ha
          (fun c hc => by cases hc) (.inl rfl)
        exact ⟨_, hv, hhost⟩
    · have halike : Alike (parts (Text.trim u)).query (some (sep ++ a)) := by
        cases hq : (parts (Text.trim u)).query with
        | none => rw [hq] at hquery; exact absurd rfl hquery
        | some y => rw [hq] at hquery; exact alike_some hquery hsepa
      obtain ⟨hv, hhost⟩ := leak (q := { p with path := [], query := some (sep ++ a), fragment := (parts (Text.trim u)).fragment.map (mask ['x']) })
        (k := '?') (z := []) (y := ((parts (Text.trim u)).fragment.map (mask ['x'])).elim [] ('#' :: ·))
        hu hs hs rfl rfl (iff_of_true hpath rfl) ⟨(fun c hc => by cases hc), .inl rfl⟩ halike
        (fun x hx => by cases hx; exact hhash) (alike_mask hx _)
        (by decide) (by simp [Parts.rest, Parts.extra, Parts.authority]) (hsplit (by decide) List.not_mem_nil) ha
        (elim_plain (by decide) _) (elim_stop (by decide) _)
      exact ⟨_, hv, hhost⟩
  · have hslashed : splitOnce sep (p.authority ++ ['/', 'x'] ++ sep ++ (a ++ (p.having (p.query.map (mask ['x'])) (p.fragment.map (mask ['x']))).extra)) =
        some (p.authority ++ ['/', 'x'], a ++ (p.having (p.query.map (mask ['x'])) (p.fragment.map (mask ['x']))).extra) := by
      have hassoc : ∀ r : List Char, p.authority ++ ['/', 'x'] ++ sep ++ r = p.authority ++ ['/'] ++ 'x' :: ([] ++ sep ++ r) := by simp
      have hsep : ∀ r : List Char, splitOnce sep ([] ++ sep ++ r) = some ([], r) := fun r => splitOnce_of_not_mem List.not_mem_nil
      rw [hassoc, splitOnce_barrier (splitOnce_slash hslash) (by decide), hsep]
      simp
    have hall : ∀ c ∈ '/' :: 'x' :: (sep ++ a), inPath c = true := by
      intro c hc
      obtain rfl | hc := List.mem_cons.mp hc
      · decide
      · obtain rfl | hc := List.mem_cons.mp hc
        · decide
        · obtain hm | hm := List.mem_append.mp hc
          · exact (forall_mem_of_all (p := fun c => inPath c = true) (l := sep) (by decide)) c hm
          · exact inPath_of_inAuthority (ha.plain c hm).1
    have hstop : ∀ c ∈ (p.having (p.query.map (mask ['x'])) (p.fragment.map (mask ['x']))).extra, Text.isWhitespace c = false := by
      intro c hc
      obtain hm | hm := List.mem_append.mp hc
      · exact elim_plain (by decide) _ c hm
      · exact elim_plain (by decide) _ c hm
    have hends : (p.having (p.query.map (mask ['x'])) (p.fragment.map (mask ['x']))).extra = [] ∨
        ∃ c r, (p.having (p.query.map (mask ['x'])) (p.fragment.map (mask ['x']))).extra = c :: r ∧ inAuthority c = false := by
      obtain hnil | ⟨c, r, heq, hc⟩ := (p.having (p.query.map (mask ['x'])) (p.fragment.map (mask ['x']))).extra_stop
      · exact .inl hnil
      · refine .inr ⟨c, r, heq, Bool.eq_false_iff.mpr fun h => ?_⟩
        cases (inPath_of_inAuthority h).symm.trans hc
    obtain ⟨hv, hhost⟩ := leak
      (q := { p.having (p.query.map (mask ['x'])) (p.fragment.map (mask ['x'])) with path := '/' :: 'x' :: (sep ++ a) }) (k := '/') (z := ['x'])
      (y := (p.having (p.query.map (mask ['x'])) (p.fragment.map (mask ['x']))).extra)
      hu hs hs rfl rfl (iff_of_false hpath (List.cons_ne_nil _ _)) ⟨hall, .inr ⟨_, rfl⟩⟩ (alike_mask hx _) (mask_hash _) (alike_mask hx _)
      (by decide) (by simp [Parts.rest, Parts.authority, Parts.extra, Parts.having]) hslashed ha hstop hends
    exact ⟨_, hv, hhost⟩

/-- The host of any other secret URL is not shown of one that differs from it secretly, with the same kind of scheme. -/
theorem host_leaks (hu : ¬ SecretPlain u) : ∃ v, Secretly u v ∧ SchemesAgree u v ∧ host v ≠ host u := by
  unfold SecretPlain at hu
  dsimp only at hu
  rw [not_or, not_or, not_and_or, not_and_or] at hu
  obtain ⟨hnil, hscheme, hne⟩ := hu
  have hs : (parts (Text.trim u)).scheme = none := by simpa using hscheme
  have hagree : ∀ {v : List Char}, Secretly u v → SchemesAgree u v := by
    intro v hv
    have hsome := hv.scheme
    rw [hs] at hsome
    have hs' : (parts (Text.trim v)).scheme = none :=
      Option.isNone_iff_eq_none.mp (by rw [← Option.not_isSome, ← hsome]; rfl)
    refine .inl ?_
    unfold Parts.http
    rw [hs, hs']
  obtain ⟨v, hv, hab⟩ := leaks_with bait_ab hnil hs hne
  obtain ⟨w, hw, hcd⟩ := leaks_with bait_cd hnil hs hne
  by_cases heq : host v = host u
  · refine ⟨w, hw, hagree hw, fun h => ?_⟩
    have hsame := hcd.symm.trans (h.trans (heq.symm.trans hab))
    exact absurd hsame (by decide)
  · exact ⟨v, hv, hagree hv, heq⟩

end OpenU60.Web.Url
