/-
  OpenU60.Web.Merge — saved forwarding secrets go only where they were given for.

  A form is posted any number of times; each answer keeps secrets for the next post (the draft), and the
  rule is read again at every post (`Kept`).
  - What an accepted destination holds under each field's key is typed in this post, or comes from a
    source of the same type (`Placed`): a token from one with the scheme, host and port of the accepted
    URL, a header value from one with exactly that URL, for a row of the same name up to case, each
    saved value for one row.
  - The fields and headers that are kept were typed into the form, for the server or URL they are kept
    for (`Given`), so a secret that is neither typed nor in the rule as it is now is not written back
    (`merge_as_given`).
-/

import Mathlib
import OpenU60.Web.Forward
import OpenU60.Web.UrlHost

namespace OpenU60.Web.Forward

open OpenU60.Lib OpenU60.SmsForward

/-- One scheme, host and port. -/
def SameServer (u v : String) : Prop :=
  (Url.parts (Text.trim u.toList)).scheme.map Url.lower = (Url.parts (Text.trim v.toList)).scheme.map Url.lower ∧
    Url.lower (Url.parts (Text.trim u.toList)).host = Url.lower (Url.parts (Text.trim v.toList)).host

/-- Where the header value of a row comes from (the source and the place there, if it is a saved one),
    and the row. -/
abbrev Sent := Option (Nat × Nat) × (String × String)

/-- A row as posted, and as sent to the URL. -/
def Carries (input : Input) (sources : List Secrets) (url : String) (typed : String × String) (sent : Sent) : Prop :=
  sent.2.1 = typed.1 ∧
    match sent.1 with
    | none => typed.2 ≠ "" ∧ sent.2.2 = typed.2
    | some (si, hi) => typed.2 = "" ∧ ∃ s h, sources[si]? = some s ∧ s.dest = input.dest.key ∧ s.url = url ∧
        s.headers[hi]? = some h ∧ h.2 = sent.2.2 ∧ Secrets.sameName h.1 typed.1 = true

/-- What an accepted destination may hold under a field's key. -/
def Placed (input : Input) (sources : List Secrets) (f : Field) (v : Json) : Prop :=
  let url := resolvedUrl input sources
  match f.kind with
  | .secret => ∃ text, v = .str text ∧ (text = "" ∨ text = input.value f.name ∨ ∃ s ∈ sources, s.dest = input.dest.key ∧
      s.get f.name = some text ∧ s.server = resolvedServer input sources ∧ (input.dest.key = "telegram" ∨ SameServer s.url url))
  | .secretUrl => v = .str url ∧ (url = input.value f.name ∨ ∃ s ∈ sources, s.dest = input.dest.key ∧ s.get f.name = some url)
  | .url => v = .str url ∧ (url = input.value f.name ∨ ∃ s ∈ sources, s.dest = input.dest.key ∧ s.saved = true ∧ s.url = url ∧
      shownUrl url = input.value f.name)
  | .headers => ∃ rows : List Sent, v = .arr (rows.map fun row => headerJson ⟨row.2.1, row.2.2⟩) ∧
      List.Forall₂ (Carries input sources url) input.headers rows ∧ (rows.filterMap (·.1)).Nodup
  | .check | .method | .text | .tel => (f.key, v) ∈ (fieldPart input [] "" "" f).wire

/-! ## The destination types -/

theorem url_last {d : Dest} (hd : d ∈ dests) {f : Field} (hf : f ∈ d.fields) (hkind : f.kind = .url ∨ f.kind = .secretUrl) :
    (d.fields.filter fun f => f.kind = .url ∨ f.kind = .secretUrl).getLast? = some f := by
  have hall : ∀ d ∈ dests, ∀ f ∈ d.fields, f.kind = .url ∨ f.kind = .secretUrl →
      (d.fields.filter fun f => f.kind = .url ∨ f.kind = .secretUrl).getLast? = some f := by decide
  exact hall d hd f hf hkind

theorem headers_webhook {d : Dest} (hd : d ∈ dests) {f : Field} (hf : f ∈ d.fields) (hkind : f.kind = .headers) : d.key = "webhook" := by
  have hall : ∀ d ∈ dests, ∀ f ∈ d.fields, f.kind = .headers → d.key = "webhook" := by decide
  exact hall d hd f hf hkind

/-- A type with a token has a server address, but for Telegram. -/
theorem secret_server {d : Dest} (hd : d ∈ dests) {f : Field} (hf : f ∈ d.fields) (hkind : f.kind = .secret) (hkey : d.key ≠ "telegram") :
    ∃ u ∈ d.fields, u.kind = .url := by
  have hall : ∀ d ∈ dests, ∀ f ∈ d.fields, f.kind = .secret → d.key ≠ "telegram" → ∃ u ∈ d.fields, u.kind = .url := by decide
  exact hall d hd f hf hkind hkey

theorem key_inj {d : Dest} (hd : d ∈ dests) {f g : Field} (hf : f ∈ d.fields) (hg : g ∈ d.fields) (h : f.key = g.key) : f = g := by
  have hall : ∀ d ∈ dests, ∀ f ∈ d.fields, ∀ g ∈ d.fields, f.key = g.key → f = g := by decide
  exact hall d hd f hf g hg h

theorem key_ne_type {d : Dest} (hd : d ∈ dests) {f : Field} (hf : f ∈ d.fields) : f.key ≠ "type" := by
  have hall : ∀ d ∈ dests, ∀ f ∈ d.fields, f.key ≠ "type" := by decide
  exact hall d hd f hf

theorem name_inj {d e : Dest} (hd : d ∈ dests) (he : e ∈ dests) {f g : Field} (hf : f ∈ d.fields) (hg : g ∈ e.fields) (h : f.name = g.name) :
    f = g := by
  have hall : ∀ d ∈ dests, ∀ e ∈ dests, ∀ f ∈ d.fields, ∀ g ∈ e.fields, f.name = g.name → f = g := by decide
  exact hall d hd e he f hf g hg h

/-! ## Choosing -/

section

variable (input : Input) (sources : List Secrets)

theorem chosenUrl_secret {f : Field} (hkind : f.kind = .secretUrl) {url : String} {saved : Bool} (h : chosenUrl input sources f = (url, saved)) :
    url = "" ∨ (url = input.value f.name ∧ saved = false) ∨
      ∃ s ∈ sources, s.dest = input.dest.key ∧ s.get f.name = some url ∧ s.saved = saved := by
  unfold chosenUrl at h
  rw [hkind] at h
  dsimp only at h
  split at h
  · cases hfind : (sameType input sources).findSome? fun s => (s.get f.name).map (·, s.saved) with
    | none =>
      rw [hfind] at h
      exact .inl (Prod.mk.inj h).1.symm
    | some found =>
      rw [hfind] at h
      obtain ⟨s, hs, hget⟩ := List.exists_of_findSome?_eq_some hfind
      obtain ⟨v, hv, rfl⟩ := Option.map_eq_some_iff.mp hget
      obtain ⟨rfl, rfl⟩ := Prod.mk.inj h
      obtain ⟨hs, hsame⟩ := List.mem_filter.mp hs
      exact .inr (.inr ⟨s, hs, by simpa using hsame, hv, rfl⟩)
  · obtain ⟨rfl, rfl⟩ := Prod.mk.inj h
    exact .inr (.inl ⟨rfl, rfl⟩)

theorem chosenUrl_server {f : Field} (hkind : f.kind = .url) {url : String} {saved : Bool} (h : chosenUrl input sources f = (url, saved)) :
    url = input.value f.name ∨ ∃ s ∈ sources, s.dest = input.dest.key ∧ s.saved = true ∧ s.url = url ∧ shownUrl url = input.value f.name := by
  unfold chosenUrl at h
  rw [hkind] at h
  dsimp only at h
  split at h
  · rename_i s hfind
    obtain ⟨rfl, -⟩ := Prod.mk.inj h
    obtain ⟨hs, hsame⟩ := List.mem_filter.mp (List.mem_of_find?_eq_some hfind)
    have hpred := List.find?_some hfind
    simp only [Bool.and_eq_true, decide_eq_true_eq] at hpred
    exact .inr ⟨s, hs, by simpa using hsame, hpred.1.1, rfl, hpred.2⟩
  · exact .inl (Prod.mk.inj h).1.symm

theorem chosenSecret_cases {server : String} {f : Field} {v : String} {saved : Bool} {err : Option String}
    (h : chosenSecret input sources server f = (v, saved, err)) :
    v = "" ∨ (v = input.value f.name ∧ saved = false) ∨
      ∃ s ∈ sources, s.dest = input.dest.key ∧ s.server = server ∧ s.get f.name = some v ∧ s.saved = saved := by
  unfold chosenSecret at h
  dsimp only at h
  split at h
  · obtain ⟨rfl, hrest⟩ := Prod.mk.inj h
    exact .inr (.inl ⟨rfl, (Prod.mk.inj hrest).1.symm⟩)
  · split at h
    · exact .inl (Prod.mk.inj h).1.symm
    · split at h
      · rename_i s hfind
        obtain ⟨rfl, hrest⟩ := Prod.mk.inj h
        obtain ⟨hs, hsame⟩ := List.mem_filter.mp (List.mem_of_find?_eq_some hfind)
        have hpred := List.find?_some hfind
        simp only [Bool.and_eq_true, decide_eq_true_eq] at hpred
        obtain ⟨v, hv⟩ := Option.isSome_iff_exists.mp hpred.2
        exact .inr (.inr ⟨s, hs, by simpa using hsame, hpred.1, by rw [hv]; rfl, (Prod.mk.inj hrest).1⟩)
      · split at h
        · exact .inl (Prod.mk.inj h).1.symm
        · split at h <;> exact .inl (Prod.mk.inj h).1.symm

/-! ## Header rows -/

/-- A saved value found: its place is free and its source and name fit. -/
theorem savedValue_some {url name : String} {taken : List (Nat × Nat)} {place : Nat × Nat} {v : String} {saved : Bool} :
    ∀ {rest : List Secrets} {si : Nat}, savedValue url name taken si rest = some (place, v, saved) →
      place ∉ taken ∧ ∃ s h, si ≤ place.1 ∧ rest[place.1 - si]? = some s ∧ s.dest = "webhook" ∧ s.url = url ∧ s.saved = saved ∧
        s.headers[place.2]? = some h ∧ h.2 = v ∧ Secrets.sameName h.1 name = true := by
  intro rest
  induction rest with
  | nil => intro si h; cases h
  | cons s rest ih =>
    intro si h
    rw [savedValue] at h
    split at h
    · rename_i found hfind
      split at hfind
      · rename_i hsource
        obtain ⟨rfl, hv⟩ := Prod.mk.inj (Option.some.inj h)
        obtain ⟨rfl, rfl⟩ := Prod.mk.inj hv
        have hpred := List.find?_some hfind
        have hmem := List.mem_of_find?_eq_some hfind
        simp only [Bool.and_eq_true, Bool.not_eq_true', List.contains_eq_mem, decide_eq_false_iff_not] at hpred
        refine ⟨hpred.1, s, found.1, Nat.le_refl _, by simp, hsource.1, hsource.2, rfl, ?_, rfl, hpred.2⟩
        exact List.mem_zipIdx_iff_getElem?.mp hmem
      · cases hfind
    · obtain ⟨hfree, t, h, hle, hget, hrest⟩ := ih h
      refine ⟨hfree, t, h, by omega, ?_, hrest⟩
      have hsub : place.1 - si = place.1 - (si + 1) + 1 := by omega
      rw [hsub, List.getElem?_cons_succ]
      exact hget

/-- What a row without errors sends and takes. -/
theorem headerRow_sends {url : String} {taken : List (Nat × Nat)} {i : Nat} {name value : String} {row : Row}
    (h : headerRow sources url taken i name value = row) (hok : row.errors = []) :
    ∃ v, row.sent = [(name, v)] ∧ (∀ place ∈ row.takes, place ∉ taken) ∧
      match row.takes with
      | none => value ≠ "" ∧ v = value ∧ row.kept = [(name, v)]
      | some (si, hi) => value = "" ∧ ∃ s h, sources[si]? = some s ∧ s.dest = "webhook" ∧ s.url = url ∧ s.headers[hi]? = some h ∧ h.2 = v ∧
          Secrets.sameName h.1 name = true ∧ row.kept = if s.saved then [] else [(name, v)] := by
  unfold headerRow at h
  dsimp only at h
  split at h
  · rw [← h] at hok; cases hok
  · split at h
    · rw [← h] at hok; cases hok
    · split at h
      · rw [← h] at hok; cases hok
      · split at h
        · rename_i hvalue
          split at h
          · subst h
            exact ⟨value, rfl, nofun, hvalue, rfl, rfl⟩
          · rw [← h] at hok; cases hok
        · rename_i hvalue
          split at h
          · rename_i place v saved hsaved
            obtain ⟨hfree, s, e, -, hget, hdest, hurl, hsave, hheader, hv, hname⟩ := savedValue_some hsaved
            split at h
            · subst h
              refine ⟨v, rfl, ?_, not_not.mp hvalue, s, e, by simpa using hget, hdest, hurl, hheader, hv, hname, by rw [hsave]⟩
              rintro place' ⟨⟩
              exact hfree
            · rw [← h] at hok; cases hok
          · split at h <;> (rw [← h] at hok; cases hok)

theorem headerRow_kept_or (url : String) (taken : List (Nat × Nat)) (i : Nat) (name value : String) :
    (headerRow sources url taken i name value).errors = [] ∨ (headerRow sources url taken i name value).kept = [] := by
  unfold headerRow
  dsimp only
  split
  · exact .inr rfl
  · split
    · exact .inr rfl
    · split
      · exact .inr rfl
      · split
        · split
          · exact .inl rfl
          · exact .inr rfl
        · split
          · split
            · exact .inl rfl
            · exact .inr rfl
          · split <;> exact .inr rfl

/-- What a row keeps was typed into it or is a draft's, of this URL. -/
theorem headerRow_kept {url : String} {taken : List (Nat × Nat)} {i : Nat} {name value : String} {h : String × String}
    (hkept : h ∈ (headerRow sources url taken i name value).kept) :
    h.1 = name ∧ (h.2 = value ∨ ∃ s ∈ sources, s.dest = "webhook" ∧ s.url = url ∧ s.saved = false ∧
      ∃ e ∈ s.headers, e.2 = h.2 ∧ Secrets.sameName e.1 name = true) := by
  obtain hok | hnone := headerRow_kept_or sources url taken i name value
  · obtain ⟨v, -, -, hrow⟩ := headerRow_sends sources rfl hok
    split at hrow
    · obtain ⟨-, rfl, hkeep⟩ := hrow
      rw [hkeep, List.mem_singleton] at hkept
      rw [hkept]
      exact ⟨rfl, .inl rfl⟩
    · obtain ⟨-, s, e, hs, hdest, hurl, he, hv, hname, hkeep⟩ := hrow
      rw [hkeep] at hkept
      cases hsaved : s.saved with
      | true => simp [hsaved] at hkept
      | false =>
        rw [hsaved, if_neg (by decide), List.mem_singleton] at hkept
        rw [hkept]
        exact ⟨rfl, .inr ⟨s, List.mem_of_getElem? hs, hdest, hurl, hsaved, e, List.mem_of_getElem? he, hv, hname⟩⟩
  · rw [hnone] at hkept
    cases hkept

/-- Accepted rows: one is sent for each, and no place is taken twice. -/
theorem headerRows_sends (hkey : input.dest.key = "webhook") {url : String} :
    ∀ {typed : List (String × String)} {taken : List (Nat × Nat)} {i : Nat}, (∀ row ∈ headerRows sources url taken i typed, row.errors = []) →
      ∃ sent : List Sent, (headerRows sources url taken i typed).flatMap (·.sent) = sent.map (·.2) ∧
        List.Forall₂ (Carries input sources url) typed sent ∧ (sent.filterMap (·.1)).Nodup ∧ ∀ place ∈ sent.filterMap (·.1), place ∉ taken := by
  intro typed
  induction typed with
  | nil => intro taken i _; exact ⟨[], rfl, .nil, .nil, nofun⟩
  | cons pair typed ih =>
    intro taken i hok
    obtain ⟨name, value⟩ := pair
    rw [headerRows] at hok ⊢
    generalize hrow : headerRow sources url taken i name value = row at hok ⊢
    obtain ⟨v, hsent, hfree, htakes⟩ := headerRow_sends sources hrow (hok row List.mem_cons_self)
    obtain ⟨sent, hall, hcarries, hnodup, hapart⟩ := ih (i := i + 1) fun r hr => hok r (List.mem_cons_of_mem _ hr)
    have hcarry : Carries input sources url (name, value) (row.takes, (name, v)) := by
      refine ⟨rfl, ?_⟩
      split at htakes
      · rename_i htake
        simp only [htake]
        exact ⟨htakes.1, htakes.2.1⟩
      · rename_i si hi htake
        obtain ⟨hvalue, s, h, hs, hdest, hurl, hh, hv, hname, -⟩ := htakes
        simp only [htake]
        exact ⟨hvalue, s, h, hs, hdest.trans hkey.symm, hurl, hh, hv, hname⟩
    refine ⟨(row.takes, (name, v)) :: sent, ?_, .cons hcarry hcarries, ?_, ?_⟩
    · rw [List.flatMap_cons, hsent, hall]
      rfl
    · cases htake : row.takes with
      | none => simpa [List.filterMap_cons, htake] using hnodup
      | some place =>
        rw [htake] at hapart
        show (place :: sent.filterMap (·.1)).Nodup
        exact List.nodup_cons.mpr ⟨fun hmem => hapart place hmem (by simp), hnodup⟩
    · intro place hplace
      cases htake : row.takes with
      | none =>
        rw [htake] at hapart hplace
        exact hapart place (by simpa using hplace)
      | some own =>
        rw [htake] at hapart hplace
        rcases List.mem_cons.mp (show place ∈ own :: sent.filterMap (·.1) from hplace) with rfl | hplace
        · exact hfree place htake
        · intro hmem
          exact hapart place hplace (List.mem_append_right _ hmem)

theorem headerRows_kept {url : String} {h : String × String} :
    ∀ {typed : List (String × String)} {taken : List (Nat × Nat)} {i : Nat}, h ∈ (headerRows sources url taken i typed).flatMap (·.kept) →
      ∃ pair ∈ typed, h.1 = pair.1 ∧ (h.2 = pair.2 ∨ ∃ s ∈ sources, s.dest = "webhook" ∧ s.url = url ∧ s.saved = false ∧
        ∃ e ∈ s.headers, e.2 = h.2 ∧ Secrets.sameName e.1 pair.1 = true) := by
  intro typed
  induction typed with
  | nil => intro taken i hkept; cases hkept
  | cons pair typed ih =>
    intro taken i hkept
    rw [headerRows] at hkept
    rw [List.flatMap_cons] at hkept
    rcases List.mem_append.mp hkept with hkept | hkept
    · exact ⟨pair, List.mem_cons_self, headerRow_kept sources hkept⟩
    · obtain ⟨pair', hpair', hrest⟩ := ih hkept
      exact ⟨pair', List.mem_cons_of_mem _ hpair', hrest⟩

/-! ## Accepting -/

def resolveParts : List Part :=
  (urlFields input).map (urlPart input sources) ++
    input.dest.fields.map (fieldPart input sources (resolvedServer input sources) (resolvedUrl input sources))

/-- Where a source's token goes. -/
def Secrets.Addressed (s : Secrets) : Prop := s.server = if s.dest = "telegram" then telegramServer else origin s.url

theorem of_addressed (d : Json) : (Secrets.of d).Addressed := by
  unfold Secrets.of Secrets.Addressed
  split
  · decide
  · rfl

variable {input sources} {wire : List (String × Json)}

theorem accepted (h : (resolve input sources).dest = .ok wire) :
    (∀ part ∈ resolveParts input sources, part.errors = []) ∧
      wire = ("type", .str input.dest.key) :: (resolveParts input sources).flatMap (·.wire) := by
  have hresolve : (resolve input sources).dest = if (resolveParts input sources).flatMap (·.errors) = [] then
      .ok (("type", .str input.dest.key) :: (resolveParts input sources).flatMap (·.wire)) else .error ((resolveParts input sources).flatMap (·.errors)) := rfl
  rw [hresolve] at h
  split at h
  · rename_i hnone
    exact ⟨fun part hpart => List.flatMap_eq_nil_iff.mp hnone part hpart, (Except.ok.inj h).symm⟩
  · cases h

theorem resolvedUrl_eq {f : Field} (hf : f ∈ input.dest.fields) (hkind : f.kind = .url ∨ f.kind = .secretUrl) :
    resolvedUrl input sources = (chosenUrl input sources f).1 := by
  unfold resolvedUrl urlFields
  rw [url_last input.known hf hkind]
  rfl

/-- The URL of an accepted destination passed its check. -/
theorem accepted_url {f : Field} (h : (urlPart input sources f).errors = []) (hf : f ∈ input.dest.fields) (hkind : f.kind = .url ∨ f.kind = .secretUrl) :
    resolvedUrl input sources ≠ "" ∧ checkUrl (resolvedUrl input sources) = true := by
  rw [resolvedUrl_eq hf hkind]
  have herr : urlError input f (chosenUrl input sources f).1 (chosenUrl input sources f).2 = none := by
    simpa [urlPart] using h
  unfold urlError at herr
  split at herr
  · cases herr
  · rename_i hne
    split at herr
    · cases herr
    · split at herr
      · cases herr
      · rename_i hcheck
        exact ⟨hne, by simpa using hcheck⟩

theorem sameServer_of_origin {u v : String} (h : origin u = origin v) (hv : checkUrl v = true) : SameServer u v := by
  have hlist : Url.origin u.toList = Url.origin v.toList := by
    simpa [origin, onText, String.ofList_inj] using h
  apply Url.origin_server hlist
  intro hnil
  rw [hlist] at hnil
  simp [checkUrl, Url.checkUrl, hnil] at hv

theorem placed_url {f : Field} (hf : f ∈ input.dest.fields) (hkind : f.kind = .url ∨ f.kind = .secretUrl) (hok : (urlPart input sources f).errors = [])
    {e : String × Json} (he : e ∈ (urlPart input sources f).wire) : e.1 = f.key ∧ Placed input sources f e.2 := by
  have hurl : resolvedUrl input sources = (chosenUrl input sources f).1 := resolvedUrl_eq hf hkind
  have hne := (accepted_url hok hf hkind).1
  have he : e = (f.key, .str (resolvedUrl input sources)) := by
    rw [hurl]
    simpa [urlPart] using he
  rw [he]
  refine ⟨rfl, ?_⟩
  unfold Placed
  have hchosen : chosenUrl input sources f = (resolvedUrl input sources, (chosenUrl input sources f).2) := by rw [hurl]
  rcases hkind with hkind | hkind
  · rw [hkind]
    exact ⟨rfl, chosenUrl_server input sources hkind hchosen⟩
  · rw [hkind]
    refine ⟨rfl, ?_⟩
    rcases chosenUrl_secret input sources hkind hchosen with hempty | ⟨htyped, -⟩ | ⟨s, hs, hdest, hget, -⟩
    · exact absurd hempty hne
    · exact .inl htyped
    · exact .inr ⟨s, hs, hdest, hget⟩

theorem placed_secret {f : Field} (hf : f ∈ input.dest.fields) (hkind : f.kind = .secret) (hsources : ∀ s ∈ sources, s.Addressed)
    (hok : ∀ part ∈ resolveParts input sources, part.errors = []) {e : String × Json}
    (he : e ∈ (secretPart input sources (resolvedServer input sources) f).wire) : e.1 = f.key ∧ Placed input sources f e.2 := by
  unfold Placed
  rw [hkind]
  dsimp only
  generalize hchosen : chosenSecret input sources (resolvedServer input sources) f = chosen at he
  obtain ⟨v, saved, err⟩ := chosen
  have he : e = (f.key, .str v) := by
    simp only [secretPart, hchosen] at he
    split at he
    · exact List.mem_singleton.mp he
    · rename_i hempty
      split at he
      · rw [List.mem_singleton.mp he, not_not.mp hempty]
      · cases he
  rw [he]
  refine ⟨rfl, v, rfl, ?_⟩
  rcases chosenSecret_cases input sources hchosen with hempty | ⟨htyped, -⟩ | ⟨s, hs, hdest, hserver, hget, -⟩
  · exact .inl hempty
  · exact .inr (.inl htyped)
  · refine .inr (.inr ⟨s, hs, hdest, hget, hserver, ?_⟩)
    by_cases hkey : input.dest.key = "telegram"
    · exact .inl hkey
    · obtain ⟨u, hu, hukind⟩ := secret_server input.known hf hkind hkey
      have hpart : urlPart input sources u ∈ resolveParts input sources := by
        refine List.mem_append_left _ (List.mem_map_of_mem (List.mem_filter.mpr ⟨hu, ?_⟩))
        simp [hukind]
      have hcheck := (accepted_url (hok _ hpart) hu (.inl hukind)).2
      have haddressed := hsources s hs
      unfold Secrets.Addressed at haddressed
      rw [hserver, hdest, if_neg hkey, resolvedServer, if_neg hkey] at haddressed
      exact .inr (sameServer_of_origin haddressed.symm hcheck)

theorem placed_headers {f : Field} (hf : f ∈ input.dest.fields) (hkind : f.kind = .headers)
    (hok : (headersPart input sources (resolvedUrl input sources) f).errors = []) {e : String × Json}
    (he : e ∈ (headersPart input sources (resolvedUrl input sources) f).wire) : e.1 = f.key ∧ Placed input sources f e.2 := by
  unfold Placed
  rw [hkind]
  obtain ⟨sent, hsent, hcarries, hnodup, -⟩ := headerRows_sends input sources (headers_webhook input.known hf hkind)
    (fun row hrow => List.flatMap_eq_nil_iff.mp hok row hrow)
  simp only [headersPart, List.mem_singleton] at he
  rw [he]
  refine ⟨rfl, sent, ?_, hcarries, hnodup⟩
  dsimp only
  rw [hsent, List.map_map]
  rfl

/-- Nothing else than the type and what the fields may hold. -/
theorem accepted_placed (hsources : ∀ s ∈ sources, s.Addressed) (h : (resolve input sources).dest = .ok wire) :
    ∀ e ∈ wire, e = ("type", .str input.dest.key) ∨ ∃ f ∈ input.dest.fields, e.1 = f.key ∧ Placed input sources f e.2 := by
  obtain ⟨hok, rfl⟩ := accepted h
  intro e he
  rcases List.mem_cons.mp he with rfl | he
  · exact .inl rfl
  · obtain ⟨part, hpart, he⟩ := List.mem_flatMap.mp he
    have hpartok := hok part hpart
    rcases List.mem_append.mp hpart with hpart | hpart
    · obtain ⟨f, hf, rfl⟩ := List.mem_map.mp hpart
      obtain ⟨hf, hkind⟩ := List.mem_filter.mp hf
      exact .inr ⟨f, hf, placed_url hf (by simpa using hkind) hpartok he⟩
    · obtain ⟨f, hf, rfl⟩ := List.mem_map.mp hpart
      refine .inr ⟨f, hf, ?_⟩
      unfold fieldPart at he hpartok
      cases hkind : f.kind with
      | url => rw [hkind] at he; cases he
      | secretUrl => rw [hkind] at he; cases he
      | secret =>
        rw [hkind] at he
        exact placed_secret hf hkind hsources hok he
      | headers =>
        rw [hkind] at he hpartok
        exact placed_headers hf hkind hpartok he
      | text | tel | check | method =>
        rw [hkind] at he
        have hkey : e.1 = f.key := by rw [List.mem_singleton.mp he]
        refine ⟨hkey, ?_⟩
        unfold Placed
        rw [hkind]
        dsimp only
        rw [← hkey, fieldPart, hkind]
        exact he

end

/-! ## The posts of a form -/

/-- A post and the sources it was resolved with. -/
abbrev Posted := Input × List Secrets

/-- The draft, then the rule as it is stored when the form is posted. -/
def sourcesOf (draft : Option Secrets) (rule : Option Json) : List Secrets := draft.toList ++ (rule.map Secrets.of).toList

/-- What an answer's form keeps after these posts, the last one first. -/
inductive Kept : List Posted → Secrets → Prop
  | post (input : Input) (draft : Option Secrets) (rule : Option Json) (earlier : List Posted) : (∀ d ∈ draft, Kept earlier d) →
      Kept ((input, sourcesOf draft rule) :: earlier) (resolve input (sourcesOf draft rule)).secrets

/-- A field's secret was typed in one of the posts, a token for the server. -/
def TypedField (posts : List Posted) (dest server : String) (e : String × String) : Prop :=
  ∃ p ∈ posts, p.1.dest.key = dest ∧ p.1.value e.1 = e.2 ∧
    ∀ f ∈ p.1.dest.fields, f.name = e.1 → f.kind = .secret → resolvedServer p.1 p.2 = server

/-- A header's value was typed in one of the posts, in a row of that name, for the URL. -/
def TypedHeader (posts : List Posted) (dest url : String) (h : String × String) : Prop :=
  ∃ p ∈ posts, p.1.dest.key = dest ∧ resolvedUrl p.1 p.2 = url ∧ ∃ row ∈ p.1.headers, row.2 = h.2 ∧ Secrets.sameName row.1 h.1 = true

/-- Secrets that were typed into the form. -/
structure Given (posts : List Posted) (d : Secrets) : Prop where
  unsaved : d.saved = false
  addressed : d.Addressed
  fields : ∀ e ∈ d.fields, TypedField posts d.dest d.server e
  headers : ∀ h ∈ d.headers, TypedHeader posts d.dest d.url h

theorem sameName_trans {a b c : String} (h : Secrets.sameName a b = true) (h' : Secrets.sameName b c = true) : Secrets.sameName a c = true := by
  simp only [Secrets.sameName, decide_eq_true_eq] at *
  exact h.trans h'

theorem sameName_refl (a : String) : Secrets.sameName a a = true := by simp [Secrets.sameName]

theorem resolve_addressed (input : Input) (sources : List Secrets) : (resolve input sources).secrets.Addressed := rfl

/-- A source that is not the rule's is the draft. -/
theorem unsaved_source {draft : Option Secrets} {rule : Option Json} {s : Secrets} (hs : s ∈ sourcesOf draft rule) (hsaved : s.saved = false) :
    s ∈ draft ∨ s.dest = "" := by
  rcases List.mem_append.mp hs with hs | hs
  · exact .inl (Option.mem_toList.mp hs)
  · obtain ⟨d, -, rfl⟩ := Option.map_eq_some_iff.mp (Option.mem_toList.mp hs)
    unfold Secrets.of at hsaved ⊢
    split
    · exact .inr rfl
    · rename_i hspec
      rw [hspec] at hsaved
      cases hsaved

theorem dest_ne_empty {d : Dest} (hd : d ∈ dests) : d.key ≠ "" := by
  have hall : ∀ d ∈ dests, d.key ≠ "" := by decide
  exact hall d hd

theorem get_mem {s : Secrets} {name v : String} (h : s.get name = some v) : (name, v) ∈ s.fields := by
  obtain ⟨e, he, rfl⟩ := Option.map_eq_some_iff.mp h
  have hname : e.1 = name := by simpa using List.find?_some he
  rw [← hname]
  exact List.mem_of_find?_eq_some he

section

variable {input : Input} {draft : Option Secrets} {rule : Option Json} {earlier : List Posted}

/-- Of this type and not the rule's: the draft, and what it has was typed. -/
theorem given_source (hdraft : ∀ d ∈ draft, Given earlier d) {s : Secrets} (hs : s ∈ sourcesOf draft rule) (hdest : s.dest = input.dest.key)
    (hsaved : s.saved = false) : Given earlier s := by
  rcases unsaved_source hs hsaved with hs | hempty
  · exact hdraft s hs
  · exact absurd (hdest.symm.trans hempty) (dest_ne_empty input.known)

theorem typedField_post {f : Field} {v server : String} (htyped : v = input.value f.name)
    (hserver : f.kind = .secret → resolvedServer input (sourcesOf draft rule) = server) (hf : f ∈ input.dest.fields) :
    TypedField ((input, sourcesOf draft rule) :: earlier) input.dest.key server (f.name, v) := by
  refine ⟨_, List.mem_cons_self, rfl, htyped.symm, ?_⟩
  intro g hg hname hkind
  rw [name_inj input.known input.known hg hf hname] at hkind
  exact hserver hkind

theorem TypedField.mono {dest server : String} {e : String × String} {p : Posted} (h : TypedField earlier dest server e) :
    TypedField (p :: earlier) dest server e := by
  obtain ⟨q, hq, hrest⟩ := h
  exact ⟨q, List.mem_cons_of_mem _ hq, hrest⟩

/-- The URL that is kept. -/
theorem urlPart_given (hdraft : ∀ d ∈ draft, Given earlier d) {f : Field} (hf : f ∈ input.dest.fields) {e : String × String}
    (he : e ∈ (urlPart input (sourcesOf draft rule) f).fields) :
    TypedField ((input, sourcesOf draft rule) :: earlier) input.dest.key (resolvedServer input (sourcesOf draft rule)) e := by
  generalize hchosen : chosenUrl input (sourcesOf draft rule) f = chosen at he
  obtain ⟨url, saved⟩ := chosen
  simp only [urlPart, hchosen] at he
  split at he
  · rename_i hkeep
    obtain ⟨herr, hkind, rfl⟩ := hkeep
    rw [List.mem_singleton.mp he]
    rcases chosenUrl_secret input _ hkind hchosen with rfl | ⟨htyped, -⟩ | ⟨s, hs, hdest, hget, hsaved⟩
    · cases herr
    · exact typedField_post htyped (fun _ => rfl) hf
    · obtain ⟨p, hp, hpdest, hvalue, -⟩ := (given_source hdraft hs hdest hsaved).fields _ (get_mem hget)
      refine ⟨p, List.mem_cons_of_mem _ hp, hpdest.trans hdest, hvalue, ?_⟩
      intro g hg hname hgkind
      rw [name_inj p.1.known input.known hg hf hname, hkind] at hgkind
      cases hgkind
  · cases he

theorem secretPart_given (hdraft : ∀ d ∈ draft, Given earlier d) {f : Field} (hf : f ∈ input.dest.fields) {e : String × String}
    (he : e ∈ (secretPart input (sourcesOf draft rule) (resolvedServer input (sourcesOf draft rule)) f).fields) :
    TypedField ((input, sourcesOf draft rule) :: earlier) input.dest.key (resolvedServer input (sourcesOf draft rule)) e := by
  generalize hchosen : chosenSecret input (sourcesOf draft rule) (resolvedServer input (sourcesOf draft rule)) f = chosen at he
  obtain ⟨v, saved, err⟩ := chosen
  simp only [secretPart, hchosen] at he
  split at he
  · rename_i hkeep
    obtain ⟨-, hne, rfl⟩ := hkeep
    rw [List.mem_singleton.mp he]
    rcases chosenSecret_cases input _ hchosen with rfl | ⟨htyped, -⟩ | ⟨s, hs, hdest, hserver, hget, hsaved⟩
    · exact absurd rfl hne
    · exact typedField_post htyped (fun _ => rfl) hf
    · rw [← hdest, ← hserver]
      exact ((given_source hdraft hs hdest hsaved).fields _ (get_mem hget)).mono
  · cases he

theorem headersPart_given (hdraft : ∀ d ∈ draft, Given earlier d) {f : Field} (hf : f ∈ input.dest.fields) (hkind : f.kind = .headers) {h : String × String}
    (hh : h ∈ (headersPart input (sourcesOf draft rule) (resolvedUrl input (sourcesOf draft rule)) f).headers) :
    TypedHeader ((input, sourcesOf draft rule) :: earlier) input.dest.key (resolvedUrl input (sourcesOf draft rule)) h := by
  have hkey := headers_webhook input.known hf hkind
  obtain ⟨pair, hpair, hname, htyped | ⟨s, hs, hdest, hurl, hsaved, entry, hentry, hv, hsame⟩⟩ := headerRows_kept _ hh
  · exact ⟨_, List.mem_cons_self, rfl, rfl, pair, hpair, htyped.symm, by rw [hname]; exact sameName_refl _⟩
  · have hgiven : Given earlier s := given_source hdraft hs (hdest.trans hkey.symm) hsaved
    obtain ⟨p, hp, hpdest, hpurl, row, hrow, hrowv, hrowname⟩ := hgiven.headers entry hentry
    refine ⟨p, List.mem_cons_of_mem _ hp, hpdest.trans (hdest.trans hkey.symm), hpurl.trans hurl, row, hrow, hrowv.trans hv, ?_⟩
    rw [hname]
    exact sameName_trans hrowname hsame

end

/-- What is kept was typed into the form. -/
theorem Kept.given {posts : List Posted} {d : Secrets} (h : Kept posts d) : Given posts d := by
  induction h with
  | post input draft rule earlier _ ih =>
    have hnone : ∀ f : Field, (fieldPart input (sourcesOf draft rule) (resolvedServer input (sourcesOf draft rule))
        (resolvedUrl input (sourcesOf draft rule)) f).fields ≠ [] → f.kind = .secret := by
      intro f hne
      unfold fieldPart at hne
      cases hkind : f.kind with
      | secret => rfl
      | _ => rw [hkind] at hne; exact absurd rfl hne
    refine ⟨rfl, resolve_addressed .., ?_, ?_⟩
    · intro e he
      obtain ⟨part, hpart, he⟩ := List.mem_flatMap.mp (show e ∈ (resolveParts input (sourcesOf draft rule)).flatMap (·.fields) from he)
      rcases List.mem_append.mp hpart with hpart | hpart
      · obtain ⟨f, hf, rfl⟩ := List.mem_map.mp hpart
        exact urlPart_given ih (List.mem_filter.mp hf).1 he
      · obtain ⟨f, hf, rfl⟩ := List.mem_map.mp hpart
        have hkind := hnone f (List.ne_nil_of_mem he)
        rw [fieldPart, hkind] at he
        exact secretPart_given ih hf he
    · intro h hh
      obtain ⟨part, hpart, hh⟩ := List.mem_flatMap.mp (show h ∈ (resolveParts input (sourcesOf draft rule)).flatMap (·.headers) from hh)
      rcases List.mem_append.mp hpart with hpart | hpart
      · obtain ⟨f, hf, rfl⟩ := List.mem_map.mp hpart
        cases hh
      · obtain ⟨f, hf, rfl⟩ := List.mem_map.mp hpart
        unfold fieldPart at hh
        cases hkind : f.kind with
        | headers =>
          rw [hkind] at hh
          exact headersPart_given ih hf hkind hh
        | _ => rw [hkind] at hh; cases hh

/-! ## What is written -/

/-- The secrets under a field's key. -/
def carried (f : Field) (v : Json) : List String :=
  match f.kind with
  | .secret | .secretUrl | .url => v.asStr.toList
  | .headers => (asArray v).filterMap fun h => (h.get "value").asStr
  | _ => []

def Secrets.values (s : Secrets) : List String := s.url :: (s.fields.map (·.2) ++ s.headers.map (·.2))

def Typed (i : Input) (text : String) : Prop := (∃ name, i.value name = text) ∨ ∃ row ∈ i.headers, row.2 = text

/-- Typed in a post of the form, or in the rule as it is stored now. -/
def Current (posts : List Posted) (rule : Option Json) (text : String) : Prop :=
  (∃ p ∈ posts, Typed p.1 text) ∨ ∃ d ∈ rule, text ∈ (Secrets.of d).values

section

variable {input : Input} {draft : Option Secrets} {rule : Option Json} {earlier : List Posted} (hdraft : ∀ d ∈ draft, Given earlier d)

include hdraft

theorem current_field {s : Secrets} (hs : s ∈ sourcesOf draft rule) {name text : String} (hget : s.get name = some text) :
    Current ((input, sourcesOf draft rule) :: earlier) rule text := by
  rcases List.mem_append.mp hs with hs | hs
  · obtain ⟨p, hp, -, hvalue, -⟩ := (hdraft s (Option.mem_toList.mp hs)).fields _ (get_mem hget)
    exact .inl ⟨p, List.mem_cons_of_mem _ hp, .inl ⟨name, hvalue⟩⟩
  · obtain ⟨d, hd, rfl⟩ := Option.map_eq_some_iff.mp (Option.mem_toList.mp hs)
    exact .inr ⟨d, hd, List.mem_cons_of_mem _ (List.mem_append_left _ (List.mem_map_of_mem (f := (·.2)) (get_mem hget)))⟩

theorem current_header {s : Secrets} (hs : s ∈ sourcesOf draft rule) {h : String × String} (hh : h ∈ s.headers) :
    Current ((input, sourcesOf draft rule) :: earlier) rule h.2 := by
  rcases List.mem_append.mp hs with hs | hs
  · obtain ⟨p, hp, -, -, row, hrow, hv, -⟩ := (hdraft s (Option.mem_toList.mp hs)).headers h hh
    exact .inl ⟨p, List.mem_cons_of_mem _ hp, .inr ⟨row, hrow, hv⟩⟩
  · obtain ⟨d, hd, rfl⟩ := Option.map_eq_some_iff.mp (Option.mem_toList.mp hs)
    exact .inr ⟨d, hd, List.mem_cons_of_mem _ (List.mem_append_right _ (List.mem_map_of_mem (f := (·.2)) hh))⟩

theorem current_sent {typed : List (String × String)} {sent : List Sent} {url : String}
    (h : List.Forall₂ (Carries input (sourcesOf draft rule) url) typed sent) (htyped : ∀ row ∈ typed, row ∈ input.headers) {row : Sent} (hrow : row ∈ sent) :
    Current ((input, sourcesOf draft rule) :: earlier) rule row.2.2 := by
  induction h with
  | nil => cases hrow
  | @cons pair head typed sent hcarry _ ih =>
    rcases List.mem_cons.mp hrow with rfl | hrow
    · obtain ⟨-, hfrom⟩ := hcarry
      split at hfrom
      · rw [hfrom.2]
        exact .inl ⟨_, List.mem_cons_self, .inr ⟨pair, htyped pair List.mem_cons_self, rfl⟩⟩
      · obtain ⟨-, s, h, hs, -, -, hh, hv, -⟩ := hfrom
        rw [← hv]
        exact current_header hdraft (List.mem_of_getElem? hs) (List.mem_of_getElem? hh)
    · exact ih (fun r hr => htyped r (List.mem_cons_of_mem _ hr)) hrow

/-- No secret but those typed into the form and the rule's as it is now. -/
theorem placed_current {f : Field} {v : Json} (h : Placed input (sourcesOf draft rule) f v) :
    ∀ text ∈ carried f v, text = "" ∨ Current ((input, sourcesOf draft rule) :: earlier) rule text := by
  have htyped : ∀ name, Current ((input, sourcesOf draft rule) :: earlier) rule (input.value name) :=
    fun name => .inl ⟨_, List.mem_cons_self, .inl ⟨name, rfl⟩⟩
  intro text htext
  unfold Placed at h
  unfold carried at htext
  cases hkind : f.kind with
  | secret =>
    rw [hkind] at h htext
    obtain ⟨v, rfl, hv⟩ := h
    rw [List.mem_singleton.mp htext]
    rcases hv with hempty | hown | ⟨s, hs, -, hget, -⟩
    · exact .inl hempty
    · rw [hown]
      exact .inr (htyped _)
    · exact .inr (current_field hdraft hs hget)
  | secretUrl =>
    rw [hkind] at h htext
    obtain ⟨rfl, hurl⟩ := h
    rw [List.mem_singleton.mp htext]
    rcases hurl with hown | ⟨s, hs, -, hget⟩
    · rw [hown]
      exact .inr (htyped _)
    · exact .inr (current_field hdraft hs hget)
  | url =>
    rw [hkind] at h htext
    obtain ⟨rfl, hurl⟩ := h
    rw [List.mem_singleton.mp htext]
    rcases hurl with hown | ⟨s, hs, -, hsaved, hsame, -⟩
    · rw [hown]
      exact .inr (htyped _)
    · rw [← hsame]
      rcases List.mem_append.mp hs with hs | hs
      · have := (hdraft s (Option.mem_toList.mp hs)).unsaved
        rw [hsaved] at this
        cases this
      · obtain ⟨d, hd, rfl⟩ := Option.map_eq_some_iff.mp (Option.mem_toList.mp hs)
        exact .inr (.inr ⟨d, hd, List.mem_cons_self⟩)
  | headers =>
    rw [hkind] at h htext
    obtain ⟨sent, rfl, hcarries, -⟩ := h
    obtain ⟨entry, hentry, hvalue⟩ := List.mem_filterMap.mp htext
    obtain ⟨row, hrow, rfl⟩ := List.mem_map.mp hentry
    have : row.2.2 = text := by simpa [headerJson, Json.get, Json.asStr] using hvalue
    rw [← this]
    exact .inr (current_sent hdraft hcarries (fun _ h => h) hrow)
  | text | tel | check | method => rw [hkind] at htext; cases htext

end

theorem merge_as_given (input : Input) (draft : Option Secrets) (rule : Option Json) (earlier : List Posted)
    (hdraft : ∀ d ∈ draft, Kept earlier d) :
    (∀ d ∈ draft, Given earlier d) ∧
      (∀ wire, (resolve input (sourcesOf draft rule)).dest = .ok wire →
        (∀ e ∈ wire, e = ("type", .str input.dest.key) ∨ ∃ f ∈ input.dest.fields, e.1 = f.key ∧ Placed input (sourcesOf draft rule) f e.2) ∧
        ∀ e ∈ wire, ∀ f ∈ input.dest.fields, e.1 = f.key → ∀ text ∈ carried f e.2,
          text = "" ∨ Current ((input, sourcesOf draft rule) :: earlier) rule text) ∧
      Given ((input, sourcesOf draft rule) :: earlier) (resolve input (sourcesOf draft rule)).secrets := by
  have hgiven : ∀ d ∈ draft, Given earlier d := fun d hd => (hdraft d hd).given
  have hsources : ∀ s ∈ sourcesOf draft rule, s.Addressed := by
    intro s hs
    rcases List.mem_append.mp hs with hs | hs
    · exact (hgiven s (Option.mem_toList.mp hs)).addressed
    · obtain ⟨d, -, rfl⟩ := Option.map_eq_some_iff.mp (Option.mem_toList.mp hs)
      exact of_addressed d
  refine ⟨hgiven, fun wire hwire => ?_, (Kept.post input draft rule earlier hdraft).given⟩
  have hplaced := accepted_placed hsources hwire
  refine ⟨hplaced, fun e he f hf hkey text htext => ?_⟩
  rcases hplaced e he with htype | ⟨g, hg, hgkey, hplaced⟩
  · rw [htype] at hkey
    exact absurd hkey.symm (key_ne_type input.known hf)
  · obtain rfl := key_inj input.known hg hf (hgkey.symm.trans hkey)
    exact placed_current hgiven hplaced text htext

/-- A Telegram form with these boxes filled in. -/
def telegramForm (token chat : String) : Input :=
  { id := some 1, name := "rule", filter := "all", patterns := "", keywords := ""
    dest := dests.head (by decide)
    known := List.head_mem _
    values := fun name => if name = "tg_token" then token else if name = "tg_chat" then chat else ""
    headers := [], rows := 0, clearToken := false }

def telegramRule (token : String) : Json := destinationJson (.telegram token "1" false)

/-- A new token without a chat is refused and kept; the next post sends it, not the rule's. -/
theorem draft_before_rule :
    let first : Posted := (telegramForm "999:NEW" "", sourcesOf none (some (telegramRule "123:OLD")))
    let draft := (resolve first.1 first.2).secrets
    let second : Posted := (telegramForm "" "2", sourcesOf (some draft) (some (telegramRule "123:OLD")))
    (resolve second.1 second.2).dest =
        .ok [("type", .str "telegram"), ("bot_token", .str "999:NEW"), ("chat_id", .str "2"), ("silent", .bool false)] ∧
      Given [second, first] (resolve second.1 second.2).secrets := by
  refine ⟨by rfl, (merge_as_given (telegramForm "" "2") _ _ [_] ?_).2.2⟩
  rintro d ⟨⟩
  exact .post _ none (some (telegramRule "123:OLD")) [] nofun

end OpenU60.Web.Forward
