/-
  OpenU60.Web.EditDest — the destination of an edited rule (see `OpenU60.Web.Edit`).

  A secret that is left empty is taken from the rule itself, which has it for the same server; a header
  row takes the value of its own place.
  - `rows_kept`: the header rows take their own values, in order.
  - `secretUrl_kept`, `url_kept`, `secret_kept`: a URL and a secret are sent as they were.
-/

import OpenU60.Web.EditShown
import OpenU60.Web.Merge

namespace OpenU60.Web.Forward

open OpenU60.Lib OpenU60.SmsForward

/-- Nothing empty was kept. -/
def Secrets.Filled (s : Secrets) : Prop := ∀ e ∈ s.fields, e.2 ≠ ""

/-- A URL that was accepted. -/
structure UrlOk (u : String) : Prop where
  some : u ≠ ""
  fits : textError u urlMax = none
  checked : checkUrl u = true

variable {input i j : Input} {sources : List Secrets} {s : Secrets} {f : Field} {u v server : String}

/-! ## What was accepted -/

theorem urlError_ok {saved : Bool} (h : urlError input f u saved = none) : UrlOk u := by
  unfold urlError at h
  by_cases hempty : u = ""
  · rw [if_pos hempty] at h
    cases h
  · rw [if_neg hempty] at h
    cases hfit : textError u urlMax with
    | some e =>
      rw [hfit] at h
      cases h
    | none =>
      rw [hfit] at h
      dsimp only at h
      cases hcheck : checkUrl u with
      | true => exact ⟨hempty, hfit, hcheck⟩
      | false =>
        rw [hcheck, if_pos rfl] at h
        cases h

theorem urlPart_ok (h : (urlPart input sources f).errors = []) : ∃ u, UrlOk u ∧ (urlPart input sources f).wire = [(f.key, .str u)] := by
  have hnone : urlError input f (chosenUrl input sources f).1 (chosenUrl input sources f).2 = none :=
    Option.map_eq_none_iff.mp (Option.toList_eq_nil_iff.mp h)
  exact ⟨(chosenUrl input sources f).1, urlError_ok hnone, rfl⟩

theorem get_filled (h : s.Filled) {name : String} (hget : s.get name = some v) : v ≠ "" := h (name, v) (get_mem hget)

theorem chosenSecret_filled (hsources : ∀ s ∈ sources, s.Filled) (hrequired : f.required = true) (hname : f.name ≠ "nt_token")
    (herr : (chosenSecret input sources server f).2.2 = none) : (chosenSecret input sources server f).1 ≠ "" := by
  unfold chosenSecret at herr ⊢
  dsimp only at herr ⊢
  by_cases htyped : input.value f.name ≠ ""
  · rw [if_pos htyped]
    exact htyped
  · rw [if_neg htyped, if_neg fun h => hname h.1] at herr ⊢
    cases hfind : (sameType input sources).find? (fun s => s.server = server && (s.get f.name).isSome) with
    | some s =>
      rw [hfind] at herr
      dsimp only
      have hmem := (List.mem_filter.mp (List.mem_of_find?_eq_some hfind)).1
      have hpred := List.find?_some hfind
      rw [Bool.and_eq_true] at hpred
      obtain ⟨v, hv⟩ := Option.isSome_iff_exists.mp hpred.2
      rw [hv]
      exact get_filled (hsources s hmem) hv
    | none =>
      rw [hfind, hrequired] at herr
      dsimp only at herr
      split at herr
      · cases herr
      · cases herr

theorem secretPart_ok (h : (secretPart input sources server f).errors = []) :
    (chosenSecret input sources server f).2.2 = none ∧ textError (chosenSecret input sources server f).1 textMax = none := by
  have hmap := Option.map_eq_none_iff.mp (Option.toList_eq_nil_iff.mp h)
  exact Option.or_eq_none_iff.mp hmap

/-! ## Header rows -/

/-- A header that may be set. -/
structure HeaderOk (h : String × String) : Prop where
  name : headerName h.1 = true
  free : reserved h.1 = false
  fits : textError h.2 urlMax = none

variable {taken : List (Nat × Nat)} {k : Nat} {name : String} {hs done : List (String × String)} {h : String × String}

theorem headerRow_ok (hok : (headerRow sources u taken k name v).errors = []) :
    ∃ value, (headerRow sources u taken k name v).sent = [(name, value)] ∧ HeaderOk (name, value) := by
  unfold headerRow at hok ⊢
  dsimp only at hok ⊢
  by_cases hempty : name = ""
  · rw [if_pos hempty] at hok
    cases hok
  · rw [if_neg hempty] at hok ⊢
    by_cases hname : headerName name = false
    · rw [if_pos hname] at hok
      cases hok
    · rw [if_neg hname] at hok ⊢
      by_cases hfree : reserved name = true
      · rw [if_pos hfree] at hok
        cases hok
      · rw [if_neg hfree] at hok ⊢
        have hset : ∀ {value : String}, textError value urlMax = none → HeaderOk (name, value) :=
          fun hfit => ⟨Bool.not_eq_false _ ▸ hname, Bool.eq_false_iff.mpr hfree, hfit⟩
        by_cases hvalue : v ≠ ""
        · rw [if_pos hvalue] at hok ⊢
          cases hfit : textError v urlMax with
          | none => exact ⟨v, rfl, hset hfit⟩
          | some e =>
            rw [hfit] at hok
            cases hok
        · rw [if_neg hvalue] at hok ⊢
          cases hsaved : savedValue u name taken 0 sources with
          | some found =>
            obtain ⟨place, value, saved⟩ := found
            rw [hsaved] at hok
            dsimp only at hok ⊢
            cases hfit : textError value urlMax with
            | none => exact ⟨value, rfl, hset hfit⟩
            | some e =>
              rw [hfit] at hok
              cases hok
          | none =>
            rw [hsaved] at hok
            dsimp only at hok
            split at hok
            · cases hok
            · cases hok

/-- Accepted rows: each is sent, and may be set. -/
theorem headerRows_ok : ∀ {typed : List (String × String)} {taken : List (Nat × Nat)} {k : Nat},
    (headerRows sources u taken k typed).flatMap (·.errors) = [] →
      ((headerRows sources u taken k typed).flatMap (·.sent)).length = typed.length ∧
        ∀ h ∈ (headerRows sources u taken k typed).flatMap (·.sent), HeaderOk h := by
  intro typed
  induction typed with
  | nil => exact fun _ => ⟨rfl, fun h hh => absurd hh List.not_mem_nil⟩
  | cons row typed ih =>
    intro taken k hok
    rw [headerRows, List.flatMap_cons, List.append_eq_nil_iff] at hok
    obtain ⟨value, hsent, hset⟩ := headerRow_ok hok.1
    obtain ⟨hlen, hall⟩ := ih hok.2
    rw [headerRows, List.flatMap_cons, hsent, List.singleton_append, List.length_cons, hlen]
    refine ⟨rfl, fun h hh => ?_⟩
    cases List.mem_cons.mp hh with
    | inl heq =>
      subst heq
      exact hset
    | inr hh => exact hall h hh

/-- The saved values before a place are taken, and no others. -/
def TakenBefore (k : Nat) (taken : List (Nat × Nat)) : Prop := ∀ place, place ∈ taken ↔ place.1 = 0 ∧ place.2 < k

/-- The first value that is left of a name is that of its own place. -/
theorem savedValue_own (hdest : s.dest = "webhook") (hurl : s.url = u) (hheaders : s.headers = done ++ h :: hs) (htaken : TakenBefore done.length taken) :
    savedValue u h.1 taken 0 [s] = some ((0, done.length), h.2, s.saved) := by
  have hbefore : done.zipIdx.find? (fun e => !taken.contains (0, e.2) && Secrets.sameName e.1.1 h.1) = none := by
    rw [List.find?_eq_none]
    intro e he
    have hlt := List.snd_lt_of_mem_zipIdx he
    have hmem : (0, e.2) ∈ taken := (htaken (0, e.2)).mpr ⟨rfl, by simpa using hlt⟩
    rw [List.contains_iff_mem.mpr hmem]
    exact Bool.false_ne_true
  have hown : taken.contains (0, done.length) = false := by
    refine Bool.eq_false_iff.mpr fun hmem => ?_
    have hlt := ((htaken (0, done.length)).mp (List.contains_iff_mem.mp hmem)).2
    exact absurd hlt (Nat.lt_irrefl _)
  unfold savedValue
  rw [if_pos ⟨hdest, hurl⟩, hheaders, List.zipIdx_append, List.find?_append, hbefore, Option.none_or, List.zipIdx_cons, List.find?_cons, Nat.zero_add, hown,
    sameName_refl]
  rfl

/-- The rows take their own values, in order. -/
theorem rows_kept (hdest : s.dest = "webhook") (hurl : s.url = u) : ∀ {hs done : List (String × String)} {taken : List (Nat × Nat)},
    s.headers = done ++ hs → (∀ h ∈ hs, HeaderOk h) → TakenBefore done.length taken →
      (headerRows [s] u taken done.length (hs.map fun h => (h.1, ""))).flatMap (·.errors) = [] ∧
      (headerRows [s] u taken done.length (hs.map fun h => (h.1, ""))).flatMap (·.sent) = hs := by
  intro hs
  induction hs with
  | nil => exact fun _ _ _ => ⟨rfl, rfl⟩
  | cons h hs ih =>
    intro done taken hheaders hall htaken
    have hset := hall h List.mem_cons_self
    have hrow : headerRow [s] u taken done.length h.1 "" = { kept := if s.saved then [] else [h], sent := [h], takes := some (0, done.length) } := by
      unfold headerRow
      dsimp only
      rw [if_neg (headerName_spec hset.name).1, if_neg (by rw [hset.name]; exact Bool.true_eq_false.mp), if_neg (by rw [hset.free]; exact Bool.false_ne_true),
        if_neg (by simp), savedValue_own hdest hurl hheaders htaken]
      dsimp only
      rw [hset.fits]
    have htaken' : TakenBefore (done ++ [h]).length ((0, done.length) :: taken) := by
      intro place
      rw [List.mem_cons, htaken place, List.length_append, List.length_singleton]
      constructor
      · intro hplace
        cases hplace with
        | inl heq =>
          rw [heq]
          exact ⟨rfl, Nat.lt_succ_self _⟩
        | inr hlt => exact ⟨hlt.1, by omega⟩
      · intro hplace
        by_cases heq : place.2 = done.length
        · exact .inl (Prod.ext hplace.1 heq)
        · exact .inr ⟨hplace.1, by omega⟩
    obtain ⟨herrors, hsent⟩ := ih (by rw [hheaders, List.append_assoc]; rfl) (fun h' hh => hall h' (List.mem_cons_of_mem h hh)) htaken'
    rw [List.length_append, List.length_singleton] at herrors hsent
    rw [List.map_cons, headerRows, hrow, List.flatMap_cons, List.flatMap_cons]
    dsimp only [Option.toList]
    rw [List.singleton_append, herrors, hsent]
    exact ⟨rfl, rfl⟩

/-! ## What is kept -/

/-- The rule's own secrets, for this form's type. -/
structure Own (j : Input) (s : Secrets) : Prop where
  type : s.dest = j.dest.key
  saved : s.saved = true

theorem sameType_own (h : Own j s) : sameType j [s] = [s] := by
  unfold sameType
  rw [List.filter_cons, if_pos (by simpa using h.type)]
  rfl

theorem urlPart_of (hchosen : chosenUrl j [s] f = (u, true)) (hnone : urlError j f u true = none) :
    urlPart j [s] f = { wire := [(f.key, .str u)] } := by
  unfold urlPart
  rw [hchosen]
  dsimp only
  rw [hnone, if_neg fun h => Bool.noConfusion h.2.2]
  rfl

theorem secretUrl_kept (hown : Own j s) (hkind : f.kind = .secretUrl) (hvalue : j.value f.name = "") (hget : s.get f.name = some u) (hok : UrlOk u) :
    chosenUrl j [s] f = (u, true) ∧ urlPart j [s] f = { wire := [(f.key, .str u)] } := by
  have hchosen : chosenUrl j [s] f = (u, true) := by
    unfold chosenUrl
    rw [hkind, hvalue, sameType_own hown]
    dsimp only
    rw [if_pos rfl, List.findSome?_singleton, hget, hown.saved]
    rfl
  have hnone : urlError j f u true = none := by
    unfold urlError
    rw [if_neg hok.some, hok.fits]
    dsimp only
    rw [hok.checked, if_neg Bool.false_ne_true.symm, hvalue, if_pos hok.some]
  exact ⟨hchosen, urlPart_of hchosen hnone⟩

/-- The shown address is the saved one's. -/
theorem url_kept (hown : Own j s) (hkind : f.kind = .url) (hvalue : j.value f.name = shownUrl u) (hurl : s.url = u) (hok : UrlOk u) :
    chosenUrl j [s] f = (u, true) ∧ urlPart j [s] f = { wire := [(f.key, .str u)] } := by
  have hchosen : chosenUrl j [s] f = (u, true) := by
    have hfits : (s.saved && s.url ≠ "" && shownUrl s.url = shownUrl u) = true := by
      rw [hown.saved, hurl, Bool.true_and, Bool.and_eq_true]
      exact ⟨decide_eq_true hok.some, decide_eq_true rfl⟩
    unfold chosenUrl
    rw [hkind, hvalue, sameType_own hown]
    dsimp only
    rw [List.find?_cons, hfits]
    exact Prod.ext hurl rfl
  have hnone : urlError j f u true = none := by
    unfold urlError
    rw [if_neg hok.some, hok.fits]
    dsimp only
    rw [hok.checked, if_neg Bool.false_ne_true.symm, hvalue]
    by_cases hself : u = shownUrl u
    · have hlist : Url.shownUrl u.toList = u.toList := by
        have hboth := congrArg String.toList hself
        exact (hboth.trans String.toList_ofList).symm
      obtain ⟨huser, hpath⟩ := Url.shownUrl_whole hok.checked hlist
      have hwhole : withoutUserinfo u = u := by
        unfold withoutUserinfo onText
        rw [huser, String.ofList_toList]
      have hquery : u.toList.any (fun c => c == '?' || c == '#') = false := by
        refine List.any_eq_false.mpr fun c hc hmark => ?_
        have hin := hpath c hc
        unfold Url.inPath at hin
        rw [hmark] at hin
        cases hin
      rw [if_neg (not_not.mpr hself), if_neg fun h => h.2 hwhole, if_neg fun h => by rw [hquery] at h; exact Bool.false_ne_true h.2]
    · exact if_pos hself
  exact ⟨hchosen, urlPart_of hchosen hnone⟩

theorem secret_kept (hown : Own j s) (hvalue : j.value f.name = "") (hclear : j.clearToken = false) (hserver : s.server = server)
    (hget : s.get f.name = some v) (hfill : v ≠ "") (hfit : textError v textMax = none) : secretPart j [s] server f = { wire := [(f.key, .str v)] } := by
  have hchosen : chosenSecret j [s] server f = (v, true, none) := by
    have hfits : (s.server = server && (s.get f.name).isSome) = true := by
      rw [hget, Bool.and_eq_true]
      exact ⟨decide_eq_true hserver, rfl⟩
    unfold chosenSecret
    dsimp only
    rw [if_neg (not_not.mpr hvalue), if_neg fun h => by rw [hclear] at h; exact Bool.false_ne_true h.2, sameType_own hown, List.find?_cons, hfits]
    dsimp only
    rw [hget, hown.saved]
    rfl
  unfold secretPart
  rw [hchosen]
  dsimp only
  rw [Option.none_or, hfit, if_neg fun h => Bool.noConfusion h.2.2, if_pos hfill]
  rfl

theorem secret_absent (hown : Own j s) (hvalue : j.value f.name = "") (hget : s.get f.name = none) (hoptional : f.required = false) :
    secretPart j [s] server f = {} := by
  have hchosen : chosenSecret j [s] server f = ("", false, none) := by
    have hno : (s.server = server && (s.get f.name).isSome) = false := by
      rw [hget]
      exact Bool.and_false _
    unfold chosenSecret
    dsimp only
    rw [if_neg (not_not.mpr hvalue), sameType_own hown, List.find?_cons, hno, List.find?_nil, List.any_cons, hget, hoptional]
    exact ite_self _
  unfold secretPart
  rw [hchosen]
  dsimp only
  rw [hoptional]
  rfl

theorem text_same (h : j.value f.name = input.value f.name) : textPart j f = textPart input f := by
  unfold textPart
  rw [h]

/-! ## The whole destination -/

theorem resolve_ok (h : ∀ part ∈ resolveParts j sources, part.errors = []) :
    (resolve j sources).dest = .ok (("type", .str j.dest.key) :: (resolveParts j sources).flatMap (·.wire)) := by
  have hnone : (resolveParts j sources).flatMap (·.errors) = [] := List.flatMap_eq_nil_iff.mpr h
  exact if_pos hnone

theorem dest_of_key {d e : Dest} (hd : d ∈ dests) (he : e ∈ dests) (h : d.key = e.key) : d = e := by
  have hall : ∀ d ∈ dests, ∀ e ∈ dests, d.key = e.key → d = e := by decide
  exact hall d hd e he h

end OpenU60.Web.Forward
