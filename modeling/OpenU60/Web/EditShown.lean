/-
  OpenU60.Web.EditShown — what Edit Rule draws of a stored rule (see `OpenU60.Web.Edit`).

  - `edit_rule`: the name, the filter's type and its lists.
  - `edit_value`: the shown values of its type.
  - `edit_read`: what is read of the form when it is posted back.
-/

import OpenU60.Web.EditFilter

namespace OpenU60.Web.Forward

open OpenU60.Lib OpenU60.SmsForward

/-- Edit Rule of a stored rule. -/
def editOf (r : ForwardRule) : Input := Input.ofRule (publicRule (ruleJson r))

/-- What the form shows of a public destination's field. -/
def ruleValue (d : Json) (f : Field) : String :=
  match f.kind with
  | .check => if (d.get f.key).asBool = some true then "1" else ""
  | .text | .tel | .url | .method => (d.get f.key).asStr.getD f.default
  | .secret | .secretUrl | .headers => f.default

variable {d : Json} {i : Input} {f : Field} {fields : List Field} {r : ForwardRule} {name : String}

/-! ## Filling in the values -/

theorem ruleField_keeps (d : Json) (i : Input) (f : Field) : Input.ruleField d i f = { i with values := (Input.ruleField d i f).values } := by
  unfold Input.ruleField
  cases f.kind with
  | _ => rfl

theorem foldl_keeps (d : Json) (fields : List Field) (i : Input) :
    fields.foldl (Input.ruleField d) i = { i with values := (fields.foldl (Input.ruleField d) i).values } := by
  induction fields generalizing i with
  | nil => rfl
  | cons f fields ih =>
    rw [List.foldl_cons, ih, ruleField_keeps d i f]

theorem ruleField_other (h : f.name ≠ name) (d : Json) (i : Input) : (Input.ruleField d i f).value name = i.value name := by
  unfold Input.ruleField
  cases f.kind with
  | check | text | tel | url | method => exact if_neg (Ne.symm h)
  | secret | secretUrl | headers => rfl

theorem foldl_other (h : ∀ f ∈ fields, f.name ≠ name) (d : Json) (i : Input) : (fields.foldl (Input.ruleField d) i).value name = i.value name := by
  induction fields generalizing i with
  | nil => rfl
  | cons f fields ih =>
    rw [List.foldl_cons, ih fun g hg => h g (List.mem_cons_of_mem f hg), ruleField_other (h f List.mem_cons_self)]

theorem ruleField_own (d : Json) (h : i.value f.name = f.default) : (Input.ruleField d i f).value f.name = ruleValue d f := by
  unfold Input.ruleField ruleValue
  cases f.kind with
  | check | text | tel | url | method => exact if_pos rfl
  | secret | secretUrl | headers => exact h

/-- Each field has its own value, where no two have one name. -/
theorem foldl_own (hnodup : (fields.map (·.name)).Nodup) (hdefault : ∀ f ∈ fields, i.value f.name = f.default) (hf : f ∈ fields) (d : Json) :
    (fields.foldl (Input.ruleField d) i).value f.name = ruleValue d f := by
  induction fields generalizing i with
  | nil => exact absurd hf List.not_mem_nil
  | cons g fields ih =>
    rw [List.map_cons, List.nodup_cons] at hnodup
    have hne : ∀ h ∈ fields, h.name ≠ g.name := fun h hh heq => hnodup.1 (heq ▸ List.mem_map_of_mem hh)
    rw [List.foldl_cons]
    cases List.mem_cons.mp hf with
    | inl heq =>
      subst heq
      rw [foldl_other hne, ruleField_own d (hdefault f List.mem_cons_self)]
    | inr hf =>
      refine ih hnodup.2 (fun h hh => ?_) hf
      rw [ruleField_other (Ne.symm (hne h hh)), hdefault h (List.mem_cons_of_mem g hh)]

/-! ## A stored rule -/

/-- The destination's type of a stored rule. -/
def specOf (r : ForwardRule) : { d : Dest // d ∈ dests } := destOr ((publicDestination (destinationJson r.destination)).get "type").asStr

/-- Edit Rule before the values are filled in. -/
def unfilled (r : ForwardRule) : Input where
  id := some r.id.toNat
  name := r.name
  filter := typeOf r.filter
  patterns := listText (strings (patternsOf r.filter))
  keywords := listText (strings (keywordsOf r.filter))
  dest := (specOf r).1
  known := (specOf r).2
  values := defaultValue
  headers := (asArray ((publicDestination (destinationJson r.destination)).get "headers")).filterMap fun n => n.asStr.map (·, "")
  rows := 0
  clearToken := false

theorem listText_null : listText .null = listText (strings []) := rfl

theorem filter_json (filter : SmsFilter) : (filters.find? fun k => some k = ((filterJson filter).get "type").asStr).getD "all" = typeOf filter ∧
    listText ((filterJson filter).get "patterns") = listText (strings (patternsOf filter)) ∧
    listText ((filterJson filter).get "keywords") = listText (strings (keywordsOf filter)) := by
  cases filter with
  | all => exact ⟨rfl, listText_null, listText_null⟩
  | sender patterns => exact ⟨rfl, rfl, listText_null⟩
  | content keywords => exact ⟨rfl, listText_null, rfl⟩
  | senderAndContent patterns keywords => exact ⟨rfl, rfl, rfl⟩

theorem id_json (r : ForwardRule) : ((Json.int r.id.toNat).asU64).filter (· < 2 ^ 32) = some r.id.toNat := by
  have hlt := r.id.toNat_lt
  have hmax : Text.u64Max = 2 ^ 64 - 1 := rfl
  unfold Json.asU64
  dsimp only
  rw [if_pos ⟨by omega, by omega⟩, Option.filter_some, if_pos (by simpa using hlt)]
  rfl

theorem public_get (r : ForwardRule) : (publicRule (ruleJson r)).get "id" = .int r.id.toNat ∧ (publicRule (ruleJson r)).get "name" = .str r.name ∧
    (publicRule (ruleJson r)).get "filter" = filterJson r.filter ∧
    (publicRule (ruleJson r)).get "destination" = publicDestination (destinationJson r.destination) := by
  rw [publicRule_json]
  exact ⟨rfl, rfl, rfl, rfl⟩

theorem editOf_eq (r : ForwardRule) :
    editOf r = (specOf r).1.fields.foldl (Input.ruleField (publicDestination (destinationJson r.destination))) (unfilled r) := by
  obtain ⟨hid, hname, hfilter, hdest⟩ := public_get r
  obtain ⟨htype, hpatterns, hkeywords⟩ := filter_json r.filter
  unfold editOf Input.ofRule unfilled specOf
  simp only [hid, hname, hfilter, hdest, htype, hpatterns, hkeywords, id_json]
  rfl

/-- The name, the filter's type and its lists. -/
theorem edit_rule (r : ForwardRule) : (editOf r).id = some r.id.toNat ∧ (editOf r).name = r.name ∧ (editOf r).filter = typeOf r.filter ∧
    (editOf r).patterns = listText (strings (patternsOf r.filter)) ∧ (editOf r).keywords = listText (strings (keywordsOf r.filter)) ∧
    (editOf r).dest = (specOf r).1 ∧ (editOf r).headers = (unfilled r).headers := by
  rw [editOf_eq, foldl_keeps]
  exact ⟨rfl, rfl, rfl, rfl, rfl, rfl, rfl⟩

theorem field_defaults {d : Dest} (hd : d ∈ dests) : (d.fields.map (·.name)).Nodup ∧ ∀ f ∈ d.fields, defaultValue f.name = f.default := by
  have hall : ∀ d ∈ dests, (d.fields.map (·.name)).Nodup ∧ ∀ f ∈ d.fields, defaultValue f.name = f.default := by decide +kernel
  exact hall d hd

/-- The shown values of its type. -/
theorem edit_value (r : ForwardRule) (hf : f ∈ (specOf r).1.fields) : (editOf r).value f.name = ruleValue (publicDestination (destinationJson r.destination)) f := by
  obtain ⟨hnodup, hdefault⟩ := field_defaults (specOf r).2
  rw [editOf_eq]
  exact foldl_own (i := unfilled r) hnodup hdefault hf _

/-! ## Posted back -/

/-- What is read of a public destination's field. -/
def backValue (d : Json) (f : Field) : String :=
  match f.kind with
  | .check => if (d.get f.key).asBool = some true then "1" else ""
  | .method => if (d.get f.key).asStr.getD f.default = "PUT" then "PUT" else "POST"
  | .secret | .secretUrl | .headers => ""
  | .url => onText Text.trim (shownUrl ((d.get f.key).asStr.getD f.default))
  | .text | .tel => onText Text.trim ((d.get f.key).asStr.getD f.default)

theorem mem_allFields {d : Dest} (hd : d ∈ dests) (hf : f ∈ d.fields) : f ∈ allFields := List.mem_flatMap.mpr ⟨d, hd, hf⟩

theorem readBack_shown (hf : f ∈ allFields) (hvalue : i.value f.name = ruleValue d f) : readBack i.shown f = backValue d f := by
  have hshown : i.shown.value f.name = redactedValue i f.name := shown_values i f.name
  unfold redactedValue at hshown
  rw [find_field hf] at hshown
  dsimp only at hshown
  unfold readBack backValue
  unfold ruleValue at hvalue
  cases hkind : f.kind with
  | secret | secretUrl | headers => rfl
  | check =>
    rw [hkind] at hshown hvalue
    dsimp only at hshown hvalue ⊢
    rw [hshown, hvalue]
    by_cases hon : (d.get f.key).asBool = some true
    · rw [if_pos hon, if_pos rfl]
    · rw [if_neg hon]
      exact if_neg (by decide)
  | text | tel | method | url =>
    rw [hkind] at hshown hvalue
    dsimp only at hshown hvalue ⊢
    rw [hshown, hvalue]

/-- What is read of Edit Rule's form when it is posted back as it was drawn. -/
structure PostedBack (r : ForwardRule) (j : Input) : Prop where
  name : j.name = onText Text.trim r.name
  filter : j.filter = typeOf r.filter
  patterns : j.patterns = onText Text.trim (listText (strings (patternsOf r.filter)))
  keywords : j.keywords = onText Text.trim (listText (strings (keywordsOf r.filter)))
  dest : j.dest = (specOf r).1
  values : ∀ f ∈ (specOf r).1.fields, f.kind ≠ .headers → j.value f.name = backValue (publicDestination (destinationJson r.destination)) f
  headers : j.headers = (unfilled r).headers.map fun n => (n.1, "")
  token : j.clearToken = false

theorem typeOf_mem (filter : SmsFilter) : typeOf filter ∈ filters := by
  cases filter with
  | all => exact (by decide : "all" ∈ filters)
  | sender patterns => exact (by decide : "sender" ∈ filters)
  | content keywords => exact (by decide : "content" ∈ filters)
  | senderAndContent patterns keywords => exact (by decide : "sender_and_content" ∈ filters)

theorem edit_read (hid : 0 < r.id.toNat) (hnames : ∀ n ∈ (unfilled r).headers, headerName n.1 = true) (hlen : (unfilled r).headers.length ≤ maxHeaders) :
    ∃ j, Input.parse (postedBack (editOf r)) = some j ∧ PostedBack r j := by
  obtain ⟨hrid, hname, hfilter, hpatterns, hkeywords, hdest, hheaders⟩ := edit_rule r
  have hshown := shown_others (editOf r)
  have hkeep : (editOf r).shown.headers = (editOf r).headers.map fun h => (h.1, "") := by
    refine List.map_congr_left fun h hh => ?_
    rw [hheaders] at hh
    rw [hnames h hh]
    rfl
  have hwhole : ∀ n ∈ (editOf r).shown.headers, headerName n.1 = true := by
    intro n hn
    rw [hkeep, hheaders] at hn
    obtain ⟨h, hh, rfl⟩ := List.mem_map.mp hn
    exact hnames h hh
  obtain ⟨j, hparse, hread⟩ := parse_drawn (i := (editOf r).shown)
    (by
      intro n hn
      rw [hshown] at hn
      cases hn.symm.trans hrid
      exact ⟨hid, r.id.toNat_lt⟩)
    (by rw [hshown]; exact hfilter ▸ typeOf_mem r.filter) hwhole (by rw [hkeep, List.length_map, hheaders]; exact hlen)
  have hrname := hread.name
  have hrfilter := hread.filter
  have hrpatterns := hread.patterns
  have hrkeywords := hread.keywords
  have hrdest := hread.dest
  rw [hshown] at hrname hrfilter hrpatterns hrkeywords hrdest
  refine ⟨j, hparse, hrname.trans (congrArg _ hname), hrfilter.trans hfilter, hrpatterns.trans (congrArg _ hpatterns), hrkeywords.trans (congrArg _ hkeywords),
    hrdest.trans hdest, ?_, ?_, hread.token⟩
  · intro f hf hkind
    have hmem := mem_allFields (specOf r).2 hf
    exact (hread.values f hmem hkind).trans (readBack_shown hmem (edit_value r hf))
  · rw [hread.headers, hkeep, hheaders, List.map_map]
    rfl

end OpenU60.Web.Forward
