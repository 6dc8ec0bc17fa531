/-
  OpenU60.Web.EditUnchanged — a rule whose Edit Rule form is posted back as it was drawn.

  Any form that was accepted, resolved with what its earlier posts kept and any stored rule; the agent
  keeps the rule as it was sent, under the form's id or a new one.
  - `edit_unchanged`: the form that is drawn of that rule is accepted, with the rule as the only source, and
    gives the same name, filter and destination, if and only if the lists still fit when they are joined
    with `", "`.
  - `long_list`: a list that was typed without spaces does not.
-/

import OpenU60.SmsForward.RuleIdentity
import OpenU60.Web.EditTypes

namespace OpenU60.Web.Forward

open OpenU60.Lib OpenU60.SmsForward

variable {form : Form} {input : Input} {f : Field} {posts : List Posted} {d : Secrets} {draft : Option Secrets} {rule : Option Json}
  {earlier : List Posted}

/-! ## What was posted -/

theorem trimmed_text (s : String) : Trimmed (onText Text.trim s) := by
  rw [trimmed_iff, onText_trim, Text.trim_idem]

theorem posted_trimmed (form : Form) (f : Field) : Trimmed (postedField form f) := by
  have hcheck : ∀ raw : String, Trimmed (if raw = "" then "" else "1") := by
    intro raw
    by_cases hraw : raw = ""
    · rw [if_pos hraw]
      exact trimmed_iff.mpr rfl
    · rw [if_neg hraw]
      exact trimmed_iff.mpr (by decide)
  unfold postedField
  cases f.kind with
  | check => exact hcheck _
  | headers => exact trimmed_iff.mpr rfl
  | text | url | tel | secret | secretUrl | method => exact trimmed_text _

theorem postedHeaders_length (form : Form) : (postedHeaders form).length ≤ maxHeaders := by
  unfold postedHeaders
  have hle := List.length_filter_le (fun h : String × String => h.1 ≠ "" || h.2 ≠ "") ((List.range maxHeaders).map (postedRow form))
  rw [List.length_map, List.length_range] at hle
  exact hle

theorem postedId_pos {id : Option Nat} (h : postedId form = some id) : ∀ n ∈ id, 0 < n := by
  intro n hn
  cases hn
  unfold postedId at h
  split at h
  · cases h
  · split at h
    · cases h
    · obtain ⟨m, hm, heq⟩ := Option.map_eq_some_iff.mp h
      cases heq
      have hpred := (Option.filter_eq_some_iff.mp hm).2
      rw [Bool.and_eq_true, decide_eq_true_eq] at hpred
      exact hpred.1

/-- What is read of a posted form. -/
structure Parsed (form : Form) (input : Input) : Prop where
  id : postedId form = some input.id
  name : input.name = trimmed form "name"
  filter : form "ft" = some input.filter
  patterns : input.patterns = trimmed form "patterns"
  keywords : input.keywords = trimmed form "keywords"
  dest : (form "dt").bind Forward.dest = some input.dest
  values : input.values = postedValues form
  headers : input.headers = postedHeaders form

theorem parsed (h : Input.parse form = some input) : Parsed form input := by
  unfold Input.parse at h
  split at h
  · rename_i id filter d hid hfilter hd
    split at h
    · cases h
      have hpred := List.find?_some hfilter
      have hft : some filter = form "ft" := of_decide_eq_true hpred
      constructor
      all_goals dsimp only
      · exact hid
      · exact hft.symm
      · exact hd
    · cases h
  · cases h

theorem Parsed.trimmed (h : Parsed form input) (hf : f ∈ allFields) : Trimmed (input.value f.name) := by
  unfold Input.value
  rw [h.values, posted_values form hf]
  exact posted_trimmed form f

/-! ## What was kept -/

theorem part_filled {sources : List Secrets} {part : Part} (hpart : part ∈ resolveParts input sources) : ∀ e ∈ part.fields, e.2 ≠ "" := by
  intro e he
  cases List.mem_append.mp hpart with
  | inl hurl =>
    obtain ⟨f, -, rfl⟩ := List.mem_map.mp hurl
    unfold urlPart at he
    dsimp only at he
    split at he
    · rename_i hok
      rw [List.mem_singleton.mp he]
      exact (urlError_ok hok.1).some
    · cases he
  | inr hfield =>
    obtain ⟨f, -, rfl⟩ := List.mem_map.mp hfield
    unfold fieldPart at he
    cases hkind : f.kind with
    | secret =>
      rw [hkind] at he
      unfold secretPart at he
      dsimp only at he
      split at he
      · rename_i hok
        rw [List.mem_singleton.mp he]
        exact hok.2.1
      · cases he
    | text | url | tel | secretUrl | check | method | headers =>
      rw [hkind] at he
      cases he

theorem Kept.filled (h : Kept posts d) : d.Filled := by
  cases h with
  | post input draft rule earlier _ =>
    intro e he
    obtain ⟨part, hpart, he⟩ := List.mem_flatMap.mp (show e ∈ (resolveParts input (sourcesOf draft rule)).flatMap (·.fields) from he)
    exact part_filled hpart e he

theorem of_filled (d : Json) : (Secrets.of d).Filled := by
  intro e he
  unfold Secrets.of at he
  split at he
  · cases he
  · obtain ⟨f, -, hf⟩ := List.mem_filterMap.mp he
    unfold Secrets.secretField at hf
    dsimp only at hf
    split at hf
    · rename_i hset
      cases hf
      exact hset.2
    · cases hf

theorem sources_filled (hdraft : ∀ d ∈ draft, Kept earlier d) : ∀ s ∈ sourcesOf draft rule, s.Filled := by
  intro s hs
  cases List.mem_append.mp hs with
  | inl hs => exact (hdraft s (Option.mem_toList.mp hs)).filled
  | inr hs =>
    obtain ⟨d, -, rfl⟩ := Option.map_eq_some_iff.mp (Option.mem_toList.mp hs)
    exact of_filled d

/-! ## Posted back -/

/-- What is read of the form that is posted back. -/
theorem posted_back {sources : List Secrets} {r : ForwardRule} {wire : List (String × Json)} (hid : 0 < r.id.toNat) (hstored : Stored input sources r wire)
    (hlen : input.headers.length ≤ maxHeaders) : ∃ j, Input.parse (postedBack (editOf r)) = some j ∧ PostedBack r j := by
  obtain ⟨hnames, hrows⟩ := hstored.rows hlen
  exact edit_read hid hnames hrows

/-- The shown name and lists are accepted again if and only if the lists fit. -/
theorem back_parts {r : ForwardRule} {j : Input} (hparts : Parts r.name r.filter) (hback : PostedBack r j) :
    ruleParts j = .ok (r.name, filterJson r.filter) ↔ ListsFit r.filter :=
  parts_unchanged hparts (hback.name.trans hparts.trimmed) hback.filter (hback.patterns.trans (trim_listText hparts.patterns))
    (hback.keywords.trans (trim_listText hparts.keywords))

/-- An accepted rule that was stored as it was sent is accepted again from its unchanged form, and is the same, if and only
    if its joined lists fit. -/
theorem edit_unchanged {name : String} {filter : Json} {wire : List (String × Json)} {rules : List ForwardRule} {log : List ForwardLogEntry} {r : ForwardRule}
    (hparse : Input.parse form = some input) (hdraft : ∀ d ∈ draft, Kept earlier d) (hrule : ruleParts input = .ok (name, filter))
    (hdest : (resolve input (sourcesOf draft rule)).dest = .ok wire) (hid : input.id = some r.id.toNat ∨ input.id = none ∧ nextRuleId rules log = some r.id)
    (hname : r.name = name) (hfilter : filterJson r.filter = filter) (hsent : destinationJson r.destination = .obj wire) :
    (∃ again, Input.parse (postedBack (editOf r)) = some again ∧ ruleParts again = .ok (name, filter) ∧
      (resolve again [Secrets.of ((ruleJson r).get "destination")]).dest = .ok wire) ↔ ListsFit r.filter := by
  have hparsed := parsed hparse
  subst hname hfilter
  have hparts : Parts r.name r.filter := accepted_parts (hparsed.name ▸ trimmed_text _) hrule
  have hstored : Stored input (sourcesOf draft rule) r wire :=
    ⟨fun f hf => hparsed.trimmed (mem_allFields input.known hf), sources_filled hdraft, hdest, hsent⟩
  have hpos : 0 < r.id.toNat := by
    cases hid with
    | inl hform => exact postedId_pos hparsed.id _ hform
    | inr hnew =>
      rw [nextRuleId_eq hnew.2]
      omega
  obtain ⟨j, hj, hback⟩ := posted_back hpos hstored (hparsed.headers ▸ postedHeaders_length form)
  constructor
  · intro h
    obtain ⟨again, hagain, hok, -⟩ := h
    cases hj.symm.trans hagain
    exact (back_parts hparts hback).mp hok
  · intro hfit
    exact ⟨j, hj, (back_parts hparts hback).mpr hfit, dest_unchanged hstored hback⟩

/-- Two headers of one name, up to case, the second one typed as a line. -/
def hookForm : Form :=
  formOf [("name", "rule"), ("ft", "content"), ("keywords", "code,BANK"), ("dt", "webhook"), ("wh_url", "https://h.example/x"),
    ("wh_hn0", "X-Key"), ("wh_hv0", "1"), ("wh_hn1", "x-key: 2")]

def hookRule : ForwardRule :=
  ⟨1, "rule", true, .content ["code", "BANK"], .webhook "https://h.example/x" "POST" [⟨"X-Key", "1"⟩, ⟨"x-key", "2"⟩], 0⟩

theorem edit_hook : ∃ again, Input.parse (postedBack (editOf hookRule)) = some again ∧ ruleParts again = .ok ("rule", filterJson hookRule.filter) ∧
    (resolve again [Secrets.of ((ruleJson hookRule).get "destination")]).dest =
      .ok [("type", .str "webhook"), ("url", .str "https://h.example/x"), ("method", .str "POST"),
        ("headers", .arr [headerJson ⟨"X-Key", "1"⟩, headerJson ⟨"x-key", "2"⟩])] := by
  obtain ⟨input, hparse⟩ : ∃ input, Input.parse hookForm = some input := Option.isSome_iff_exists.mp rfl
  have hinput : input = (Input.parse hookForm).get rfl := (Option.get_of_eq_some _ hparse).symm
  have hnone : ∀ d ∈ (none : Option Secrets), Kept [] d := fun d hd => (nomatch hd)
  have hid : input.id = some hookRule.id.toNat ∨ input.id = none ∧ nextRuleId [] [] = some hookRule.id := .inr ⟨by rw [hinput]; rfl, rfl⟩
  have hdest : (resolve input (sourcesOf none none)).dest = .ok [("type", .str "webhook"), ("url", .str "https://h.example/x"), ("method", .str "POST"),
      ("headers", .arr [headerJson ⟨"X-Key", "1"⟩, headerJson ⟨"x-key", "2"⟩])] := by
    rw [hinput]
    rfl
  exact (edit_unchanged hparse hnone (by rw [hinput]; rfl) hdest hid rfl rfl rfl).mpr ⟨by decide, by decide⟩

/-! ## A list without spaces -/

/-- `n` patterns typed with a comma between them. -/
def typedList (n : Nat) : String := String.ofList (",".toList.intercalate (List.replicate n ['a']))

def listForm (n : Nat) : Form :=
  formOf [("name", "rule"), ("ft", "sender"), ("patterns", typedList n), ("dt", "sms"), ("sms_number", "+1 555 0123")]

def listRule (n : Nat) : ForwardRule := ⟨1, "rule", true, .sender (List.replicate n "a"), .sms "+15550123", 0⟩

variable {n : Nat}

theorem typed_chars : ∀ c ∈ (typedList n).toList, Text.isWhitespace c = false ∧ isControl c = false := by
  intro c hc
  unfold typedList at hc
  rw [String.toList_ofList] at hc
  cases Split.mem_intercalate hc with
  | inl hsep =>
    rw [List.mem_singleton.mp hsep]
    decide
  | inr hitem =>
    obtain ⟨p, hp, hcp⟩ := hitem
    rw [List.eq_of_mem_replicate hp, List.mem_singleton] at hcp
    rw [hcp]
    decide

theorem split_typed (hn : 0 < n) : split (typedList n) = List.replicate n "a" := by
  have hne : List.replicate n ['a'] ≠ [] := by
    intro hnil
    rw [List.replicate_eq_nil_iff] at hnil
    omega
  have hcomma : ∀ p ∈ List.replicate n ['a'], ',' ∉ p := by
    intro p hp
    rw [List.eq_of_mem_replicate hp]
    decide
  have hitem : item ['a'] = some "a" := by decide
  unfold typedList
  rw [split_eq, String.toList_ofList]
  have hread : (",".toList.intercalate (List.replicate n ['a'])).splitOn ',' = List.replicate n ['a'] := List.splitOn_intercalate ',' hcomma hne
  rw [hread, List.filterMap_replicate, hitem]

theorem length_typed (n : Nat) : (typedList n).length = 2 * n - 1 := by
  have hsum : ((List.replicate n ['a']).map List.length).sum = n := by simp
  have hlen := Split.length_intercalate ",".toList (List.replicate n ['a'])
  rw [hsum, List.length_replicate] at hlen
  unfold typedList
  rw [String.length_ofList, hlen]
  show n + 1 * (n - 1) = 2 * n - 1
  omega

theorem joined_typed (n : Nat) : joined (List.replicate n "a") = n + 2 * (n - 1) := by
  have hone : "a".length = 1 := by decide
  unfold joined
  rw [List.map_replicate, hone, List.sum_replicate_nat, List.length_replicate, Nat.mul_one]

theorem list_item : ∀ p ∈ List.replicate n "a", Item p := by
  intro p hp
  rw [List.eq_of_mem_replicate hp]
  exact ⟨by decide, trimmed_iff.mpr (by decide), by decide, by decide⟩

theorem list_parse (n : Nat) : ∃ i, Input.parse (listForm n) = some i := Option.isSome_iff_exists.mp rfl

/-- 250 patterns of one character, typed without spaces: 499 characters, and 748 when the form is drawn. -/
theorem long_list : ∃ input wire, Input.parse (listForm 250) = some input ∧ ruleParts input = .ok ("rule", filterJson (listRule 250).filter) ∧
    (resolve input (sourcesOf none none)).dest = .ok wire ∧ input.id = none ∧ nextRuleId [] [] = some (listRule 250).id ∧
    destinationJson (listRule 250).destination = .obj wire ∧
    ¬ ∃ again, Input.parse (postedBack (editOf (listRule 250))) = some again ∧ ruleParts again = .ok ("rule", filterJson (listRule 250).filter) ∧
      (resolve again [Secrets.of ((ruleJson (listRule 250)).get "destination")]).dest = .ok wire := by
  obtain ⟨i, hparse⟩ := list_parse 250
  have hparsed := parsed hparse
  have hid : i.id = none := (Option.some.inj hparsed.id).symm
  have hfilter : i.filter = "sender" := (Option.some.inj hparsed.filter).symm
  have hdest : i.dest = smsDest := (Option.some.inj hparsed.dest).symm
  have hname : i.name = "rule" := hparsed.name.trans (by decide)
  have hkeywords : i.keywords = "" := hparsed.keywords.trans (by decide)
  have htrim : i.patterns = typedList 250 := hparsed.patterns.trans (Trimmed.of_visible fun c hc => (typed_chars c hc).1)
  have hnumber : i.value "sms_number" = "+1 555 0123" := by
    unfold Input.value
    rw [hparsed.values, posted_values _ (f := smsNumber) (by decide)]
    decide
  have hparts : ruleParts i = .ok ("rule", filterJson (listRule 250).filter) := by
    rw [ruleParts_ok, partsErrors_nil, hname, hkeywords, htrim]
    refine ⟨⟨by decide, by decide, ?_, by decide⟩, rfl, ?_⟩
    · rw [textError_none, length_typed]
      exact ⟨by decide, List.any_eq_false.mpr fun c hc => by rw [(typed_chars c hc).2]; decide⟩
    · exact filterOf_eq hfilter (by rw [htrim]; exact split_typed (by decide)) (by rw [hkeywords]; rfl)
  have hok : (resolve i (sourcesOf none none)).dest = .ok [("type", .str "sms"), ("forward_number", .str "+15550123")] := by
    have hpart : textPart i smsNumber = { wire := [("forward_number", .str "+15550123")] } := by
      unfold textPart
      rw [hnumber]
      rfl
    rw [resolve_ok, sms_parts _ hdest, hpart, hdest]
    · rfl
    · rw [sms_parts _ hdest, hpart]
      exact fun part hmem => by rw [List.mem_singleton.mp hmem]
  refine ⟨i, _, hparse, hparts, hok, hid, rfl, rfl, fun h => ?_⟩
  obtain ⟨again, hagain, hrule, -⟩ := h
  obtain ⟨j, hj, hback⟩ := edit_read (r := listRule 250) (by decide) (fun n hn => (nomatch hn)) (Nat.zero_le _)
  cases hj.symm.trans hagain
  have hread : Parts (listRule 250).name (listRule 250).filter := ⟨by decide, trimmed_iff.mpr (by decide), by decide, list_item, fun p hp => (nomatch hp)⟩
  have hfit := ((back_parts hread hback).mp hrule).1
  rw [show patternsOf (listRule 250).filter = List.replicate 250 "a" from rfl, joined_typed] at hfit
  exact absurd hfit (by decide)

end OpenU60.Web.Forward
