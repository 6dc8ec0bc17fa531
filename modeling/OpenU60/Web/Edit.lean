/-
  OpenU60.Web.Edit — Edit Rule: a stored rule taken apart into its form and posted back
  (`zte-agent/src/web/forward.rs`: `list`, `Input::of_rule`, `split`, `rule_parts`;
  `web/pages/forward.rs`: the fields of `form`).

  - `formOf_field`, `formOf_hn`, `formOf_hv`: each box is found under its own name.
  - `postedHeaders_eq`: the header rows are read as they were drawn.
  - `parse_drawn`: what is read of a form that is posted as it was drawn.
-/

import OpenU60.Lib.Decimal
import OpenU60.Web.Redacted

namespace OpenU60.Web.Forward

open OpenU60.Lib OpenU60.SmsForward

/-! ## The code -/

def nameMax : Nat := 100
def listMax : Nat := 500

/-- `list` -/
def listText (v : Json) : String := String.ofList (", ".toList.intercalate ((asArray v).filterMap fun j => j.asStr.map String.toList))

/-- The comma list: trimmed, empties dropped. -/
def split (s : String) : List String := (((s.toList.splitOn ',').map Text.trim).filter (· ≠ [])).map String.ofList

def defaultValue (name : String) : String := (((dests.flatMap (·.fields)).find? (·.name == name)).map (·.default)).getD ""

/-- The type of that key, else the first one. -/
def destOr (key : Option String) : { d : Dest // d ∈ dests } :=
  match h : key.bind dest with
  | some d => ⟨d, by
      obtain ⟨key, -, hd⟩ := Option.bind_eq_some_iff.mp h
      exact List.mem_of_find?_eq_some hd⟩
  | none => ⟨dests.head (List.cons_ne_nil _ _), List.head_mem _⟩

/-- A rule's shown value of one field. -/
def Input.ruleField (d : Json) (i : Input) (f : Field) : Input :=
  match f.kind with
  | .check => i.set f.name (if (d.get f.key).asBool = some true then "1" else "")
  | .text | .tel | .url | .method => i.set f.name ((d.get f.key).asStr.getD f.default)
  | .secret | .secretUrl | .headers => i

/-- Edit Rule: a public rule's shown values. -/
def Input.ofRule (r : Json) : Input :=
  let filter := r.get "filter"
  let d := r.get "destination"
  let spec := destOr (d.get "type").asStr
  spec.1.fields.foldl (Input.ruleField d)
    { id := (r.get "id").asU64.filter (· < 2 ^ 32)
      name := (r.get "name").asStr.getD ""
      filter := (filters.find? fun k => some k = (filter.get "type").asStr).getD "all"
      patterns := listText (filter.get "patterns")
      keywords := listText (filter.get "keywords")
      dest := spec.1
      known := spec.2
      values := defaultValue
      headers := (asArray (d.get "headers")).filterMap fun n => n.asStr.map (·, "")
      rows := 0
      clearToken := false }

def partsErrors (i : Input) : Errors :=
  (if i.name = "" then [("name", required)] else ((textError i.name nameMax).map ("name", ·)).toList) ++
    [("patterns", i.patterns), ("keywords", i.keywords)].flatMap fun f => ((textError f.2 listMax).map (f.1, ·)).toList

def filterOf (i : Input) : Json :=
  if i.filter = "sender" then .obj [("type", .str "sender"), ("patterns", strings (split i.patterns))]
  else if i.filter = "content" then .obj [("type", .str "content"), ("keywords", strings (split i.keywords))]
  else if i.filter = "sender_and_content" then
    .obj [("type", .str "sender_and_content"), ("patterns", strings (split i.patterns)), ("keywords", strings (split i.keywords))]
  else .obj [("type", .str "all")]

def ruleParts (i : Input) : Except Errors (String × Json) :=
  if partsErrors i = [] then .ok (i.name, filterOf i) else .error (partsErrors i)

/-! ### The page's form -/

/-- One row more than are filled and at least two. -/
def formRows (i : Input) : Nat := min (max (max i.rows (i.headers.length + 1)) 2) maxHeaders

/-- What a browser posts of one field as it was drawn; secrets are never filled. -/
def drawnField (i : Input) (f : Field) : List (String × String) :=
  match f.kind with
  | .check => if i.value f.name = "1" then [(f.name, "1")] else []
  | .method => [(f.name, if i.value f.name = "PUT" then "PUT" else "POST")]
  | .secret | .secretUrl => [(f.name, "")]
  | .headers => (List.range (formRows i)).flatMap fun k =>
      [("wh_hn" ++ toString k, ((i.headers[k]?).map (·.1)).getD ""), ("wh_hv" ++ toString k, "")]
  | .text | .url | .tel => [(f.name, i.value f.name)]

/-- The tokens aside, which no parser reads. -/
def drawn (i : Input) : List (String × String) :=
  (i.id.map fun id => ("id", toString id)).toList ++
    [("name", i.name), ("ft", i.filter), ("patterns", i.patterns), ("keywords", i.keywords), ("dt", i.dest.key)] ++
    (dests.flatMap (·.fields)).flatMap (drawnField i)

/-- `Form::get`, the first of a name. -/
def formOf (pairs : List (String × String)) : Form := fun name => (pairs.find? (·.1 == name)).map (·.2)

/-- The form of a rule, drawn without secrets and posted as it is. -/
def postedBack (i : Input) : Form := formOf (drawn i.shown)

variable {i : Input} {f : Field} {name : String} {k : Nat}

/-! ## Looking up -/

abbrev allFields : List Field := dests.flatMap (·.fields)

/-- A header row's box. -/
def isRow (name : String) : Bool := "wh_h".toList.isPrefixOf name.toList && name ≠ "wh_h"

/-- What is not a type's field. -/
def formPairs (i : Input) : List (String × String) :=
  (i.id.map fun id => ("id", toString id)).toList ++
    [("name", i.name), ("ft", i.filter), ("patterns", i.patterns), ("keywords", i.keywords), ("dt", i.dest.key)]

theorem findSome_unique {α β : Type} {l : List α} {g : α → Option β} {a : α} (ha : a ∈ l) (h : ∀ b ∈ l, b ≠ a → g b = none) :
    l.findSome? g = g a := by
  induction l with
  | nil => exact absurd ha List.not_mem_nil
  | cons b l ih =>
    rw [List.findSome?_cons]
    by_cases hb : b = a
    · subst hb
      cases hg : g b with
      | some c => rfl
      | none =>
        refine List.findSome?_eq_none_iff.mpr fun c hc => ?_
        by_cases hcb : c = b
        · rw [hcb, hg]
        · exact h c (List.mem_cons_of_mem b hc) hcb
    · rw [h b List.mem_cons_self hb]
      refine ih ?_ fun c hc => h c (List.mem_cons_of_mem b hc)
      cases List.mem_cons.mp ha with
      | inl heq => exact absurd heq.symm hb
      | inr ha => exact ha

theorem rowName (c : Char) (k : Nat) : isRow ("wh_h" ++ String.singleton c ++ toString k) = true := by
  unfold isRow
  rw [Bool.and_eq_true]
  refine ⟨?_, ?_⟩
  · rw [List.isPrefixOf_iff_prefix, String.toList_append, String.toList_append, List.append_assoc]
    exact List.prefix_append _ _
  · rw [decide_eq_true_eq, ← String.toList_inj.ne, String.toList_append, String.toList_append]
    intro h
    have hlen := congrArg List.length h
    rw [List.length_append, List.length_append] at hlen
    have hone : (String.singleton c).toList.length = 1 := by simp
    omega

theorem row_hn (k : Nat) : isRow ("wh_hn" ++ toString k) = true := rowName 'n' k
theorem row_hv (k : Nat) : isRow ("wh_hv" ++ toString k) = true := rowName 'v' k

/-- A field that is no header list is drawn under its own name. -/
theorem drawnField_own {p : String × String} (hkind : f.kind ≠ .headers) (h : p ∈ drawnField i f) : p.1 = f.name := by
  unfold drawnField at h
  cases hk : f.kind with
  | headers => exact absurd hk hkind
  | check =>
    rw [hk] at h
    dsimp only at h
    split at h
    · cases List.mem_singleton.mp h
      rfl
    · cases h
  | text | url | tel | secret | secretUrl | method =>
    rw [hk] at h
    cases List.mem_singleton.mp h
    rfl

theorem mem_drawnField {p : String × String} (h : p ∈ drawnField i f) : (f.kind ≠ .headers ∧ p.1 = f.name) ∨ isRow p.1 = true := by
  by_cases hkind : f.kind = .headers
  · unfold drawnField at h
    rw [hkind] at h
    obtain ⟨k, -, hk⟩ := List.mem_flatMap.mp h
    cases List.mem_cons.mp hk with
    | inl heq =>
      subst heq
      exact .inr (row_hn k)
    | inr hk =>
      cases List.mem_singleton.mp hk
      exact .inr (row_hv k)
  · exact .inl ⟨hkind, drawnField_own hkind h⟩

theorem mem_formPairs {p : String × String} (h : p ∈ formPairs i) : p.1 ∈ ["id", "name", "ft", "patterns", "keywords", "dt"] := by
  unfold formPairs at h
  cases List.mem_append.mp h with
  | inl h =>
    obtain ⟨id, -, rfl⟩ := Option.map_eq_some_iff.mp (Option.mem_toList.mp h)
    exact List.mem_cons_self
  | inr h =>
    exact List.mem_cons_of_mem "id" (List.mem_map_of_mem (f := Prod.fst) h)

theorem formOf_drawn (i : Input) (name : String) : formOf (drawn i) name =
    (formOf (formPairs i) name).or ((allFields.findSome? fun f => (drawnField i f).find? (·.1 == name)).map (·.2)) := by
  unfold formOf drawn formPairs allFields
  rw [List.find?_append, List.find?_flatMap, Option.map_or]

theorem formPairs_none (h : name ∉ ["id", "name", "ft", "patterns", "keywords", "dt"]) : formOf (formPairs i) name = none := by
  unfold formOf
  rw [Option.map_eq_none_iff, List.find?_eq_none]
  intro p hp heq
  exact h (eq_of_beq heq ▸ mem_formPairs hp)

theorem isRow_fixed : ∀ name ∈ ["id", "name", "ft", "patterns", "keywords", "dt"], isRow name = false := by decide

theorem field_names (hf : f ∈ allFields) : f.name ∉ ["id", "name", "ft", "patterns", "keywords", "dt"] ∧ (f.kind ≠ .headers → isRow f.name = false) ∧
    f.name ≠ "nt_token_clear" := by
  have hall : ∀ f ∈ allFields, f.name ∉ ["id", "name", "ft", "patterns", "keywords", "dt"] ∧ (f.kind ≠ .headers → isRow f.name = false) ∧
      f.name ≠ "nt_token_clear" := by decide
  exact hall f hf

theorem allFields_inj {g : Field} (hf : f ∈ allFields) (hg : g ∈ allFields) (h : f.name = g.name) : f = g := by
  have hall : ∀ f ∈ allFields, ∀ g ∈ allFields, f.name = g.name → f = g := by decide
  exact hall f hf g hg h

/-- A field's value is looked up where the field was drawn. -/
theorem formOf_field (hf : f ∈ allFields) (hkind : f.kind ≠ .headers) : formOf (drawn i) f.name = ((drawnField i f).find? (·.1 == f.name)).map (·.2) := by
  rw [formOf_drawn, formPairs_none (field_names hf).1, Option.none_or, findSome_unique hf]
  intro g hg hne
  rw [List.find?_eq_none]
  intro p hp heq
  cases mem_drawnField hp with
  | inl h => exact hne (allFields_inj hg hf (h.2.symm.trans (eq_of_beq heq)))
  | inr h =>
    rw [eq_of_beq heq, (field_names hf).2.1 hkind] at h
    cases h

theorem formOf_clear (i : Input) : formOf (drawn i) "nt_token_clear" = none := by
  rw [formOf_drawn, formPairs_none (by decide), Option.none_or, Option.map_eq_none_iff, List.findSome?_eq_none_iff]
  intro f hf
  rw [List.find?_eq_none]
  intro p hp heq
  cases mem_drawnField hp with
  | inl h => exact (field_names hf).2.2 (h.2.symm.trans (eq_of_beq heq))
  | inr h =>
    rw [eq_of_beq heq] at h
    exact absurd h (by decide)

/-- No field is drawn under the other names. -/
theorem formOf_pair (i : Input) (h : name ∈ ["id", "name", "ft", "patterns", "keywords", "dt"]) : formOf (drawn i) name = formOf (formPairs i) name := by
  have hnone : (allFields.findSome? fun f => (drawnField i f).find? (·.1 == name)) = none := by
    rw [List.findSome?_eq_none_iff]
    intro f hf
    rw [List.find?_eq_none]
    intro p hp heq
    cases mem_drawnField hp with
    | inl hfield => exact (field_names hf).1 (hfield.2 ▸ (eq_of_beq heq ▸ h))
    | inr hrow =>
      rw [eq_of_beq heq, isRow_fixed name h] at hrow
      cases hrow
  rw [formOf_drawn, hnone]
  exact Option.or_none

theorem formOf_pairs (i : Input) : formOf (drawn i) "id" = i.id.map toString ∧ formOf (drawn i) "name" = some i.name ∧
    formOf (drawn i) "ft" = some i.filter ∧ formOf (drawn i) "patterns" = some i.patterns ∧ formOf (drawn i) "keywords" = some i.keywords ∧
    formOf (drawn i) "dt" = some i.dest.key := by
  rw [formOf_pair i (by decide), formOf_pair i (by decide), formOf_pair i (by decide), formOf_pair i (by decide), formOf_pair i (by decide),
    formOf_pair i (by decide)]
  unfold formOf formPairs
  cases i.id with
  | none => exact ⟨rfl, rfl, rfl, rfl, rfl, rfl⟩
  | some id => exact ⟨rfl, rfl, rfl, rfl, rfl, rfl⟩

/-! ## Header rows -/

theorem row_inj {a b : Char} {j k : Nat} (h : "wh_h" ++ String.singleton a ++ toString j = "wh_h" ++ String.singleton b ++ toString k) : a = b ∧ j = k := by
  rw [← String.toList_inj, String.toList_append, String.toList_append, String.toList_append, String.toList_append, String.toList_singleton,
    String.toList_singleton, List.append_assoc, List.append_assoc] at h
  have hrest := List.append_cancel_left h
  rw [List.singleton_append, List.singleton_append] at hrest
  obtain ⟨hchar, htail⟩ := List.cons.inj hrest
  exact ⟨hchar, Decimal.toString_inj htail⟩

def headersField : Field := ⟨"wh_h", "headers", .headers, false, ""⟩

/-- A header row's boxes. -/
def rowPairs (i : Input) (k : Nat) : List (String × String) :=
  [("wh_hn" ++ toString k, ((i.headers[k]?).map (·.1)).getD ""), ("wh_hv" ++ toString k, "")]

theorem rowPairs_hn (i : Input) (j k : Nat) : (rowPairs i j).find? (·.1 == "wh_hn" ++ toString k) =
    if j = k then some ("wh_hn" ++ toString k, ((i.headers[k]?).map (·.1)).getD "") else none := by
  unfold rowPairs
  have hv : ("wh_hv" ++ toString j == "wh_hn" ++ toString k) = false :=
    beq_eq_false_iff_ne.mpr fun h => absurd (row_inj (a := 'v') (b := 'n') h).1 (by decide)
  by_cases hjk : j = k
  · subst hjk
    rw [List.find?_cons, beq_self_eq_true, if_pos rfl]
  · have hn : ("wh_hn" ++ toString j == "wh_hn" ++ toString k) = false := beq_eq_false_iff_ne.mpr fun h => hjk (row_inj (a := 'n') (b := 'n') h).2
    rw [List.find?_cons, hn, List.find?_cons, hv, if_neg hjk]
    rfl

theorem rowPairs_hv (i : Input) (j k : Nat) : (rowPairs i j).find? (·.1 == "wh_hv" ++ toString k) =
    if j = k then some ("wh_hv" ++ toString k, "") else none := by
  unfold rowPairs
  have hn : ("wh_hn" ++ toString j == "wh_hv" ++ toString k) = false :=
    beq_eq_false_iff_ne.mpr fun h => absurd (row_inj (a := 'n') (b := 'v') h).1 (by decide)
  rw [List.find?_cons, hn, List.find?_cons]
  by_cases hjk : j = k
  · subst hjk
    rw [beq_self_eq_true, if_pos rfl]
  · have hv : ("wh_hv" ++ toString j == "wh_hv" ++ toString k) = false := beq_eq_false_iff_ne.mpr fun h => hjk (row_inj (a := 'v') (b := 'v') h).2
    rw [hv, if_neg hjk]
    rfl

/-- A row's box is looked up in the headers' rows. -/
theorem formOf_row (hrow : isRow name = true) : formOf (drawn i) name =
    (((List.range (formRows i)).findSome? fun j => (rowPairs i j).find? (·.1 == name)).map (·.2)) := by
  have hfixed : name ∉ ["id", "name", "ft", "patterns", "keywords", "dt"] := by
    intro h
    rw [isRow_fixed name h] at hrow
    cases hrow
  rw [formOf_drawn, formPairs_none hfixed, Option.none_or, findSome_unique (a := headersField) (by decide)]
  · show Option.map _ (((List.range (formRows i)).flatMap (rowPairs i)).find? (·.1 == name)) = _
    rw [List.find?_flatMap]
  · intro g hg hne
    rw [List.find?_eq_none]
    intro p hp heq
    have hkind : g.kind ≠ .headers := by
      have hall : ∀ g ∈ allFields, g.kind = .headers → g = headersField := by decide
      exact fun hkind => hne (hall g hg hkind)
    have hown := drawnField_own hkind hp
    have hno := (field_names hg).2.1 hkind
    rw [← hown, eq_of_beq heq, hrow] at hno
    cases hno

theorem findSome_range {α : Type} (n : Nat) (x : Option α) : ((List.range n).findSome? fun j => if j = k then x else none) = if k < n then x else none := by
  by_cases hk : k < n
  · rw [if_pos hk, findSome_unique (List.mem_range.mpr hk) fun j _ hne => if_neg hne, if_pos rfl]
  · rw [if_neg hk, List.findSome?_eq_none_iff]
    intro j hj
    refine if_neg fun heq => hk ?_
    rw [← heq]
    exact List.mem_range.mp hj

theorem formOf_hn (i : Input) (k : Nat) : formOf (drawn i) ("wh_hn" ++ toString k) =
    if k < formRows i then some (((i.headers[k]?).map (·.1)).getD "") else none := by
  rw [formOf_row (row_hn k)]
  simp only [rowPairs_hn, findSome_range]
  split
  · rfl
  · rfl

theorem formOf_hv (i : Input) (k : Nat) : formOf (drawn i) ("wh_hv" ++ toString k) = if k < formRows i then some "" else none := by
  rw [formOf_row (row_hv k)]
  simp only [rowPairs_hv, findSome_range]
  split
  · rfl
  · rfl

/-! ## Reading -/

theorem onText_trim (s : String) : (onText Text.trim s).toList = Text.trim s.toList := String.toList_ofList

/-- A text that trimming leaves alone. -/
def Trimmed (s : String) : Prop := onText Text.trim s = s

theorem trimmed_iff {s : String} : Trimmed s ↔ Text.trim s.toList = s.toList := by
  unfold Trimmed
  rw [← String.toList_inj, onText_trim]

theorem Trimmed.of_visible {s : String} (h : ∀ c ∈ s.toList, Text.isWhitespace c = false) : Trimmed s := trimmed_iff.mpr (Text.trim_visible h)

theorem alphanum_visible {c : Char} (h : c.isAlphanum = true) : Text.isWhitespace c = false ∧ c ≠ ':' := by
  have hall : ∀ n < 0x80, (Char.ofNat n).isAlphanum = true → Text.isWhitespace (Char.ofNat n) = false ∧ Char.ofNat n ≠ ':' := by decide
  exact Text.forall_ascii (p := fun c => c.isAlphanum = true → Text.isWhitespace c = false ∧ c ≠ ':') hall (Text.alphanum_ascii h) h

theorem headerName_spec (h : headerName name = true) : name ≠ "" ∧ Trimmed name ∧ ':' ∉ name.toList := by
  unfold headerName at h
  simp only [Bool.and_eq_true, decide_eq_true_eq] at h
  obtain ⟨⟨hne, -⟩, hchars⟩ := h
  have hvisible : ∀ c ∈ name.toList, Text.isWhitespace c = false ∧ c ≠ ':' := by
    intro c hc
    have htoken := List.all_eq_true.mp hchars c hc
    rw [Bool.or_eq_true, Bool.or_eq_true] at htoken
    cases htoken with
    | inl htoken =>
      cases htoken with
      | inl halnum => exact alphanum_visible halnum
      | inr hmark =>
        have hall : "!#$%&'*+-.^_|~".toList.all (fun c => !Text.isWhitespace c && c ≠ ':') = true := by decide
        simpa using List.all_eq_true.mp hall c (List.contains_iff_mem.mp hmark)
    | inr htick =>
      rw [eq_of_beq htick]
      decide
  exact ⟨hne, .of_visible fun c hc => (hvisible c hc).1, fun hc => (hvisible ':' hc).2 rfl⟩

theorem postedRow_bare {form : Form} {k : Nat} (hname : trimmed form ("wh_hn" ++ toString k) = name) (hvalue : trimmed form ("wh_hv" ++ toString k) = "")
    (hcolon : ':' ∉ name.toList) : postedRow form k = (name, "") := by
  unfold postedRow
  dsimp only
  rw [hname, hvalue, Split.splitOnce_none_of_not_mem hcolon List.mem_cons_self]

/-- A row's name, without a value. -/
theorem postedRow_eq (h : ∀ n ∈ i.headers, headerName n.1 = true) (k : Nat) :
    postedRow (formOf (drawn i)) k = (if k < formRows i then ((i.headers[k]?).map (·.1)).getD "" else "", "") := by
  have hvalue : trimmed (formOf (drawn i)) ("wh_hv" ++ toString k) = "" := by
    unfold trimmed
    rw [formOf_hv]
    split
    · decide
    · decide
  have hname : Trimmed (((i.headers[k]?).map (·.1)).getD "") ∧ ':' ∉ (((i.headers[k]?).map (·.1)).getD "").toList := by
    cases hrow : i.headers[k]? with
    | none => exact ⟨trimmed_iff.mpr rfl, List.not_mem_nil⟩
    | some n => exact (headerName_spec (h n (List.mem_of_getElem? hrow))).2
  by_cases hk : k < formRows i
  · rw [if_pos hk]
    refine postedRow_bare ?_ hvalue hname.2
    unfold trimmed
    rw [formOf_hn, if_pos hk]
    exact hname.1
  · rw [if_neg hk]
    refine postedRow_bare ?_ hvalue List.not_mem_nil
    unfold trimmed
    rw [formOf_hn, if_neg hk]
    decide

theorem map_range_getElem {α : Type} (l : List α) (default : α) : (List.range l.length).map (fun k => l[k]?.getD default) = l := by
  refine List.ext_getElem (by rw [List.length_map, List.length_range]) fun k h _ => ?_
  rw [List.length_map, List.length_range] at h
  rw [List.getElem_map, List.getElem_range, List.getElem?_eq_getElem h]
  rfl

/-- The rows are read as they were drawn, without the blank ones. -/
theorem postedHeaders_eq (h : ∀ n ∈ i.headers, headerName n.1 = true) (hlen : i.headers.length ≤ maxHeaders) :
    postedHeaders (formOf (drawn i)) = i.headers.map fun n => (n.1, "") := by
  have hrows : i.headers.length ≤ formRows i := by
    unfold formRows
    omega
  obtain ⟨m, hm⟩ := Nat.le.dest hlen
  unfold postedHeaders
  rw [← hm, List.range_add, List.map_append, List.filter_append]
  have hblank : (((List.range m).map (i.headers.length + ·)).map (postedRow (formOf (drawn i)))).filter (fun h => h.1 ≠ "" || h.2 ≠ "") = [] := by
    rw [List.filter_eq_nil_iff]
    intro row hrow
    obtain ⟨k, hk, rfl⟩ := List.mem_map.mp hrow
    obtain ⟨j, -, rfl⟩ := List.mem_map.mp hk
    rw [postedRow_eq h, List.getElem?_eq_none (by omega), Option.map_none, Option.getD_none, ite_self]
    decide
  have hfilled : (List.range i.headers.length).map (postedRow (formOf (drawn i))) = i.headers.map fun n => (n.1, "") := by
    rw [← map_range_getElem (i.headers.map fun n => (n.1, "")) ("", ""), List.length_map]
    refine List.map_congr_left fun k hk => ?_
    have hk := List.mem_range.mp hk
    rw [postedRow_eq h, if_pos (by omega), List.getElem?_map]
    cases i.headers[k]? with
    | none => rfl
    | some n => rfl
  have hall : (i.headers.map fun n => (n.1, "")).filter (fun h => h.1 ≠ "" || h.2 ≠ "") = i.headers.map fun n => (n.1, "") := by
    refine List.filter_eq_self.mpr fun row hrow => ?_
    obtain ⟨n, hn, rfl⟩ := List.mem_map.mp hrow
    rw [Bool.or_eq_true, decide_eq_true_eq]
    exact .inl (headerName_spec (h n hn)).1
  rw [hblank, hfilled, hall, List.append_nil]

/-- What is read of a field as it was drawn. -/
def readBack (i : Input) (f : Field) : String :=
  match f.kind with
  | .check => if i.value f.name = "1" then "1" else ""
  | .method => if i.value f.name = "PUT" then "PUT" else "POST"
  | .secret | .secretUrl | .headers => ""
  | .text | .url | .tel => onText Text.trim (i.value f.name)

theorem postedField_eq (hf : f ∈ allFields) (hkind : f.kind ≠ .headers) : postedField (formOf (drawn i)) f = readBack i f := by
  unfold postedField
  rw [formOf_field hf hkind]
  unfold drawnField readBack
  cases hk : f.kind with
  | headers => exact absurd hk hkind
  | check =>
    dsimp only
    by_cases hone : i.value f.name = "1"
    · rw [if_pos hone, if_pos hone, List.find?_cons, beq_self_eq_true]
      exact if_neg (by decide : ("1" : String) ≠ "")
    · rw [if_neg hone, if_neg hone, if_pos rfl]
      exact if_pos rfl
  | method =>
    dsimp only
    rw [List.find?_cons, beq_self_eq_true]
    by_cases hput : i.value f.name = "PUT"
    · rw [if_pos hput]
      exact (by decide : onText Text.trim "PUT" = "PUT")
    · rw [if_neg hput]
      exact (by decide : onText Text.trim "POST" = "POST")
  | secret | secretUrl =>
    dsimp only
    rw [List.find?_cons, beq_self_eq_true]
    exact (by decide : onText Text.trim "" = "")
  | text | url | tel =>
    dsimp only
    rw [List.find?_cons, beq_self_eq_true]
    rfl

theorem postedId_eq {form : Form} {id : Option Nat} (h : form "id" = id.map toString) (hid : ∀ n ∈ id, 0 < n ∧ n < 2 ^ 32) : postedId form = some id := by
  unfold postedId
  rw [h]
  cases id with
  | none => rfl
  | some n =>
    obtain ⟨hpos, hlt⟩ := hid n rfl
    have hne : toString n ≠ "" := by
      intro heq
      have hnil : (toString n).toList = [] := by rw [heq]; rfl
      rw [show (toString n).toList = Nat.toDigits 10 n from Nat.toList_repr] at hnil
      exact Nat.toDigits_ne_nil hnil
    have hdigits : (toString n).toList.all Char.isDigit = true := List.all_eq_true.mpr (Decimal.toString_digits n)
    show (if toString n = "" then some none else ((Text.parseUnsigned (2 ^ 32 - 1) (toString n).toList).filter
      fun m => 0 < m && (toString n).toList.all Char.isDigit).map some) = some (some n)
    rw [if_neg hne, Decimal.parseUnsigned_toString (by omega), hdigits, Option.filter_some, if_pos (by simpa using hpos)]
    rfl

/-- The input that is read of a form as it was drawn. -/
structure ReadBack (i j : Input) : Prop where
  name : j.name = onText Text.trim i.name
  filter : j.filter = i.filter
  patterns : j.patterns = onText Text.trim i.patterns
  keywords : j.keywords = onText Text.trim i.keywords
  dest : j.dest = i.dest
  values : ∀ f ∈ allFields, f.kind ≠ .headers → j.value f.name = readBack i f
  headers : j.headers = i.headers.map fun n => (n.1, "")
  token : j.clearToken = false

theorem dest_self {d : Dest} (hd : d ∈ dests) : dest d.key = some d := by
  have hall : ∀ d ∈ dests, dest d.key = some d := by decide
  exact hall d hd

theorem filters_self {k : String} (hk : k ∈ filters) : (filters.find? fun k' => some k' = some k) = some k := by
  have hall : ∀ k ∈ filters, (filters.find? fun k' => some k' = some k) = some k := by decide
  exact hall k hk

/-- A form is read as it was drawn. -/
theorem parse_drawn (hid : ∀ n ∈ i.id, 0 < n ∧ n < 2 ^ 32) (hfilter : i.filter ∈ filters) (hnames : ∀ n ∈ i.headers, headerName n.1 = true)
    (hlen : i.headers.length ≤ maxHeaders) : ∃ j, Input.parse (formOf (drawn i)) = some j ∧ ReadBack i j := by
  obtain ⟨hpid, hname, hft, hpatterns, hkeywords, hdt⟩ := formOf_pairs i
  have hmethod : (formOf (drawn i) "wh_method").getD "POST" = "POST" ∨ (formOf (drawn i) "wh_method").getD "POST" = "PUT" := by
    have hfield := formOf_field (i := i) (f := ⟨"wh_method", "method", .method, false, "POST"⟩) (by decide) (by decide)
    dsimp only at hfield
    rw [hfield]
    unfold drawnField
    dsimp only
    rw [List.find?_cons, beq_self_eq_true]
    by_cases hput : i.value "wh_method" = "PUT"
    · exact .inr (if_pos hput)
    · exact .inl (if_neg hput)
  have hdest : (formOf (drawn i) "dt").bind dest = some i.dest := by rw [hdt]; exact dest_self i.known
  have hfind : (filters.find? fun k => some k = formOf (drawn i) "ft") = some i.filter := by
    rw [hft]
    exact filters_self hfilter
  have htrimmed : ∀ {n t : String}, formOf (drawn i) n = some t → trimmed (formOf (drawn i)) n = onText Text.trim t := by
    intro n t h
    unfold trimmed
    rw [h]
    rfl
  unfold Input.parse
  simp only [if_pos hmethod]
  split
  · rename_i id filter d hid' hfilter' hd
    rw [hfind] at hfilter'
    rw [hdest] at hd
    cases hfilter'
    cases hd
    refine ⟨_, rfl, htrimmed hname, rfl, htrimmed hpatterns, htrimmed hkeywords, rfl, ?_, ?_, ?_⟩
    · intro f hf hkind
      exact (posted_values _ hf).trans (postedField_eq hf hkind)
    · dsimp only
      exact postedHeaders_eq hnames hlen
    · dsimp only
      rw [formOf_clear]
      rfl
  · rename_i hno
    exact absurd hdest (hno _ _ _ (postedId_eq hpid hid) hfind)

end OpenU60.Web.Forward
