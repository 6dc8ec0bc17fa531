/-
  OpenU60.Web.Redacted — the forwarding pages show no secret.

  Two configuration reads, or two posted forms, differ in secrets (`ReadDiffer`, `InputDiffer`) where they
  agree but for the text of tokens, header values, secret URLs other than the host, and the user
  name, password, query and fragment of a server address.
  - `pages_show_no_secret`: a page's view is the same for all that differ in secrets if every URL in it
    is plain and the schemes of secret URLs agree where that matters; where one is not plain, some
    read or form that differs in secrets alone shows something else.
  - `secrets_on_pages`: a user name typed into an address without a scheme, and a host that stands in
    a query.
-/

import Mathlib
import OpenU60.Web.Forward
import OpenU60.Web.UrlHost

namespace OpenU60.Web.Forward

open OpenU60.Lib OpenU60.SmsForward

/-! ## Differing in secrets -/

def HeaderDiffer (h h' : HttpHeader) : Prop := h.name = h'.name ∧ (h.value = "" ↔ h'.value = "")

inductive DestDiffer : ForwardDestination → ForwardDestination → Prop
  | telegram {t t' : String} (chatId : String) (silent : Bool) : (t = "" ↔ t' = "") →
      DestDiffer (.telegram t chatId silent) (.telegram t' chatId silent)
  | webhook {u u' : String} {hs hs' : List HttpHeader} (method : String) : Url.Secretly u.toList u'.toList →
      List.Forall₂ HeaderDiffer hs hs' → DestDiffer (.webhook u method hs) (.webhook u' method hs')
  | sms (forwardNumber : String) : DestDiffer (.sms forwardNumber) (.sms forwardNumber)
  | ntfy {u u' : String} {t t' : Option String} (topic : String) : Url.SecretsDiffer u.toList u'.toList →
      (t.getD "" = "" ↔ t'.getD "" = "") → DestDiffer (.ntfy u topic t) (.ntfy u' topic t')
  | discord {u u' : String} : Url.Secretly u.toList u'.toList → DestDiffer (.discord u) (.discord u')
  | slack {u u' : String} : Url.Secretly u.toList u'.toList → DestDiffer (.slack u) (.slack u')

def RuleDiffer (r r' : ForwardRule) : Prop :=
  r' = { r with destination := r'.destination } ∧ DestDiffer r.destination r'.destination

def ReadDiffer (c c' : SmsForwardConfig) : Prop := c' = { c with rules := c'.rules } ∧ List.Forall₂ RuleDiffer c.rules c'.rules

/-- A posted field's text, by its kind. -/
def FieldDiffer : Kind → String → String → Prop
  | .secret, v, v' => v = "" ↔ v' = ""
  | .secretUrl, v, v' => Url.Secretly v.toList v'.toList
  | .url, v, v' => Url.SecretsDiffer v.toList v'.toList
  | _, v, v' => v = v'

/-- A header row; a name that is not one may hold a value, too. -/
def RowDiffer (h h' : String × String) : Prop :=
  (h.1 = h'.1 ∨ headerName h.1 = false ∧ headerName h'.1 = false) ∧ (h.1 = "" ↔ h'.1 = "") ∧ (h.2 = "" ↔ h'.2 = "")

structure InputDiffer (i i' : Input) : Prop where
  id : i'.id = i.id
  name : i'.name = i.name
  filter : i'.filter = i.filter
  patterns : i'.patterns = i.patterns
  keywords : i'.keywords = i.keywords
  dest : i'.dest = i.dest
  fields : ∀ f ∈ dests.flatMap (·.fields), FieldDiffer f.kind (i.value f.name) (i'.value f.name)
  others : ∀ name, (∀ f ∈ dests.flatMap (·.fields), f.name ≠ name) → i'.value name = i.value name
  headers : List.Forall₂ RowDiffer i.headers i'.headers
  rows : i'.rows = i.rows
  clearToken : i'.clearToken = i.clearToken

/-- The forms as posted: the boxes with secrets, and the header rows as they are read. -/
structure FormDiffer (form form' : Form) : Prop where
  fields : ∀ f ∈ dests.flatMap (·.fields), FieldDiffer f.kind (postedField form f) (postedField form' f)
  rows : ∀ i < maxHeaders, RowDiffer (postedRow form i) (postedRow form' i)
  boxes : ∀ i < maxHeaders, (form' ("wh_hn" ++ toString i)).isSome = (form ("wh_hn" ++ toString i)).isSome
  others : ∀ name ∈ ["id", "ft", "dt", "name", "patterns", "keywords", "wh_method", "nt_token_clear"], form' name = form name

/-! ## Plain ones -/

def secretUrlOf : ForwardDestination → Option String
  | .webhook u _ _ => some u
  | .discord u => some u
  | .slack u => some u
  | _ => none

def serverUrlOf : ForwardDestination → Option String
  | .ntfy u _ _ => some u
  | _ => none

def DestPlain (d : ForwardDestination) : Prop :=
  (∀ u ∈ secretUrlOf d, Url.SecretPlain u.toList) ∧ ∀ u ∈ serverUrlOf d, Url.Plain u.toList

def DestAgree (d d' : ForwardDestination) : Prop :=
  ∀ u ∈ secretUrlOf d, ∀ v ∈ secretUrlOf d', Url.SchemesAgree u.toList v.toList

def ReadPlain (c : SmsForwardConfig) : Prop := ∀ r ∈ c.rules, DestPlain r.destination

def SchemesAgree (c c' : SmsForwardConfig) : Prop :=
  List.Forall₂ (fun r r' : ForwardRule => DestAgree r.destination r'.destination) c.rules c'.rules

/-- The server address of a form. -/
def InputPlain (i : Input) : Prop := Url.Plain (i.value "nt_url").toList

/-! ## What a rule shows -/

variable {u u' : String} {d d' : ForwardDestination}

theorem onText_congr (f : List Char → List Char) : onText f u' = onText f u ↔ f u'.toList = f u.toList := by
  unfold onText
  rw [← String.toList_inj, String.toList_ofList, String.toList_ofList]

/-- What is shown of a rule with a secret URL. -/
def withHost (type field u : String) (rest : List (String × Json)) : Json :=
  .obj (("type", .str type) :: (if u = "" then [] else [("host", .str (host u))]) ++ rest ++
    [("kept", strings (if u = "" then [] else [field]))])

theorem publicDestination_telegram (t chatId : String) (silent : Bool) : publicDestination (destinationJson (.telegram t chatId silent)) =
    .obj [("type", .str "telegram"), ("chat_id", .str chatId), ("silent", .bool silent),
      ("kept", strings (if t = "" then [] else ["tg_token"]))] := by
  by_cases ht : t = "" <;>
    simp [publicDestination, destinationJson, Json.get, Json.asStr, Json.asBool, dest, dests, publicField, keptField, ht]

theorem headers_shown (hs : List HttpHeader) :
    publicField (.obj [("headers", .arr (hs.map headerJson))]) ⟨"wh_h", "headers", .headers, false, ""⟩ =
      [("headers", strings (hs.map (·.name)))] := by
  have hname : ∀ h : HttpHeader, ((headerJson h).get "name").asStr = some h.name := fun h => by simp [headerJson, Json.get, Json.asStr]
  have hnames : (hs.map headerJson).filterMap (fun h => (h.get "name").asStr) = hs.map (·.name) := by
    rw [List.filterMap_map, ← List.filterMap_eq_map]
    exact List.filterMap_congr fun h _ => hname h
  have hget : (Json.obj [("headers", .arr (hs.map headerJson))]).get "headers" = .arr (hs.map headerJson) := by simp [Json.get]
  unfold publicField
  dsimp only
  rw [hget]
  unfold asArray
  dsimp only
  rw [hnames]

theorem publicDestination_webhook (method : String) (hs : List HttpHeader) : publicDestination (destinationJson (.webhook u method hs)) =
    withHost "webhook" "wh_url" u [("method", .str method), ("headers", strings (hs.map (·.name)))] := by
  have hheaders : ∀ fields : List (String × Json), publicField (.obj (("type", .str "webhook") :: ("url", .str u) :: ("method", .str method) :: fields))
      ⟨"wh_h", "headers", .headers, false, ""⟩ = publicField (.obj fields) ⟨"wh_h", "headers", .headers, false, ""⟩ := by
    intro fields
    simp [publicField, Json.get]
  have hspec : ((destinationJson (.webhook u method hs)).get "type").asStr.bind dest = dests[1]? := by
    simp [destinationJson, Json.get, Json.asStr, dest, dests]
  have hrest : publicDestination (destinationJson (.webhook u method hs)) = withHost "webhook" "wh_url" u
      (("method", .str method) :: publicField (destinationJson (.webhook u method hs)) ⟨"wh_h", "headers", .headers, false, ""⟩) := by
    unfold publicDestination withHost
    rw [hspec]
    by_cases hu : u = "" <;> simp [dests, publicField, keptField, destinationJson, Json.get, Json.asStr, hu]
  rw [hrest]
  unfold destinationJson
  rw [hheaders, headers_shown]

theorem publicDestination_ntfy (topic : String) (t : Option String) : publicDestination (destinationJson (.ntfy u topic t)) =
    .obj [("type", .str "ntfy"), ("url", .str (shownUrl u)), ("topic", .str topic),
      ("kept", strings (if t.getD "" = "" then [] else ["nt_token"]))] := by
  cases t with
  | none => simp [publicDestination, destinationJson, Json.get, Json.asStr, dest, dests, publicField, keptField]
  | some t =>
    by_cases ht : t = "" <;> simp [publicDestination, destinationJson, Json.get, Json.asStr, dest, dests, publicField, keptField, ht]

theorem publicDestination_discord : publicDestination (destinationJson (.discord u)) = withHost "discord" "dc_url" u [] := by
  by_cases hu : u = "" <;>
    simp [publicDestination, destinationJson, Json.get, Json.asStr, dest, dests, publicField, keptField, withHost, hu]

theorem publicDestination_slack : publicDestination (destinationJson (.slack u)) = withHost "slack" "sl_url" u [] := by
  by_cases hu : u = "" <;>
    simp [publicDestination, destinationJson, Json.get, Json.asStr, dest, dests, publicField, keptField, withHost, hu]

/-! ## Destinations -/

theorem empty_iff (h : Url.Secretly u.toList u'.toList) : u = "" ↔ u' = "" := by
  have hnil : ∀ s : String, s = "" ↔ s.toList = [] := fun s => by rw [← String.toList_inj]; rfl
  rw [hnil, hnil]
  exact h.empty

theorem withHost_iff (type field : String) (rest : List (String × Json)) (h : u = "" ↔ u' = "") :
    withHost type field u' rest = withHost type field u rest ↔ host u' = host u := by
  unfold withHost
  by_cases hu : u = ""
  · have hu' := h.mp hu
    subst hu hu'
    exact iff_of_true rfl rfl
  · have hu' : u' ≠ "" := fun e => hu (h.mpr e)
    simp [hu, hu']

theorem withHost_same (type field : String) (rest : List (String × Json)) (h : Url.Secretly u.toList u'.toList)
    (hu : Url.SecretPlain u.toList) : withHost type field u' rest = withHost type field u rest ↔ Url.SchemesAgree u.toList u'.toList := by
  rw [withHost_iff type field rest (empty_iff h)]
  exact (onText_congr Url.host).trans (Url.host_same hu h)

theorem dest_same (h : DestDiffer d d') (hd : DestPlain d) :
    publicDestination (destinationJson d') = publicDestination (destinationJson d) ↔ DestAgree d d' := by
  have hagree : ∀ {d d' : ForwardDestination} {u u' : String}, secretUrlOf d = some u → secretUrlOf d' = some u' →
      (DestAgree d d' ↔ Url.SchemesAgree u.toList u'.toList) := by
    intro d d' u u' hd hd'
    unfold DestAgree
    rw [hd, hd']
    exact ⟨fun h => h u rfl u' rfl, fun h _ h₁ _ h₂ => by cases h₁; cases h₂; exact h⟩
  have hfree : ∀ {d d' : ForwardDestination}, secretUrlOf d = none → DestAgree d d' := by
    intro d d' hd u hu
    rw [hd] at hu
    cases hu
  cases h with
  | telegram chatId silent hempty =>
    rw [publicDestination_telegram, publicDestination_telegram, if_congr hempty.symm rfl rfl]
    exact iff_of_true rfl (hfree rfl)
  | @webhook u u' hs hs' method hurl hheaders =>
    have hnames : hs'.map (·.name) = hs.map (·.name) := by
      clear hd hurl
      induction hheaders with
      | nil => rfl
      | cons h _ ih => rw [List.map_cons, List.map_cons, ih, h.1]
    rw [publicDestination_webhook, publicDestination_webhook, hnames, withHost_same _ _ _ hurl (hd.1 u rfl)]
    exact (hagree rfl rfl).symm
  | sms forwardNumber => exact iff_of_true rfl (hfree rfl)
  | @ntfy u u' t t' topic hurl htoken =>
    have hshown : shownUrl u' = shownUrl u := (onText_congr Url.shownUrl).mpr (Url.shownUrl_same (hd.2 u rfl) hurl)
    have hkept : (if t'.getD "" = "" then [] else ["nt_token"]) = if t.getD "" = "" then [] else ["nt_token"] :=
      if_congr htoken.symm rfl rfl
    rw [publicDestination_ntfy, publicDestination_ntfy, hshown, hkept]
    exact iff_of_true rfl (hfree rfl)
  | @discord u u' hurl =>
    rw [publicDestination_discord, publicDestination_discord, withHost_same _ _ _ hurl (hd.1 u rfl)]
    exact (hagree rfl rfl).symm
  | @slack u u' hurl =>
    rw [publicDestination_slack, publicDestination_slack, withHost_same _ _ _ hurl (hd.1 u rfl)]
    exact (hagree rfl rfl).symm

/-- Another secret URL, or server address, that shows something else. -/
theorem dest_leaks (hd : ¬ DestPlain d) : ∃ d', DestDiffer d d' ∧ DestAgree d d' ∧
    publicDestination (destinationJson d') ≠ publicDestination (destinationJson d) := by
  have hsecret : ∀ {u : String}, ¬ Url.SecretPlain u.toList → ∃ u' : String, Url.Secretly u.toList u'.toList ∧
      Url.SchemesAgree u.toList u'.toList ∧ ∀ type field rest, withHost type field u' rest ≠ withHost type field u rest := by
    intro u hu
    obtain ⟨v, hv, hagree, hne⟩ := Url.host_leaks hu
    have htext : (String.ofList v).toList = v := String.toList_ofList
    refine ⟨String.ofList v, by rw [htext]; exact hv, by rw [htext]; exact hagree, fun type field rest h => hne ?_⟩
    have hhost := (withHost_iff type field rest (empty_iff (by rw [htext]; exact hv))).mp h
    have := (onText_congr Url.host).mp hhost
    rwa [htext] at this
  have hrefl : ∀ hs : List HttpHeader, List.Forall₂ HeaderDiffer hs hs := fun hs =>
    List.forall₂_same.mpr fun h _ => ⟨rfl, Iff.rfl⟩
  unfold DestPlain at hd
  cases d with
  | telegram | sms => exact absurd ⟨fun u hu => (by cases hu), fun u hu => (by cases hu)⟩ hd
  | webhook u method hs =>
    obtain ⟨u', hdiffer, hagree, hne⟩ := hsecret fun h => hd ⟨fun _ hu => (by cases hu; exact h), fun u hu => (by cases hu)⟩
    refine ⟨.webhook u' method hs, .webhook method hdiffer (hrefl hs), fun _ h₁ _ h₂ => (by cases h₁; cases h₂; exact hagree), ?_⟩
    rw [publicDestination_webhook, publicDestination_webhook]
    exact hne _ _ _
  | ntfy u topic t =>
    have hu : ¬ Url.Plain u.toList := fun h => hd ⟨fun u hu => (by cases hu), fun _ hu => (by cases hu; exact h)⟩
    obtain ⟨v, hv, hne⟩ := Url.shownUrl_leaks hu
    have htext : (String.ofList v).toList = v := String.toList_ofList
    refine ⟨.ntfy (String.ofList v) topic t, .ntfy topic (by rw [htext]; exact hv) Iff.rfl, fun _ h => (by cases h), fun h => hne ?_⟩
    rw [publicDestination_ntfy, publicDestination_ntfy] at h
    simp only [Json.obj.injEq, List.cons.injEq, Prod.mk.injEq, Json.str.injEq, true_and, and_true] at h
    have := (onText_congr Url.shownUrl).mp h
    rwa [htext] at this
  | discord u =>
    obtain ⟨u', hdiffer, hagree, hne⟩ := hsecret fun h => hd ⟨fun _ hu => (by cases hu; exact h), fun u hu => (by cases hu)⟩
    refine ⟨.discord u', .discord hdiffer, fun _ h₁ _ h₂ => (by cases h₁; cases h₂; exact hagree), ?_⟩
    rw [publicDestination_discord, publicDestination_discord]
    exact hne _ _ _
  | slack u =>
    obtain ⟨u', hdiffer, hagree, hne⟩ := hsecret fun h => hd ⟨fun _ hu => (by cases hu; exact h), fun u hu => (by cases hu)⟩
    refine ⟨.slack u', .slack hdiffer, fun _ h₁ _ h₂ => (by cases h₁; cases h₂; exact hagree), ?_⟩
    rw [publicDestination_slack, publicDestination_slack]
    exact hne _ _ _

/-! ## Configuration reads -/

theorem publicRule_json (r : ForwardRule) : publicRule (ruleJson r) =
    .obj [("id", .int r.id.toNat), ("name", .str r.name), ("enabled", .bool r.enabled), ("filter", filterJson r.filter),
      ("destination", publicDestination (destinationJson r.destination))] := by
  simp [publicRule, ruleJson, Json.get]

theorem publicConfig_json (c : SmsForwardConfig) (revision lastForwardedId : Nat) : publicConfig (configRead c revision lastForwardedId) =
    .obj [("enabled", .bool c.enabled), ("poll_interval_secs", .int c.pollIntervalSecs),
      ("mark_read_after_forward", .bool c.markReadAfterForward), ("delete_after_forward", .bool c.deleteAfterForward),
      ("last_forwarded_id", .int ((Json.int lastForwardedId).asU64.getD 0)),
      ("rules", .arr (c.rules.map fun r => publicRule (ruleJson r)))] := by
  simp [publicConfig, configRead, configJson, Json.get, Json.asBool, asArray]

theorem rule_same {r r' : ForwardRule} (h : RuleDiffer r r') (hr : DestPlain r.destination) :
    publicRule (ruleJson r') = publicRule (ruleJson r) ↔ DestAgree r.destination r'.destination := by
  rw [← dest_same h.2 hr, publicRule_json, publicRule_json, h.1]
  simp

theorem rules_same {rs rs' : List ForwardRule} (h : List.Forall₂ RuleDiffer rs rs') (hrs : ∀ r ∈ rs, DestPlain r.destination) :
    rs'.map (fun r => publicRule (ruleJson r)) = rs.map (fun r => publicRule (ruleJson r)) ↔
      List.Forall₂ (fun r r' : ForwardRule => DestAgree r.destination r'.destination) rs rs' := by
  induction h with
  | nil => exact iff_of_true rfl .nil
  | cons hr _ ih =>
    rw [List.map_cons, List.map_cons, List.cons.injEq, List.forall₂_cons, rule_same hr (hrs _ (List.mem_cons_self ..)),
      ih fun r hm => hrs r (List.mem_cons_of_mem _ hm)]

theorem read_same {c c' : SmsForwardConfig} (h : ReadDiffer c c') (hc : ReadPlain c) (revision lastForwardedId : Nat) :
    publicConfig (configRead c' revision lastForwardedId) = publicConfig (configRead c revision lastForwardedId) ↔ SchemesAgree c c' := by
  unfold SchemesAgree
  rw [← rules_same h.2 hc, publicConfig_json, publicConfig_json, h.1]
  simp

theorem destDiffer_refl (d : ForwardDestination) : DestDiffer d d := by
  have hsecretly : ∀ u : String, Url.Secretly u.toList u.toList := fun u => ⟨Iff.rfl, rfl, rfl, rfl, Iff.rfl, rfl, rfl⟩
  cases d with
  | telegram t chatId silent => exact .telegram chatId silent Iff.rfl
  | webhook u method hs => exact .webhook method (hsecretly u) (List.forall₂_same.mpr fun h _ => ⟨rfl, Iff.rfl⟩)
  | sms forwardNumber => exact .sms forwardNumber
  | ntfy u topic t => exact .ntfy topic ⟨rfl, rfl, rfl, rfl, rfl, rfl⟩ Iff.rfl
  | discord u => exact .discord (hsecretly u)
  | slack u => exact .slack (hsecretly u)

theorem read_leaks {c : SmsForwardConfig} (hc : ¬ ReadPlain c) (revision lastForwardedId : Nat) : ∃ c', ReadDiffer c c' ∧ SchemesAgree c c' ∧
    publicConfig (configRead c' revision lastForwardedId) ≠ publicConfig (configRead c revision lastForwardedId) := by
  unfold ReadPlain at hc
  rw [not_forall] at hc
  obtain ⟨r, hc⟩ := hc
  rw [Classical.not_imp] at hc
  obtain ⟨hr, hplain⟩ := hc
  obtain ⟨d', hdiffer, hagree, hne⟩ := dest_leaks hplain
  obtain ⟨before, after, hrules⟩ := List.append_of_mem hr
  have hself : ∀ r : ForwardRule, RuleDiffer r r := fun r => ⟨rfl, destDiffer_refl _⟩
  have hagrees : ∀ r : ForwardRule, DestAgree r.destination r.destination := by
    intro r u hu v hv
    cases hu.symm.trans hv
    exact .inl rfl
  refine ⟨{ c with rules := before ++ { r with destination := d' } :: after }, ⟨rfl, ?_⟩, ?_, fun h => hne ?_⟩
  · rw [hrules]
    exact List.rel_append (List.forall₂_same.mpr fun r _ => hself r) (.cons ⟨rfl, hdiffer⟩ (List.forall₂_same.mpr fun r _ => hself r))
  · unfold SchemesAgree
    rw [hrules]
    exact List.rel_append (List.forall₂_same.mpr fun r _ => hagrees r) (.cons hagree (List.forall₂_same.mpr fun r _ => hagrees r))
  · rw [publicConfig_json, publicConfig_json, hrules] at h
    simpa [publicRule_json] using h

/-! ## Forms -/

/-- What a form shows again under a name. -/
def redactedValue (i : Input) (name : String) : String :=
  match (dests.flatMap (·.fields)).find? (·.name == name) with
  | some f =>
    match f.kind with
    | .secret | .secretUrl => ""
    | .url => shownUrl (i.value name)
    | _ => i.value name
  | none => i.value name

theorem shown_values (i : Input) (name : String) : i.shown.value name = redactedValue i name := by
  have hkeep : ∀ (fields : List Field) (j : Input), (∀ f ∈ fields, f.name ≠ name) → (fields.foldl i.shownField j).value name = j.value name := by
    intro fields
    induction fields with
    | nil => exact fun _ _ => rfl
    | cons f fields ih =>
      intro j hno
      have hne : name ≠ f.name := Ne.symm (hno f (List.mem_cons_self ..))
      rw [List.foldl_cons, ih _ fun g hg => hno g (List.mem_cons_of_mem _ hg)]
      unfold Input.shownField
      split
      all_goals first
        | rfl
        | exact if_neg hne
  -- the last field of a name decides, and no two have one
  have hlast : ∀ (fields : List Field) (j : Input), (fields.map (·.name)).Nodup → (∀ f, fields.find? (·.name == name) = some f → j.value name = i.value name) →
      (fields.foldl i.shownField j).value name =
        match fields.find? (·.name == name) with
        | some f => (i.shownField i f).value name
        | none => j.value name := by
    intro fields
    induction fields with
    | nil => exact fun _ _ _ => rfl
    | cons f fields ih =>
      intro j hnodup hj
      rw [List.map_cons, List.nodup_cons] at hnodup
      rw [List.foldl_cons, List.find?_cons]
      by_cases hf : f.name = name
      · have hrest : ∀ g ∈ fields, g.name ≠ name := fun g hg h => hnodup.1 (by rw [hf, ← h]; exact List.mem_map_of_mem hg)
        have hval : j.value name = i.value name := hj f (by rw [List.find?_cons, hf, beq_self_eq_true])
        rw [hkeep fields _ hrest, hf, beq_self_eq_true]
        dsimp only
        unfold Input.shownField
        split
        all_goals first
          | exact hval
          | exact (if_pos hf.symm).trans (if_pos hf.symm).symm
      · have hbeq : (f.name == name) = false := by simpa using hf
        have hsame : (i.shownField j f).value name = j.value name := hkeep [f] j fun g hg => by
          rw [List.mem_singleton.mp hg]
          exact hf
        rw [ih _ hnodup.2 fun g hg => hsame.trans (hj g (by rw [List.find?_cons, hbeq]; exact hg)), hbeq]
        dsimp only
        rw [hsame]
  have hnodup : ((dests.flatMap (·.fields)).map (·.name)).Nodup := by decide
  have hvalue (shown : Input) (headers : List (String × String)) : ({ shown with headers := headers } : Input).value name = shown.value name := rfl
  refine (hvalue _ _).trans ?_
  rw [hlast _ i hnodup fun _ _ => rfl]
  unfold redactedValue
  cases hfind : (dests.flatMap (·.fields)).find? (·.name == name) with
  | none => rfl
  | some f =>
    have hname : f.name = name := by simpa using List.find?_some hfind
    dsimp only
    unfold Input.shownField
    subst hname
    have hset : ∀ value, (i.set f.name value).value f.name = value := fun _ => if_pos rfl
    cases f.kind
    all_goals first | exact hset _ | rfl

theorem redacted_same {i i' : Input} (h : InputDiffer i i') (hi : InputPlain i) (name : String) :
    redactedValue i' name = redactedValue i name := by
  unfold redactedValue
  cases hfind : (dests.flatMap (·.fields)).find? (·.name == name) with
  | none =>
    refine h.others name fun f hf hname => ?_
    exact List.find?_eq_none.mp hfind f hf (by simpa using hname)
  | some f =>
    have hname : f.name = name := by simpa using List.find?_some hfind
    have hfield := h.fields f (List.mem_of_find?_eq_some hfind)
    subst hname
    dsimp only
    cases hkind : f.kind with
    | secret | secretUrl => rfl
    | url =>
      -- there is one server address
      have hnt : f.name = "nt_url" := by
        have hall : ∀ f ∈ dests.flatMap (·.fields), f.kind = .url → f.name = "nt_url" := by decide
        exact hall f (List.mem_of_find?_eq_some hfind) hkind
      rw [hkind] at hfield
      refine (onText_congr Url.shownUrl).mpr (Url.shownUrl_same ?_ hfield)
      rw [hnt]
      exact hi
    | text | tel | check | method | headers =>
      rw [hkind] at hfield
      exact hfield.symm

/-- Values and headers aside, a form shown again is the form. -/
theorem shown_others (i : Input) : i.shown = { i with values := i.shown.values, headers := i.shown.headers } := by
  have hfold : ∀ (fields : List Field) (j : Input), fields.foldl i.shownField j = { j with values := (fields.foldl i.shownField j).values } := by
    intro fields
    induction fields with
    | nil => exact fun _ => rfl
    | cons f fields ih =>
      intro j
      have hstep : i.shownField j f = { j with values := (i.shownField j f).values } := by
        unfold Input.shownField
        split <;> rfl
      rw [List.foldl_cons, ih, hstep]
  unfold Input.shown
  dsimp only
  rw [hfold]

theorem shown_same {i i' : Input} (h : InputDiffer i i') (hi : InputPlain i) : i'.shown = i.shown := by
  have hheaders : i'.shown.headers = i.shown.headers := by
    show i'.headers.map _ = i.headers.map _
    have hrows := h.headers
    generalize i.headers = rows at hrows
    generalize i'.headers = rows' at hrows
    induction hrows with
    | nil => rfl
    | cons hrow _ ih =>
      rw [List.map_cons, List.map_cons, ih]
      obtain hname | ⟨hbad, hbad'⟩ := hrow.1
      · rw [hname]
      · rw [hbad, hbad']
        rfl
  have hvalues : i'.shown.values = i.shown.values := by
    funext name
    exact (shown_values i' name).trans ((redacted_same h hi name).trans (shown_values i name).symm)
  rw [shown_others i', shown_others i, hvalues, hheaders]
  exact Input.ext h.id h.name h.filter h.patterns h.keywords h.dest rfl rfl h.rows h.clearToken

theorem FieldDiffer.refl (kind : Kind) (v : String) : FieldDiffer kind v v := by
  unfold FieldDiffer
  split
  · exact Iff.rfl
  · exact ⟨Iff.rfl, rfl, rfl, rfl, Iff.rfl, rfl, rfl⟩
  · exact ⟨rfl, rfl, rfl, rfl, rfl, rfl⟩
  · rfl

theorem shown_leaks {i : Input} (hi : ¬ InputPlain i) : ∃ i', InputDiffer i i' ∧ i'.shown ≠ i.shown := by
  obtain ⟨v, hv, hne⟩ := Url.shownUrl_leaks hi
  have htext : (String.ofList v).toList = v := String.toList_ofList
  have hvalue : ∀ name, (i.set "nt_url" (String.ofList v)).value name = if name = "nt_url" then String.ofList v else i.value name := fun _ => rfl
  refine ⟨i.set "nt_url" (String.ofList v), ⟨rfl, rfl, rfl, rfl, rfl, rfl, fun f hf => ?_, fun name hname => ?_, ?_, rfl, rfl⟩, fun h => hne ?_⟩
  · rw [hvalue]
    by_cases hnt : f.name = "nt_url"
    · have hkind : f.kind = .url := by
        have hall : ∀ f ∈ dests.flatMap (·.fields), f.name = "nt_url" → f.kind = .url := by decide
        exact hall f hf hnt
      rw [if_pos hnt, hkind, hnt]
      show Url.SecretsDiffer _ _
      rw [htext]
      exact hv
    · rw [if_neg hnt]
      exact FieldDiffer.refl _ _
  · rw [hvalue, if_neg]
    rintro rfl
    exact hname ⟨"nt_url", "url", .url, true, "https://ntfy.sh"⟩ (by decide) rfl
  · exact List.forall₂_same.mpr fun h _ => ⟨.inl rfl, Iff.rfl, Iff.rfl⟩
  · have hval : (i.set "nt_url" (String.ofList v)).shown.value "nt_url" = i.shown.value "nt_url" := by rw [h]
    have hredacted : ∀ i : Input, redactedValue i "nt_url" = shownUrl (i.value "nt_url") := fun _ => rfl
    rw [shown_values, shown_values, hredacted, hredacted, hvalue, if_pos rfl] at hval
    have := (onText_congr Url.shownUrl).mp hval
    rwa [htext] at this

/-! ### Posted forms -/

theorem find_field {f : Field} (hf : f ∈ dests.flatMap (·.fields)) : (dests.flatMap (·.fields)).find? (·.name == f.name) = some f := by
  have hall : ∀ f ∈ dests.flatMap (·.fields), (dests.flatMap (·.fields)).find? (·.name == f.name) = some f := by decide
  exact hall f hf

theorem posted_values (form : Form) {f : Field} (hf : f ∈ dests.flatMap (·.fields)) : postedValues form f.name = postedField form f := by
  unfold postedValues
  rw [find_field hf]
  rfl

theorem posted_others (form : Form) {name : String} (h : ∀ f ∈ dests.flatMap (·.fields), f.name ≠ name) : postedValues form name = "" := by
  have hnone : (dests.flatMap (·.fields)).find? (·.name == name) = none := by
    rw [List.find?_eq_none]
    exact fun f hf => by simpa using h f hf
  unfold postedValues
  rw [hnone]
  rfl

theorem posted_headers {form form' : Form} (h : ∀ i < maxHeaders, RowDiffer (postedRow form i) (postedRow form' i)) :
    List.Forall₂ RowDiffer (postedHeaders form) (postedHeaders form') := by
  refine List.rel_filter ?_ ?_
  · rintro r r' ⟨-, hname, hvalue⟩
    simp [hname, hvalue]
  · rw [List.forall₂_map_left_iff, List.forall₂_map_right_iff, List.forall₂_same]
    exact fun i hi => h i (List.mem_range.mp hi)

theorem posted_rows {form form' : Form}
    (h : ∀ i < maxHeaders, (form' ("wh_hn" ++ toString i)).isSome = (form ("wh_hn" ++ toString i)).isSome) :
    postedRows form' = postedRows form := by
  have hfind : ∀ {p q : Nat → Bool} (l : List Nat), (∀ i ∈ l, p i = q i) → l.find? p = l.find? q := by
    intro p q l hl
    induction l with
    | nil => rfl
    | cons i l ih => rw [List.find?_cons, List.find?_cons, hl i (List.mem_cons_self ..), ih fun j hj => hl j (List.mem_cons_of_mem _ hj)]
  unfold postedRows
  rw [hfind _ fun i hi => h i (List.mem_range.mp (List.mem_reverse.mp hi))]

/-- Forms that differ in secrets are both refused, or read as such inputs. -/
theorem parse_differ {form form' : Form} (h : FormDiffer form form') : Option.Rel InputDiffer (Input.parse form) (Input.parse form') := by
  have hid : postedId form' = postedId form := by
    unfold postedId
    rw [h.others "id" (by decide)]
  have hft : form' "ft" = form "ft" := h.others "ft" (by decide)
  have hdt : form' "dt" = form "dt" := h.others "dt" (by decide)
  have hmethod : form' "wh_method" = form "wh_method" := h.others "wh_method" (by decide)
  have htext : ∀ name ∈ ["name", "patterns", "keywords"], trimmed form' name = trimmed form name := by
    intro name hname
    unfold trimmed
    rw [h.others name (by revert name; decide)]
  have hheaders : List.Forall₂ RowDiffer (postedHeaders form) (postedHeaders form') := posted_headers h.rows
  have hrows : postedRows form' = postedRows form := posted_rows h.boxes
  have hclear : form' "nt_token_clear" = form "nt_token_clear" := h.others "nt_token_clear" (by decide)
  unfold Input.parse
  rw [hid, hft, hmethod]
  by_cases hok : (form "wh_method").getD "POST" = "POST" ∨ (form "wh_method").getD "POST" = "PUT"
  · simp only [if_pos hok]
    split
    · rename_i id filter d hid hfilter hd
      split
      · rename_i id' filter' d' hid' hfilter' hd'
        obtain rfl : id = id' := Option.some.inj (hid.symm.trans hid')
        obtain rfl : filter = filter' := Option.some.inj (hfilter.symm.trans hfilter')
        rw [hdt] at hd'
        obtain rfl : d = d' := Option.some.inj (hd.symm.trans hd')
        refine .some ⟨rfl, htext "name" (by decide), rfl, htext "patterns" (by decide), htext "keywords" (by decide), rfl, fun f hf => ?_, fun name hname => ?_,
          ?_, ?_, ?_⟩
        · unfold Input.value
          dsimp only
          rw [posted_values form hf, posted_values form' hf]
          exact h.fields f hf
        · exact (posted_others form' hname).trans (posted_others form hname).symm
        · dsimp only
          exact hheaders
        · dsimp only
          exact hrows
        · dsimp only
          rw [hclear]
      · rename_i hno
        rw [hdt] at hno
        exact absurd hd (hno _ _ _ hid hfilter)
    · rename_i hno
      split
      · rename_i id' filter' d' hid' hfilter' hd'
        rw [hdt] at hd'
        exact absurd hd' (hno _ _ _ hid' hfilter')
      · exact .none
  · simp only [if_neg hok]
    split <;> split <;> exact .none

/-- What a page shows of a read or a form is the same for all that differ from it in secrets alone, if its URLs are
    plain and the schemes agree; of one whose URLs are not plain something else is shown for another. -/
theorem pages_show_no_secret (c : SmsForwardConfig) (revision last : Nat) (form : Form) (i : Input) :
    (∀ c', ReadDiffer c c' → ReadPlain c →
      (publicConfig (configRead c' revision last) = publicConfig (configRead c revision last) ↔ SchemesAgree c c')) ∧
    (¬ ReadPlain c → ∃ c', ReadDiffer c c' ∧ SchemesAgree c c' ∧
      publicConfig (configRead c' revision last) ≠ publicConfig (configRead c revision last)) ∧
    (InputPlain i ↔ ∀ i', InputDiffer i i' → i'.shown = i.shown) ∧
    ∀ form', FormDiffer form form' → (∀ i, Input.parse form = some i → InputPlain i) →
      (Input.parse form').map Input.shown = (Input.parse form).map Input.shown := by
  refine ⟨fun c' h hc => read_same h hc revision last, fun hc => read_leaks hc revision last, ?_, fun form' h hplain => ?_⟩
  · constructor
    · exact fun hi i' h => shown_same h hi
    · intro hall
      refine Classical.not_not.mp fun hi => ?_
      obtain ⟨i', hdiffer, hne⟩ := shown_leaks hi
      exact hne (hall i' hdiffer)
  · have hparse := parse_differ h
    generalize Input.parse form' = posted' at hparse
    cases hi : Input.parse form with
    | none =>
      rw [hi] at hparse
      cases hparse
      rfl
    | some i =>
      rw [hi] at hparse
      cases hparse with
      | some hdiffer =>
        rw [Option.map_some, Option.map_some, shown_same hdiffer (hplain i hi)]

/-! ## Secrets that are shown -/

/-- A config with one rule. -/
def withRule (d : ForwardDestination) : SmsForwardConfig := ⟨true, 30, false, false, [⟨1, "rule", true, .all, d, 0⟩]⟩

/-- A user name and password without a scheme. -/
def bareUser (user : String) : SmsForwardConfig := withRule (.ntfy (user ++ "@ntfy.example.com") "t" none)

/-- A host in a query. -/
def hostInQuery (other : String) : SmsForwardConfig := withRule (.slack ("hooks.example.com/x?next=https://" ++ other ++ "/y"))

theorem secrets_on_pages :
    ReadDiffer (bareUser "u:one") (bareUser "u:two") ∧
      publicConfig (configRead (bareUser "u:two") 0 0) ≠ publicConfig (configRead (bareUser "u:one") 0 0) ∧
    ReadDiffer (hostInQuery "a.example") (hostInQuery "b.example") ∧
      publicConfig (configRead (hostInQuery "b.example") 0 0) ≠ publicConfig (configRead (hostInQuery "a.example") 0 0) := by
  refine ⟨⟨rfl, .cons ⟨rfl, .ntfy "t" ?_ Iff.rfl⟩ .nil⟩, ?_, ⟨rfl, .cons ⟨rfl, .slack ?_⟩ .nil⟩, ?_⟩
  · constructor <;> decide
  · intro h
    rw [publicConfig_json, publicConfig_json] at h
    simp only [bareUser, withRule, List.map_cons, List.map_nil, publicRule_json, publicDestination_ntfy, Json.obj.injEq, List.cons.injEq,
      Prod.mk.injEq, Json.arr.injEq, Json.str.injEq, true_and, and_true] at h
    have := (onText_congr Url.shownUrl).mp h
    exact absurd this (by decide)
  · constructor <;> decide
  · intro h
    rw [publicConfig_json, publicConfig_json] at h
    simp only [hostInQuery, withRule, List.map_cons, List.map_nil, publicRule_json, publicDestination_slack, Json.obj.injEq, List.cons.injEq,
      Prod.mk.injEq, Json.arr.injEq, true_and, and_true] at h
    have := (onText_congr Url.host).mp ((withHost_iff "slack" "sl_url" [] (by decide)).mp h)
    exact absurd this (by decide)

end OpenU60.Web.Forward
