/-
  OpenU60.Web.EditTypes — the destination types of an edited rule (see `OpenU60.Web.Edit`).

  A rule that was stored as it was sent (`Stored`) has the destination that its form is posted back with,
  for each of the types.
  - `dest_unchanged`: the shown destination is accepted again, and is the same.
-/

import OpenU60.Web.EditDest

namespace OpenU60.Web.Forward

open OpenU60.Lib OpenU60.SmsForward

abbrev tgToken : Field := ⟨"tg_token", "bot_token", .secret, true, ""⟩
abbrev tgChat : Field := ⟨"tg_chat", "chat_id", .text, true, ""⟩
abbrev tgSilent : Field := ⟨"tg_silent", "silent", .check, false, ""⟩
abbrev whUrl : Field := ⟨"wh_url", "url", .secretUrl, true, ""⟩
abbrev whMethod : Field := ⟨"wh_method", "method", .method, false, "POST"⟩
abbrev whHeaders : Field := ⟨"wh_h", "headers", .headers, false, ""⟩
abbrev smsNumber : Field := ⟨"sms_number", "forward_number", .tel, true, ""⟩
abbrev ntUrl : Field := ⟨"nt_url", "url", .url, true, "https://ntfy.sh"⟩
abbrev ntTopic : Field := ⟨"nt_topic", "topic", .text, true, ""⟩
abbrev ntToken : Field := ⟨"nt_token", "token", .secret, false, ""⟩
abbrev dcUrl : Field := ⟨"dc_url", "webhook_url", .secretUrl, true, ""⟩
abbrev slUrl : Field := ⟨"sl_url", "webhook_url", .secretUrl, true, ""⟩

abbrev telegramDest : Dest := ⟨"telegram", [tgToken, tgChat, tgSilent]⟩
abbrev webhookDest : Dest := ⟨"webhook", [whUrl, whMethod, whHeaders]⟩
abbrev smsDest : Dest := ⟨"sms", [smsNumber]⟩
abbrev ntfyDest : Dest := ⟨"ntfy", [ntUrl, ntTopic, ntToken]⟩
abbrev discordDest : Dest := ⟨"discord", [dcUrl]⟩
abbrev slackDest : Dest := ⟨"slack", [slUrl]⟩

/-- A rule with the destination that was sent for an accepted form. -/
structure Stored (input : Input) (sources : List Secrets) (r : ForwardRule) (wire : List (String × Json)) : Prop where
  trimmed : ∀ f ∈ input.dest.fields, Trimmed (input.value f.name)
  filled : ∀ s ∈ sources, s.Filled
  accepted : (resolve input sources).dest = .ok wire
  sent : destinationJson r.destination = .obj wire

variable {input j : Input} {sources : List Secrets} {r : ForwardRule} {wire : List (String × Json)}

/-! ## The type -/

theorem destOr_self {d : Dest} (hd : d ∈ dests) : (destOr (some d.key)).1 = d := by
  have hall : ∀ d ∈ dests, (destOr (some d.key)).1 = d := by decide
  exact hall d hd

theorem public_type {d : Json} {spec : Dest} (hspec : spec ∈ dests) (htype : (d.get "type").asStr = some spec.key) :
    ((publicDestination d).get "type").asStr = some spec.key := by
  unfold publicDestination
  rw [htype, Option.bind_some, dest_self hspec]
  rfl

theorem Stored.type (h : Stored input sources r wire) : ((destinationJson r.destination).get "type").asStr = some input.dest.key := by
  rw [h.sent, (Forward.accepted h.accepted).2]
  rfl

theorem Stored.spec (h : Stored input sources r wire) : (specOf r).1 = input.dest := by
  unfold specOf
  rw [public_type input.known h.type, destOr_self input.known]

/-- The rule's own secrets. -/
def ownSecrets (r : ForwardRule) : Secrets := Secrets.of (destinationJson r.destination)

theorem Stored.own (h : Stored input sources r wire) (hback : PostedBack r j) : Own j (ownSecrets r) := by
  unfold ownSecrets Secrets.of
  rw [h.type, Option.bind_some, dest_self input.known]
  exact ⟨(congrArg Dest.key (hback.dest.trans h.spec)).symm, rfl⟩

/-- A posted field of its type. -/
theorem Stored.value (h : Stored input sources r wire) (hback : PostedBack r j) {f : Field} (hf : f ∈ input.dest.fields) (hkind : f.kind ≠ .headers) :
    j.value f.name = backValue (publicDestination (destinationJson r.destination)) f := by
  refine hback.values f ?_ hkind
  rw [h.spec]
  exact hf

/-! ## Parts that were accepted -/

/-- The secret of an accepted part. -/
theorem secret_ok {server : String} {f : Field} (hfilled : ∀ s ∈ sources, s.Filled) (hname : f.required = true → f.name ≠ "nt_token")
    (herr : (secretPart input sources server f).errors = []) :
    (f.required = false ∧ (secretPart input sources server f).wire = []) ∨
      ∃ v, (secretPart input sources server f).wire = [(f.key, .str v)] ∧ v ≠ "" ∧ textError v textMax = none := by
  obtain ⟨hchosen, hfit⟩ := secretPart_ok herr
  by_cases hempty : (chosenSecret input sources server f).1 = ""
  · cases hrequired : f.required with
    | true => exact absurd hempty (chosenSecret_filled hfilled hrequired (hname hrequired) hchosen)
    | false =>
      refine .inl ⟨rfl, ?_⟩
      unfold secretPart
      dsimp only
      rw [hempty, hrequired]
      rfl
  · exact .inr ⟨_, if_pos hempty, hempty, hfit⟩

theorem requiredSecret_ok {server : String} {f : Field} (hfilled : ∀ s ∈ sources, s.Filled) (hrequired : f.required = true) (hname : f.name ≠ "nt_token")
    (herr : (secretPart input sources server f).errors = []) :
    ∃ v, (secretPart input sources server f).wire = [(f.key, .str v)] ∧ v ≠ "" ∧ textError v textMax = none := by
  cases secret_ok hfilled (fun _ => hname) herr with
  | inl hnone => exact absurd (hrequired.symm.trans hnone.1) (by decide)
  | inr hsome => exact hsome

/-- Parts without errors that send the stored destination. -/
theorem Stored.unchanged (h : Stored input sources r wire) (hback : PostedBack r j) (hok : ∀ part ∈ resolveParts j [ownSecrets r], part.errors = [])
    (hsame : destinationJson r.destination = .obj (("type", .str input.dest.key) :: (resolveParts j [ownSecrets r]).flatMap (·.wire))) :
    (resolve j [ownSecrets r]).dest = .ok wire := by
  rw [resolve_ok hok, hback.dest, h.spec, ← Json.obj.inj (h.sent.symm.trans hsame)]

/-- What was sent, part by part. -/
theorem Stored.wires (h : Stored input sources r wire) :
    destinationJson r.destination = .obj (("type", .str input.dest.key) :: (resolveParts input sources).flatMap (·.wire)) := by
  rw [h.sent, (Forward.accepted h.accepted).2]

theorem Stored.parts (h : Stored input sources r wire) : ∀ part ∈ resolveParts input sources, part.errors = [] := (Forward.accepted h.accepted).1

theorem Stored.dest {d : Dest} (h : Stored input sources r wire) (hd : d ∈ dests)
    (htype : ((destinationJson r.destination).get "type").asStr = some d.key) : input.dest = d :=
  dest_of_key input.known hd (Option.some.inj (h.type.symm.trans htype))

/-! ## Telegram -/

variable {t c u m n : String} {b : Bool} {hs : List HttpHeader} {o : Option String}

theorem of_telegram (ht : t ≠ "") : Secrets.of (destinationJson (.telegram t c b)) =
    { dest := "telegram", saved := true, server := telegramServer, fields := [("tg_token", t)] } := by
  simp [Secrets.of, destinationJson, Json.get, Json.asStr, Forward.dest, dests, Secrets.secretField, Secrets.urlOf, ht]

theorem telegram_parts (sources : List Secrets) (h : input.dest = telegramDest) : resolveParts input sources =
    [secretPart input sources telegramServer tgToken, textPart input tgChat, { wire := [("silent", .bool (input.value "tg_silent" = "1"))] }] := by
  have hserver : resolvedServer input sources = telegramServer := by
    unfold resolvedServer
    rw [h]
    rfl
  unfold resolveParts urlFields
  rw [h, hserver]
  rfl

theorem telegram_unchanged (h : Stored input sources r wire) (hback : PostedBack r j) (hr : r.destination = .telegram t c b) :
    (resolve j [ownSecrets r]).dest = .ok wire := by
  have hdest : input.dest = telegramDest := h.dest (by decide) (by rw [hr]; rfl)
  have hparts := h.parts
  have hwires := h.wires
  rw [telegram_parts sources hdest] at hparts hwires
  obtain ⟨v, hv, hfill, hfit⟩ := requiredSecret_ok h.filled rfl (by decide) (hparts _ List.mem_cons_self)
  rw [hr, hdest, List.flatMap_cons, hv] at hwires
  obtain ⟨rfl, hc, hb⟩ : t = v ∧ c = input.value "tg_chat" ∧ b = decide (input.value "tg_silent" = "1") := by
    simpa [destinationJson, textPart] using hwires
  have hpublic : publicDestination (destinationJson r.destination) =
      .obj [("type", .str "telegram"), ("chat_id", .str c), ("silent", .bool b), ("kept", strings (if t = "" then [] else ["tg_token"]))] := by
    rw [hr, publicDestination_telegram]
  have hmem : ∀ f ∈ telegramDest.fields, f ∈ input.dest.fields := fun f hf => by rw [hdest]; exact hf
  have htoken : j.value "tg_token" = "" := h.value hback (f := tgToken) (hmem _ (by decide)) (by decide)
  have hchat : j.value "tg_chat" = input.value "tg_chat" := by
    rw [h.value hback (f := tgChat) (hmem _ (by decide)) (by decide), hpublic, hc]
    exact h.trimmed tgChat (hmem _ (by decide))
  have hsilent : decide (j.value "tg_silent" = "1") = decide (input.value "tg_silent" = "1") := by
    have hvalue : j.value "tg_silent" = if some b = some true then "1" else "" := by
      rw [h.value hback (f := tgSilent) (hmem _ (by decide)) (by decide), hpublic]
      rfl
    rw [hvalue, ← hb]
    cases b with
    | true => decide
    | false => decide
  have hown : ownSecrets r = { dest := "telegram", saved := true, server := telegramServer, fields := [("tg_token", t)] } := by
    unfold ownSecrets
    rw [hr, of_telegram hfill]
  have hsecret : secretPart j [ownSecrets r] telegramServer tgToken = { wire := [("bot_token", .str t)] } :=
    secret_kept (f := tgToken) (h.own hback) htoken hback.token (by rw [hown]) (by rw [hown]; rfl) hfill hfit
  have hback' := telegram_parts [ownSecrets r] (hback.dest.trans (h.spec.trans hdest))
  rw [hsecret, text_same (f := tgChat) hchat, hsilent] at hback'
  refine h.unchanged hback ?_ ?_
  · rw [hback']
    intro part hpart
    cases List.mem_cons.mp hpart with
    | inl heq => rw [heq]
    | inr hrest => exact hparts part (List.mem_cons_of_mem _ hrest)
  · rw [hback', hr, hdest, hc, hb]
    rfl

/-! ## SMS -/

theorem sms_parts (sources : List Secrets) (h : input.dest = smsDest) : resolveParts input sources = [textPart input smsNumber] := by
  unfold resolveParts urlFields
  rw [h]
  rfl

theorem publicDestination_sms : publicDestination (destinationJson (.sms n)) =
    .obj [("type", .str "sms"), ("forward_number", .str n), ("kept", strings [])] := by
  simp [publicDestination, destinationJson, Json.get, Json.asStr, Forward.dest, dests, publicField, keptField]

theorem cleanNumber_idem (n : String) : cleanNumber (cleanNumber n) = cleanNumber n := by
  unfold cleanNumber
  rw [String.toList_ofList, List.filter_filter]
  simp only [Bool.and_self]

/-- A number that was accepted has no blanks. -/
theorem numberError_trimmed (h : numberError n = none) : Trimmed n := by
  unfold numberError at h
  split at h
  · cases h
  · split at h
    · cases h
    · rename_i hbad
      rw [Bool.not_eq_true, Bool.or_eq_false_iff, Bool.not_eq_false'] at hbad
      refine .of_visible fun c hc => ?_
      have hchar := List.all_eq_true.mp hbad.2 c hc
      rw [Bool.or_eq_true] at hchar
      cases hchar with
      | inl halnum => exact (alphanum_visible halnum).1
      | inr hmark =>
        have hall : "+*#".toList.all (fun c => !Text.isWhitespace c) = true := by decide
        simpa using List.all_eq_true.mp hall c (List.contains_iff_mem.mp hmark)

theorem tel_ok {f : Field} (hkind : f.kind = .tel) (h : (textPart input f).errors = []) : numberError (cleanNumber (input.value f.name)) = none := by
  have hnone := Option.map_eq_none_iff.mp (Option.toList_eq_nil_iff.mp h)
  split at hnone
  · cases hnone
  · exact hnone

theorem tel_same {f : Field} (hkind : f.kind = .tel) (hn : numberError n = none) (hclean : cleanNumber n = n) (hvalue : j.value f.name = n) :
    textPart j f = { wire := [(f.key, .str n)] } := by
  have hsome : n ≠ "" := by
    intro hempty
    subst hempty
    cases hn
  unfold textPart
  dsimp only
  rw [hvalue, hclean, if_neg fun h => hsome h.1, if_pos hkind, if_pos hkind, hn]
  rfl

theorem sms_unchanged (h : Stored input sources r wire) (hback : PostedBack r j) (hr : r.destination = .sms n) :
    (resolve j [ownSecrets r]).dest = .ok wire := by
  have hdest : input.dest = smsDest := h.dest (by decide) (by rw [hr]; rfl)
  have hparts := h.parts
  have hwires := h.wires
  rw [sms_parts sources hdest] at hparts hwires
  rw [hr, hdest] at hwires
  obtain rfl : n = cleanNumber (input.value "sms_number") := by simpa [destinationJson, textPart] using hwires
  have hn := tel_ok (f := smsNumber) rfl (hparts _ List.mem_cons_self)
  have hvalue : j.value "sms_number" = cleanNumber (input.value "sms_number") := by
    rw [h.value hback (f := smsNumber) (by rw [hdest]; decide) (by decide), hr, publicDestination_sms]
    exact numberError_trimmed hn
  have hback' := sms_parts [ownSecrets r] (hback.dest.trans (h.spec.trans hdest))
  rw [tel_same (f := smsNumber) rfl hn (cleanNumber_idem _) hvalue] at hback'
  refine h.unchanged hback ?_ ?_
  · rw [hback']
    intro part hpart
    rw [List.mem_singleton.mp hpart]
  · rw [hback', hr, hdest]
    rfl

/-! ## Discord and Slack -/

variable {d : Dest} {f : Field}

theorem hook_parts (sources : List Secrets) (h : input.dest.fields = [f]) (hkind : f.kind = .secretUrl) : resolveParts input sources = [urlPart input sources f, {}] := by
  have hurl : urlFields input = [f] := by
    unfold urlFields
    rw [h, List.filter_cons, hkind]
    rfl
  unfold resolveParts
  rw [hurl, h, List.map_singleton, List.map_singleton]
  unfold fieldPart
  rw [hkind]
  rfl

/-- A type with a secret URL alone. -/
theorem hook_unchanged (h : Stored input sources r wire) (hback : PostedBack r j) (hd : d ∈ dests) (hfields : d.fields = [f]) (hkind : f.kind = .secretUrl)
    (hr : destinationJson r.destination = .obj [("type", .str d.key), (f.key, .str u)]) : (resolve j [ownSecrets r]).dest = .ok wire := by
  have hf : f ∈ d.fields := by rw [hfields]; exact List.mem_singleton_self f
  have hdest : input.dest = d := h.dest hd (by rw [hr]; rfl)
  have hjdest : j.dest = d := hback.dest.trans (h.spec.trans hdest)
  have hparts := h.parts
  have hwires := h.wires
  rw [hook_parts sources (hdest ▸ hfields) hkind] at hparts hwires
  obtain ⟨v, hv, hwire⟩ := urlPart_ok (hparts _ List.mem_cons_self)
  rw [hr, hdest, List.flatMap_cons, hwire] at hwires
  obtain rfl : u = v := by simpa using hwires
  have hvalue : j.value f.name = "" := by
    rw [h.value hback (f := f) (by rw [hdest]; exact hf) (by rw [hkind]; decide)]
    unfold backValue
    rw [hkind]
  have hget : (ownSecrets r).get f.name = some u := by
    have hstr : ((Json.obj [("type", .str d.key), (f.key, .str u)]).get f.key).asStr = some u := by
      have hne : ("type" == f.key) = false := beq_eq_false_iff_ne.mpr (key_ne_type hd hf).symm
      unfold Json.get
      dsimp only
      rw [List.find?_cons, hne, List.find?_cons, beq_self_eq_true]
      rfl
    unfold ownSecrets Secrets.of Secrets.get
    rw [h.type, Option.bind_some, dest_self input.known, hr]
    dsimp only
    rw [hdest, hfields, List.filterMap_cons, Secrets.secretField, hstr]
    simp [hkind, hv.some]
  have hback' := hook_parts [ownSecrets r] (hjdest ▸ hfields) hkind
  rw [(secretUrl_kept (h.own hback) hkind hvalue hget hv).2] at hback'
  refine h.unchanged hback ?_ ?_
  · rw [hback']
    intro part hpart
    cases List.mem_cons.mp hpart with
    | inl heq => rw [heq]
    | inr hrest => exact hparts part (List.mem_cons_of_mem _ hrest)
  · rw [hback', hr, hdest]
    rfl

/-! ## ntfy -/

theorem ntfy_parts (sources : List Secrets) (h : input.dest = ntfyDest) : resolveParts input sources =
    [urlPart input sources ntUrl, {}, textPart input ntTopic, secretPart input sources (origin (chosenUrl input sources ntUrl).1) ntToken] := by
  have hurl : resolvedUrl input sources = (chosenUrl input sources ntUrl).1 := resolvedUrl_eq (by rw [h]; decide) (.inl rfl)
  have hserver : resolvedServer input sources = origin (chosenUrl input sources ntUrl).1 := by
    unfold resolvedServer
    rw [h, hurl]
    rfl
  unfold resolveParts urlFields
  rw [h, hserver]
  rfl

theorem of_ntfy (ho : o ≠ some "") : Secrets.of (destinationJson (.ntfy u t o)) =
    { dest := "ntfy", saved := true, server := origin u, url := u, fields := o.toList.map ("nt_token", ·) } := by
  cases o with
  | none => simp [Secrets.of, destinationJson, Json.get, Json.asStr, Forward.dest, dests, Secrets.secretField, Secrets.urlOf]
  | some v =>
    have hv : v ≠ "" := fun hempty => ho (congrArg some hempty)
    simp [Secrets.of, destinationJson, Json.get, Json.asStr, Forward.dest, dests, Secrets.secretField, Secrets.urlOf, hv]

/-- A shown address is shown as it is. -/
theorem shown_back (h : UrlOk u) : onText Text.trim (shownUrl (shownUrl u)) = shownUrl u := by
  obtain ⟨hvisible, s, r, hsplit, -⟩ := Url.checkUrl_spec h.checked
  have hshown : shownUrl (shownUrl u) = shownUrl u := by
    unfold shownUrl onText
    rw [String.toList_ofList, Url.shownUrl_idem hsplit]
  rw [hshown]
  refine Trimmed.of_visible fun c hc => hvisible c (Url.mem_shownUrl ?_)
  rw [← String.toList_ofList (l := Url.shownUrl u.toList)]
  exact hc

theorem ntfy_sent (h : Stored input sources r wire) (hr : r.destination = .ntfy u t o) : input.dest = ntfyDest ∧ UrlOk u ∧ t = input.value "nt_topic" ∧
    (textPart input ntTopic).errors = [] ∧ ∀ v ∈ o, v ≠ "" ∧ textError v textMax = none := by
  have hdest : input.dest = ntfyDest := h.dest (by decide) (by rw [hr]; rfl)
  have hparts := h.parts
  have hwires := h.wires
  rw [ntfy_parts sources hdest] at hparts hwires
  obtain ⟨v, hv, hwire⟩ := urlPart_ok (hparts _ List.mem_cons_self)
  have htopic := hparts (textPart input ntTopic) (by simp)
  have hlast := hparts (secretPart input sources (origin (chosenUrl input sources ntUrl).1) ntToken) (by simp)
  rw [hr, hdest, List.flatMap_cons, List.flatMap_cons, List.flatMap_cons, List.flatMap_singleton, hwire] at hwires
  refine ⟨hdest, ?_⟩
  cases secret_ok (f := ntToken) h.filled (by decide) hlast with
  | inl hnone =>
    rw [hnone.2] at hwires
    cases o with
    | none =>
      obtain ⟨rfl, ht⟩ : u = v ∧ t = input.value "nt_topic" := by simpa [destinationJson, textPart] using hwires
      exact ⟨hv, ht, htopic, fun w hw => (by cases hw)⟩
    | some w => simp [destinationJson, textPart] at hwires
  | inr hsome =>
    obtain ⟨w, hw, hfill, hfit⟩ := hsome
    rw [hw] at hwires
    cases o with
    | none => simp [destinationJson, textPart] at hwires
    | some x =>
      obtain ⟨rfl, ht, rfl⟩ : u = v ∧ t = input.value "nt_topic" ∧ x = w := by simpa [destinationJson, textPart] using hwires
      exact ⟨hv, ht, htopic, fun y hy => (by cases hy; exact ⟨hfill, hfit⟩)⟩

theorem ntfy_unchanged (h : Stored input sources r wire) (hback : PostedBack r j) (hr : r.destination = .ntfy u t o) :
    (resolve j [ownSecrets r]).dest = .ok wire := by
  obtain ⟨hdest, hu, ht, htopic, htoken⟩ := ntfy_sent h hr
  have hjdest : j.dest = ntfyDest := hback.dest.trans (h.spec.trans hdest)
  have hmem : ∀ f ∈ ntfyDest.fields, f ∈ input.dest.fields := fun f hf => by rw [hdest]; exact hf
  have hpublic : publicDestination (destinationJson r.destination) = .obj [("type", .str "ntfy"), ("url", .str (shownUrl u)), ("topic", .str t),
      ("kept", strings (if o.getD "" = "" then [] else ["nt_token"]))] := by
    rw [hr, publicDestination_ntfy]
  have hurl : j.value "nt_url" = shownUrl u := by
    rw [h.value hback (f := ntUrl) (hmem _ (by decide)) (by decide), hpublic]
    exact shown_back hu
  have htopic' : j.value "nt_topic" = input.value "nt_topic" := by
    rw [h.value hback (f := ntTopic) (hmem _ (by decide)) (by decide), hpublic, ht]
    exact h.trimmed ntTopic (hmem _ (by decide))
  have hempty : j.value "nt_token" = "" := h.value hback (f := ntToken) (hmem _ (by decide)) (by decide)
  have hown := h.own hback
  have hsecrets : ownSecrets r = { dest := "ntfy", saved := true, server := origin u, url := u, fields := o.toList.map ("nt_token", ·) } := by
    unfold ownSecrets
    rw [hr, of_ntfy fun ho => (htoken "" (by rw [ho]; rfl)).1 rfl]
  obtain ⟨hchosen, hpart⟩ := url_kept (f := ntUrl) hown rfl hurl (by rw [hsecrets]) hu
  have hback' := ntfy_parts [ownSecrets r] hjdest
  have hlast : secretPart j [ownSecrets r] (origin u) ntToken = { wire := o.toList.map fun v => ("token", .str v) } := by
    cases o with
    | none => exact secret_absent hown hempty (by rw [hsecrets]; rfl) rfl
    | some v =>
      obtain ⟨hfill, hfit⟩ := htoken v rfl
      exact secret_kept (f := ntToken) hown hempty hback.token (by rw [hsecrets]) (by rw [hsecrets]; rfl) hfill hfit
  rw [hchosen, hpart, text_same (f := ntTopic) htopic', hlast] at hback'
  refine h.unchanged hback ?_ ?_
  · rw [hback']
    simpa using htopic
  · rw [hback', hr, hdest, ht]
    cases o with
    | none => rfl
    | some v => rfl

/-! ## Webhook -/

theorem webhook_parts (sources : List Secrets) (h : input.dest = webhookDest) : resolveParts input sources =
    [urlPart input sources whUrl, {}, { wire := [("method", .str (if input.value "wh_method" = "PUT" then "PUT" else "POST"))] },
      headersPart input sources (chosenUrl input sources whUrl).1 whHeaders] := by
  have hurl : resolvedUrl input sources = (chosenUrl input sources whUrl).1 := resolvedUrl_eq (by rw [h]; decide) (.inr rfl)
  unfold resolveParts urlFields
  rw [h, hurl]
  rfl

theorem headerJson_inj {a b : HttpHeader} (h : headerJson a = headerJson b) : a = b := by
  have hboth : a.name = b.name ∧ a.value = b.value := by simpa [headerJson] using h
  cases a
  cases b
  obtain ⟨rfl, rfl⟩ := hboth
  rfl

/-- A header as it is typed into a row. -/
def pairOf (h : HttpHeader) : String × String := (h.name, h.value)

theorem savedHeaders_json (hs : List HttpHeader) : (asArray (.arr (hs.map headerJson))).filterMap
    (fun h => (h.get "name").asStr.bind fun n => (h.get "value").asStr.map (n, ·)) = hs.map pairOf := by
  unfold asArray
  dsimp only
  rw [List.filterMap_map, ← List.filterMap_eq_map]
  exact List.filterMap_congr fun h _ => by simp [headerJson, Json.get, Json.asStr, pairOf]

theorem of_webhook (hu : u ≠ "") : Secrets.of (destinationJson (.webhook u m hs)) =
    { dest := "webhook", saved := true, server := origin u, url := u, fields := [("wh_url", u)], headers := hs.map pairOf } := by
  have hget : (destinationJson (.webhook u m hs)).get "headers" = .arr (hs.map headerJson) := rfl
  have hsaved : Secrets.savedHeaders (destinationJson (.webhook u m hs)) whHeaders = hs.map pairOf := by
    unfold Secrets.savedHeaders
    rw [hget, savedHeaders_json]
  have hspec : ((destinationJson (.webhook u m hs)).get "type").asStr.bind Forward.dest = some webhookDest := rfl
  have hurl : Secrets.urlOf (destinationJson (.webhook u m hs)) webhookDest.fields = u := rfl
  have hfields : webhookDest.fields.filterMap (Secrets.secretField (destinationJson (.webhook u m hs))) = [("wh_url", u)] := by
    simp [Secrets.secretField, destinationJson, Json.get, Json.asStr, hu]
  have hheaders : (webhookDest.fields.filter (·.kind = .headers)) = [whHeaders] := by decide
  unfold Secrets.of
  rw [hspec]
  dsimp only
  rw [hurl, hfields, hheaders, List.flatMap_singleton, hsaved]
  rfl

/-- What is known of an accepted webhook. -/
theorem webhook_sent (h : Stored input sources r wire) (hr : r.destination = .webhook u m hs) : input.dest = webhookDest ∧ UrlOk u ∧ (m = "PUT" ∨ m = "POST") ∧
    hs.length = input.headers.length ∧ ∀ x ∈ hs, HeaderOk (pairOf x) := by
  have hdest : input.dest = webhookDest := h.dest (by decide) (by rw [hr]; rfl)
  have hparts := h.parts
  have hwires := h.wires
  rw [webhook_parts sources hdest] at hparts hwires
  obtain ⟨v, hv, hwire⟩ := urlPart_ok (hparts _ List.mem_cons_self)
  obtain ⟨hlen, hall⟩ := headerRows_ok (hparts (headersPart input sources (chosenUrl input sources whUrl).1 whHeaders) (by simp))
  rw [hr, hdest, List.flatMap_cons, hwire] at hwires
  generalize hsent : (headerRows sources (chosenUrl input sources whUrl).1 [] 0 input.headers).flatMap (·.sent) = sent at hlen hall
  obtain ⟨rfl, hm, hheaders⟩ : u = v ∧ m = (if input.value "wh_method" = "PUT" then "PUT" else "POST") ∧
      hs.map headerJson = sent.map fun h => headerJson ⟨h.1, h.2⟩ := by
    simpa [destinationJson, headersPart, hsent] using hwires
  have hpairs : hs.map pairOf = sent := by
    have hsame : hs.map headerJson = (sent.map fun h => (⟨h.1, h.2⟩ : HttpHeader)).map headerJson := by
      rw [hheaders, List.map_map]
      rfl
    rw [List.map_injective_iff.mpr (fun _ _ => headerJson_inj) hsame, List.map_map]
    exact List.map_id sent
  refine ⟨hdest, hv, ?_, ?_, ?_⟩
  · rw [hm]
    split
    · exact .inl rfl
    · exact .inr rfl
  · rw [← hlen, ← hpairs, List.length_map]
  · intro x hx
    refine hall _ ?_
    rw [← hpairs]
    exact List.mem_map_of_mem hx

theorem webhook_unchanged (h : Stored input sources r wire) (hback : PostedBack r j) (hr : r.destination = .webhook u m hs)
    (hrows : j.headers = hs.map fun x => (x.name, "")) : (resolve j [ownSecrets r]).dest = .ok wire := by
  obtain ⟨hdest, hu, hm, -, hall⟩ := webhook_sent h hr
  have hmem : ∀ f ∈ webhookDest.fields, f ∈ input.dest.fields := fun f hf => by rw [hdest]; exact hf
  have hempty : j.value "wh_url" = "" := h.value hback (f := whUrl) (hmem _ (by decide)) (by decide)
  have hput : (if m = "PUT" then "PUT" else "POST") = m := by
    cases hm with
    | inl hput => rw [if_pos hput, hput]
    | inr hpost => rw [hpost]; decide
  have hmethod : j.value "wh_method" = m := by
    have hvalue : j.value "wh_method" = if m = "PUT" then "PUT" else "POST" := by
      rw [h.value hback (f := whMethod) (hmem _ (by decide)) (by decide), hr, publicDestination_webhook, withHost, if_neg hu.some]
      rfl
    rw [hvalue, hput]
  have hown := h.own hback
  have hsecrets : ownSecrets r =
      { dest := "webhook", saved := true, server := origin u, url := u, fields := [("wh_url", u)], headers := hs.map pairOf } := by
    unfold ownSecrets
    rw [hr, of_webhook hu.some]
  obtain ⟨hchosen, hpart⟩ := secretUrl_kept (f := whUrl) hown rfl hempty (by rw [hsecrets]; rfl) hu
  have hpairs : j.headers = (hs.map pairOf).map fun h => (h.1, "") := by
    rw [hrows, List.map_map]
    rfl
  have hheaders : (ownSecrets r).headers = [] ++ hs.map pairOf := by
    rw [hsecrets]
    rfl
  have hset : ∀ x ∈ hs.map pairOf, HeaderOk x := by
    intro x hx
    obtain ⟨y, hy, rfl⟩ := List.mem_map.mp hx
    exact hall y hy
  have hnone : TakenBefore ([] : List (String × String)).length [] :=
    fun place => ⟨fun hplace => absurd hplace List.not_mem_nil, fun hplace => absurd hplace.2 (Nat.not_lt_zero _)⟩
  have htype : (ownSecrets r).dest = "webhook" := by rw [hsecrets]
  have hurl : (ownSecrets r).url = u := by rw [hsecrets]
  obtain ⟨herrors, hsent⟩ := rows_kept htype hurl hheaders hset hnone
  rw [← hpairs, List.length_nil] at herrors hsent
  have hback' := webhook_parts [ownSecrets r] (hback.dest.trans (h.spec.trans hdest))
  rw [hchosen, hpart] at hback'
  refine h.unchanged hback ?_ ?_
  · rw [hback']
    intro part hpart
    simp only [List.mem_cons, List.not_mem_nil, or_false] at hpart
    obtain rfl | rfl | rfl | rfl := hpart
    · rfl
    · rfl
    · rfl
    · exact herrors
  · have hsame : (hs.map pairOf).map (fun h => headerJson ⟨h.1, h.2⟩) = hs.map headerJson := by
      rw [List.map_map]
      rfl
    have hlist : (headersPart j [ownSecrets r] u whHeaders).wire = [("headers", .arr (hs.map headerJson))] := by
      unfold headersPart
      dsimp only
      rw [hsent, hsame]
    rw [hback', hr, hdest, hmethod, hput]
    simp [destinationJson, hlist]

/-! ## Every type -/

def headersOf : ForwardDestination → List HttpHeader
  | .webhook _ _ headers => headers
  | .telegram _ _ _ | .sms _ | .ntfy _ _ _ | .discord _ | .slack _ => []

theorem unfilled_headers (r : ForwardRule) : (unfilled r).headers = (headersOf r.destination).map fun x => (x.name, "") := by
  unfold unfilled
  dsimp only
  cases r.destination with
  | telegram t c b => rw [publicDestination_telegram]; rfl
  | sms n => rw [publicDestination_sms]; rfl
  | ntfy u t o => rw [publicDestination_ntfy]; rfl
  | discord u =>
    rw [publicDestination_discord, withHost]
    by_cases hu : u = ""
    · rw [if_pos hu]; rfl
    · rw [if_neg hu]; rfl
  | slack u =>
    rw [publicDestination_slack, withHost]
    by_cases hu : u = ""
    · rw [if_pos hu]; rfl
    · rw [if_neg hu]; rfl
  | webhook u m hs =>
    have hnames : (asArray (strings (hs.map (·.name)))).filterMap (fun n => n.asStr.map (·, "")) = hs.map fun x => (x.name, "") := by
      unfold strings asArray
      dsimp only
      rw [List.filterMap_map, List.filterMap_map, ← List.filterMap_eq_map]
      rfl
    rw [publicDestination_webhook, withHost]
    by_cases hu : u = ""
    · rw [if_pos hu]; exact hnames
    · rw [if_neg hu]; exact hnames

/-- The rows that are shown may be posted. -/
theorem Stored.rows (h : Stored input sources r wire) (hlen : input.headers.length ≤ maxHeaders) :
    (∀ n ∈ (unfilled r).headers, headerName n.1 = true) ∧ (unfilled r).headers.length ≤ maxHeaders := by
  rw [unfilled_headers]
  cases hr : r.destination with
  | webhook u m hs =>
    obtain ⟨-, -, -, hcount, hall⟩ := webhook_sent h hr
    refine ⟨fun n hn => ?_, by rw [List.length_map]; exact hcount ▸ hlen⟩
    obtain ⟨x, hx, rfl⟩ := List.mem_map.mp hn
    exact (hall x hx).name
  | telegram t c b => exact ⟨fun n hn => (nomatch hn), Nat.zero_le _⟩
  | sms n => exact ⟨fun n hn => (nomatch hn), Nat.zero_le _⟩
  | ntfy u t o => exact ⟨fun n hn => (nomatch hn), Nat.zero_le _⟩
  | discord u => exact ⟨fun n hn => (nomatch hn), Nat.zero_le _⟩
  | slack u => exact ⟨fun n hn => (nomatch hn), Nat.zero_le _⟩

/-- The shown destination is accepted again, and is the same. -/
theorem dest_unchanged (h : Stored input sources r wire) (hback : PostedBack r j) : (resolve j [ownSecrets r]).dest = .ok wire := by
  cases hr : r.destination with
  | telegram t c b => exact telegram_unchanged h hback hr
  | sms n => exact sms_unchanged h hback hr
  | ntfy u t o => exact ntfy_unchanged h hback hr
  | discord u => exact hook_unchanged (d := discordDest) (f := dcUrl) (u := u) h hback (by decide) rfl rfl (by rw [hr]; rfl)
  | slack u => exact hook_unchanged (d := slackDest) (f := slUrl) (u := u) h hback (by decide) rfl rfl (by rw [hr]; rfl)
  | webhook u m hs =>
    refine webhook_unchanged h hback hr ?_
    rw [hback.headers, unfilled_headers, hr, List.map_map]
    rfl

end OpenU60.Web.Forward
