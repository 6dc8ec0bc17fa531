/-
  OpenU60.Web.Forward — the forwarding rules on the web pages (`zte-agent/src/web/forward.rs`): the
  destination types, the config as a page may show it, the rule form, and the merge of saved
  secrets.

  A configuration read is the JSON the agent's handler answers (`configRead`). A JSON object
  is its fields in order; where the source inserts a key, no earlier one is the same. The
  labels of types and fields are left out: no decision reads them.
-/

import OpenU60.Lib.Json
import OpenU60.SmsForward.Model
import OpenU60.Web.Url

namespace OpenU60.Web.Forward

open OpenU60.Lib OpenU60.SmsForward

def urlMax : Nat := 2048
def textMax : Nat := 512

/-- Where Telegram's secrets go. -/
def telegramServer : String := "https://api.telegram.org"

def required : String := "Required."
def again : String := "Enter it again: the server changed."
def againUrl : String := "Enter the value again: the URL changed."
def badUrl : String := "Enter a URL starting with https:// or http://."
def savedUrl : String := "The saved URL does not start with https:// or http://. Enter it again."

/-! ## Destination types -/

inductive Kind where
  | text
  /-- A server address, shown. -/
  | url
  | tel
  /-- Never shown; empty keeps the saved one (same type and server). -/
  | secret
  /-- A URL that is itself the credential: only its host is shown. -/
  | secretUrl
  | check
  | method
  | headers
  deriving DecidableEq

structure Field where
  name : String
  key : String
  kind : Kind
  required : Bool
  default : String := ""
  deriving DecidableEq

structure Dest where
  key : String
  fields : List Field
  deriving DecidableEq

def dests : List Dest :=
  [ ⟨"telegram", [⟨"tg_token", "bot_token", .secret, true, ""⟩, ⟨"tg_chat", "chat_id", .text, true, ""⟩,
      ⟨"tg_silent", "silent", .check, false, ""⟩]⟩,
    ⟨"webhook", [⟨"wh_url", "url", .secretUrl, true, ""⟩, ⟨"wh_method", "method", .method, false, "POST"⟩,
      ⟨"wh_h", "headers", .headers, false, ""⟩]⟩,
    ⟨"sms", [⟨"sms_number", "forward_number", .tel, true, ""⟩]⟩,
    ⟨"ntfy", [⟨"nt_url", "url", .url, true, "https://ntfy.sh"⟩, ⟨"nt_topic", "topic", .text, true, ""⟩,
      ⟨"nt_token", "token", .secret, false, ""⟩]⟩,
    ⟨"discord", [⟨"dc_url", "webhook_url", .secretUrl, true, ""⟩]⟩,
    ⟨"slack", [⟨"sl_url", "webhook_url", .secretUrl, true, ""⟩]⟩ ]

def dest (key : String) : Option Dest := dests.find? (·.key == key)

/-! ## URLs -/

def onText (f : List Char → List Char) (s : String) : String := String.ofList (f s.toList)

def origin : String → String := onText Url.origin
def host : String → String := onText Url.host
def withoutUserinfo : String → String := onText Url.withoutUserinfo
def shownUrl : String → String := onText Url.shownUrl
def checkUrl (url : String) : Bool := Url.checkUrl url.toList

/-! ## What a page may show -/

def strings (l : List String) : Json := .arr (l.map .str)

def asArray : Json → List Json
  | .arr items => items
  | _ => []

/-- What a rule's destination shows of one field. -/
def publicField (d : Json) (f : Field) : List (String × Json) :=
  let v := d.get f.key
  let set := v.asStr.any (· ≠ "")
  match f.kind with
  | .secretUrl => if set then [("host", .str (host (v.asStr.getD "")))] else []
  | .secret => []
  | .headers => [("headers", strings ((asArray v).filterMap fun h => (h.get "name").asStr))]
  | .url => [(f.key, .str (shownUrl (v.asStr.getD "")))]
  | .check => [(f.key, .bool (v.asBool.getD false))]
  | .text | .tel | .method => [(f.key, .str (v.asStr.getD ""))]

/-- The form field, if its secret is kept. -/
def keptField (d : Json) (f : Field) : Option String :=
  if (f.kind = .secret ∨ f.kind = .secretUrl) ∧ (d.get f.key).asStr.any (· ≠ "") = true then some f.name else none

def publicDestination (d : Json) : Json :=
  match (d.get "type").asStr.bind dest with
  | some spec => .obj (("type", .str spec.key) :: spec.fields.flatMap (publicField d) ++ [("kept", strings (spec.fields.filterMap (keptField d)))])
  | none => .obj [("kept", strings [])]

def publicRule (r : Json) : Json :=
  .obj [("id", r.get "id"), ("name", r.get "name"), ("enabled", r.get "enabled"), ("filter", r.get "filter"),
    ("destination", publicDestination (r.get "destination"))]

def publicConfig (data : Json) : Json :=
  let c := data.get "config"
  .obj [("enabled", .bool ((c.get "enabled").asBool.getD false)), ("poll_interval_secs", c.get "poll_interval_secs"),
    ("mark_read_after_forward", .bool ((c.get "mark_read_after_forward").asBool.getD false)),
    ("delete_after_forward", .bool ((c.get "delete_after_forward").asBool.getD false)),
    ("last_forwarded_id", .int ((data.get "last_forwarded_id").asU64.getD 0)),
    ("rules", .arr ((asArray (c.get "rules")).map publicRule))]

/-! ### The agent's JSON -/

def headerJson (h : HttpHeader) : Json := .obj [("name", .str h.name), ("value", .str h.value)]

def destinationJson : ForwardDestination → Json
  | .telegram botToken chatId silent =>
    .obj [("type", .str "telegram"), ("bot_token", .str botToken), ("chat_id", .str chatId), ("silent", .bool silent)]
  | .webhook url method headers =>
    .obj [("type", .str "webhook"), ("url", .str url), ("method", .str method), ("headers", .arr (headers.map headerJson))]
  | .sms forwardNumber => .obj [("type", .str "sms"), ("forward_number", .str forwardNumber)]
  | .ntfy url topic token =>
    .obj ([("type", .str "ntfy"), ("url", .str url), ("topic", .str topic)] ++ token.elim [] fun t => [("token", .str t)])
  | .discord webhookUrl => .obj [("type", .str "discord"), ("webhook_url", .str webhookUrl)]
  | .slack webhookUrl => .obj [("type", .str "slack"), ("webhook_url", .str webhookUrl)]

def filterJson : SmsFilter → Json
  | .all => .obj [("type", .str "all")]
  | .sender patterns => .obj [("type", .str "sender"), ("patterns", strings patterns)]
  | .content keywords => .obj [("type", .str "content"), ("keywords", strings keywords)]
  | .senderAndContent patterns keywords =>
    .obj [("type", .str "sender_and_content"), ("patterns", strings patterns), ("keywords", strings keywords)]

def ruleJson (r : ForwardRule) : Json :=
  .obj [("id", .int r.id.toNat), ("name", .str r.name), ("enabled", .bool r.enabled), ("filter", filterJson r.filter),
    ("destination", destinationJson r.destination)]

def configJson (c : SmsForwardConfig) : Json :=
  .obj [("enabled", .bool c.enabled), ("poll_interval_secs", .int c.pollIntervalSecs),
    ("mark_read_after_forward", .bool c.markReadAfterForward), ("delete_after_forward", .bool c.deleteAfterForward),
    ("rules", .arr (c.rules.map ruleJson))]

/-- The `data` of `config_get`'s answer. -/
def configRead (c : SmsForwardConfig) (revision lastForwardedId : Nat) : Json :=
  .obj [("config", configJson c), ("revision", .int revision), ("last_forwarded_id", .int lastForwardedId)]

/-! ## Secrets -/

/-- The secrets of one destination: what a rule has, or what an answer's form keeps. -/
structure Secrets where
  dest : String := ""
  /-- The rule's own, not typed into the form. -/
  saved : Bool := false
  server : String := ""
  url : String := ""
  /-- By form field name. -/
  fields : List (String × String) := []
  headers : List (String × String) := []
  deriving DecidableEq

namespace Secrets

def secretField (d : Json) (f : Field) : Option (String × String) :=
  let v := (d.get f.key).asStr.getD ""
  if (f.kind = .secret ∨ f.kind = .secretUrl) ∧ v ≠ "" then some (f.name, v) else none

def savedHeaders (d : Json) (f : Field) : List (String × String) :=
  (asArray (d.get f.key)).filterMap fun h => (h.get "name").asStr.bind fun n => (h.get "value").asStr.map (n, ·)

/-- The URL is a type's last one (no type has two). -/
def urlOf (d : Json) (fields : List Field) : String :=
  ((fields.filter fun f => f.kind = .url ∨ f.kind = .secretUrl).getLast?.bind fun f => (d.get f.key).asStr).getD ""

/-- The secrets of a stored destination. -/
def of (d : Json) : Secrets :=
  match (d.get "type").asStr.bind Forward.dest with
  | none => {}
  | some spec =>
    { dest := spec.key
      saved := true
      server := if spec.key = "telegram" then telegramServer else origin (urlOf d spec.fields)
      url := urlOf d spec.fields
      fields := spec.fields.filterMap (secretField d)
      headers := (spec.fields.filter (·.kind = .headers)).flatMap (savedHeaders d) }

def get (s : Secrets) (field : String) : Option String := (s.fields.find? (·.1 == field)).map (·.2)

/-- `eq_ignore_ascii_case`. -/
def sameName (m n : String) : Bool := Url.lower m.toList = Url.lower n.toList

def hasHeader (s : Secrets) (name : String) : Bool := s.dest = "webhook" && s.headers.any (sameName ·.1 name)

end Secrets

/-! ## The rule form -/

def filters : List String := ["all", "sender", "content", "sender_and_content"]

@[ext] structure Input where
  id : Option Nat
  name : String
  filter : String
  patterns : String
  keywords : String
  dest : Dest
  known : dest ∈ dests
  /-- Every type's fields as typed, by form field name. -/
  values : String → String
  /-- Header rows (name, value) as typed, blank rows dropped. -/
  headers : List (String × String)
  rows : Nat
  clearToken : Bool

/-- The value posted under a name. -/
abbrev Form := String → Option String

def trimmed (form : Form) (name : String) : String := onText Text.trim ((form name).getD "")

/-- A field the post lacks takes its default; a checkbox is sent only on. -/
def postedField (form : Form) (f : Field) : String :=
  let raw := (form f.name).getD (if f.kind = .check then "" else f.default)
  match f.kind with
  | .check => if raw = "" then "" else "1"
  | .headers => ""
  | _ => onText Text.trim raw

/-- A header row; "Name: value" in the name box is one. -/
def postedRow (form : Form) (i : Nat) : String × String :=
  let name := trimmed form ("wh_hn" ++ toString i)
  let value := trimmed form ("wh_hv" ++ toString i)
  match Split.splitOnce [':'] name.toList with
  | some (n, v) => if value = "" then (String.ofList (Text.trim n), String.ofList (Text.trim v)) else (name, value)
  | none => (name, value)

def maxHeaders : Nat := 20

def postedValues (form : Form) (name : String) : String :=
  (((dests.flatMap (·.fields)).find? (·.name == name)).map (postedField form)).getD ""

def postedHeaders (form : Form) : List (String × String) :=
  ((List.range maxHeaders).map (postedRow form)).filter fun h => h.1 ≠ "" || h.2 ≠ ""

/-- How many header rows the form had. -/
def postedRows (form : Form) : Nat :=
  (((List.range maxHeaders).reverse.find? fun i => (form ("wh_hn" ++ toString i)).isSome).map (· + 1)).getD 0

/-- `none` is a bad id. -/
def postedId (form : Form) : Option (Option Nat) :=
  match form "id" with
  | none => some none
  | some raw =>
    if raw = "" then some none
    else ((Text.parseUnsigned (2 ^ 32 - 1) raw.toList).filter fun n => 0 < n && raw.toList.all Char.isDigit).map some

/-- `none` is a bad request. -/
def Input.parse (form : Form) : Option Input :=
  match postedId form, filters.find? fun k => some k = form "ft", h : (form "dt").bind Forward.dest with
  | some id, some filter, some d =>
    if (form "wh_method").getD "POST" = "POST" ∨ (form "wh_method").getD "POST" = "PUT" then
      some
        { id, filter
          name := trimmed form "name"
          patterns := trimmed form "patterns"
          keywords := trimmed form "keywords"
          dest := d
          known := by
            obtain ⟨key, -, hd⟩ := Option.bind_eq_some_iff.mp h
            exact List.mem_of_find?_eq_some hd
          values := postedValues form
          headers := postedHeaders form
          rows := postedRows form
          clearToken := (form "nt_token_clear").isSome }
    else none
  | _, _, _ => none

def Input.value (i : Input) (name : String) : String := i.values name

def Input.set (i : Input) (name value : String) : Input :=
  { i with values := fun k => if k = name then value else i.values k }

/-- An RFC 9110 token. -/
def headerName (n : String) : Bool :=
  n ≠ "" && Text.byteLen n.toList ≤ 64 && n.toList.all fun c => c.isAlphanum || "!#$%&'*+-.^_|~".toList.contains c || c == Char.ofNat 0x60

/-- What a page may show again of one field. -/
def Input.shownField (i : Input) (shown : Input) (f : Field) : Input :=
  match f.kind with
  | .secret | .secretUrl => shown.set f.name ""
  | .url => shown.set f.name (shownUrl (i.value f.name))
  | _ => shown

/-- The same values without any secret. -/
def Input.shown (i : Input) : Input :=
  let shown := (dests.flatMap (·.fields)).foldl i.shownField i
  { shown with headers := i.headers.map fun h => (if headerName h.1 then h.1 else "", "") }

/-! ## The merge -/

abbrev Errors := List (String × String)

/-- `char::is_control`: the category Cc. -/
def isControl (c : Char) : Bool := c.toNat < 32 || (127 ≤ c.toNat && c.toNat < 160)

/-- What is wrong with a trimmed text. -/
def textError (v : String) (max : Nat) : Option String :=
  if max < v.length then some ("Enter at most " ++ toString max ++ " characters.")
  else if v.toList.any isControl then some "Remove line breaks and control characters."
  else none

/-- Headers that say where or how a request goes. -/
def reserved (n : String) : Bool :=
  let n := Url.lower n.toList
  (["host", "content-length", "transfer-encoding", "connection", "keep-alive", "te", "trailer", "upgrade", "expect", "forwarded",
    "x-host", "x-original-host"].map String.toList).contains n || "proxy-".toList.isPrefixOf n || "x-forwarded-".toList.isPrefixOf n

def cleanNumber (n : String) : String :=
  String.ofList (n.toList.filter fun c => !([' ', '\t', Char.ofNat 0xa0, Char.ofNat 0x202f, '-', '(', ')', '.'].contains c))

def numberError (n : String) : Option String :=
  if n = "" then some "Enter a phone number."
  else if 32 < n.length || !(n.toList.all fun c => c.isAlphanum || "+*#".toList.contains c) then
    some "Enter at most 32 digits, letters, spaces, +, * or #."
  else none

/-- What one field adds to an answer. -/
structure Part where
  errors : Errors := []
  /-- Kept for the next post. -/
  fields : List (String × String) := []
  headers : List (String × String) := []
  wire : List (String × Json) := []

section

variable (input : Input) (sources : List Secrets)

def sameType : List Secrets := sources.filter (·.dest = input.dest.key)

/-- The URL of a field and whether it is the rule's as saved. -/
def chosenUrl (f : Field) : String × Bool :=
  let typed := input.value f.name
  match f.kind with
  | .secretUrl =>
    if typed = "" then ((sameType input sources).findSome? fun s => (s.get f.name).map (·, s.saved)).getD ("", false)
    else (typed, false)
  | .url =>
    match (sameType input sources).find? fun s => s.saved && s.url ≠ "" && shownUrl s.url = typed with
    | some s => (s.url, true)
    | none => (typed, false)
  | _ => (typed, false)

def urlError (f : Field) (url : String) (saved : Bool) : Option String :=
  if url = "" then some required
  else
    match textError url urlMax with
    | some e => some e
    | none =>
      if checkUrl url = false then some (if saved then savedUrl else badUrl)
      else if url ≠ input.value f.name then none
      else if f.kind = .url ∧ withoutUserinfo url ≠ url then some "Leave the user name and password out of the URL."
      else if f.kind = .url ∧ url.toList.any (fun c => c == '?' || c == '#') = true then
        some "Enter the server address only, without ? or #."
      else none

def urlPart (f : Field) : Part :=
  let (url, saved) := chosenUrl input sources f
  { errors := ((urlError input f url saved).map (f.name, ·)).toList
    fields := if urlError input f url saved = none ∧ f.kind = .secretUrl ∧ saved = false then [(f.name, url)] else []
    wire := [(f.key, .str url)] }

/-- A secret's value, whether it is the rule's as saved, and what is wrong with it. -/
def chosenSecret (server : String) (f : Field) : String × Bool × Option String :=
  let typed := input.value f.name
  if typed ≠ "" then (typed, false, none)
  else if f.name = "nt_token" ∧ input.clearToken = true then ("", false, none)
  else
    match (sameType input sources).find? (fun s => s.server = server && (s.get f.name).isSome) with
    | some s => ((s.get f.name).getD "", s.saved, none)
    | none =>
      if (sameType input sources).any (fun s => (s.get f.name).isSome) then ("", false, some again)
      else if f.required then ("", false, some required)
      else ("", false, none)

def secretPart (server : String) (f : Field) : Part :=
  let (v, saved, err) := chosenSecret input sources server f
  let err := err.or (textError v textMax)
  { errors := (err.map (f.name, ·)).toList
    fields := if err = none ∧ v ≠ "" ∧ saved = false then [(f.name, v)] else []
    wire := if v ≠ "" then [(f.key, .str v)] else if f.required then [(f.key, .str "")] else [] }

/-- A header row of an answer. -/
structure Row where
  errors : Errors := []
  kept : List (String × String) := []
  sent : List (String × String) := []
  /-- The saved value it takes: its source and place. -/
  takes : Option (Nat × Nat) := none

/-- The next saved value of that name, from the sources of this URL: its source and place, the
    value, and whether it is the rule's. -/
def savedValue (url name : String) (taken : List (Nat × Nat)) : Nat → List Secrets → Option ((Nat × Nat) × String × Bool)
  | _, [] => none
  | si, s :: rest =>
    match if s.dest = "webhook" ∧ s.url = url then
        s.headers.zipIdx.find? fun h => !taken.contains (si, h.2) && Secrets.sameName h.1.1 name
      else none with
    | some h => some ((si, h.2), h.1.2, s.saved)
    | none => savedValue url name taken (si + 1) rest

def headerRow (url : String) (taken : List (Nat × Nat)) (i : Nat) (name value : String) : Row :=
  let field := fun k : String => k ++ toString i
  if name = "" then { errors := [(field "wh_hn", "Enter the header name.")] }
  else if headerName name = false then { errors := [(field "wh_hn", "Not a valid header name.")] }
  else if reserved name = true then { errors := [(field "wh_hn", "This header can't be set.")] }
  else if value ≠ "" then
    match textError value urlMax with
    | none => { kept := [(name, value)], sent := [(name, value)] }
    | some e => { errors := [(field "wh_hv", e)] }
  else
    match savedValue url name taken 0 sources with
    | some (place, v, saved) =>
      match textError v urlMax with
      | none => { kept := if saved then [] else [(name, v)], sent := [(name, v)], takes := some place }
      | some e => { errors := [(field "wh_hv", e)], takes := some place }
    | none =>
      if sources.any (·.hasHeader name) then { errors := [(field "wh_hv", againUrl)] }
      else { errors := [(field "wh_hv", "Enter the value.")] }

def headerRows (url : String) : List (Nat × Nat) → Nat → List (String × String) → List Row
  | _, _, [] => []
  | taken, i, (name, value) :: rest =>
    let row := headerRow sources url taken i name value
    row :: headerRows url (row.takes.toList ++ taken) (i + 1) rest

def headersPart (url : String) (f : Field) : Part :=
  let rows := headerRows sources url [] 0 input.headers
  { errors := rows.flatMap (·.errors)
    headers := rows.flatMap (·.kept)
    wire := [(f.key, .arr ((rows.flatMap (·.sent)).map fun h => headerJson ⟨h.1, h.2⟩))] }

def textPart (f : Field) : Part :=
  let typed := input.value f.name
  let err :=
    if typed = "" ∧ f.required = true then some required
    else if f.kind = .tel then numberError (cleanNumber typed)
    else if f.name = "nt_topic" ∧ typed.toList.all (fun c => c.isAlphanum || c == '-' || c == '_') = false then
      some "Use letters, digits, - and _ only."
    else textError typed (if f.name = "nt_topic" then 64 else textMax)
  { errors := (err.map (f.name, ·)).toList
    wire := [(f.key, .str (if f.kind = .tel then cleanNumber typed else typed))] }

def fieldPart (server url : String) (f : Field) : Part :=
  match f.kind with
  | .url | .secretUrl => {}
  | .secret => secretPart input sources server f
  | .check => { wire := [(f.key, .bool (input.value f.name = "1"))] }
  | .method => { wire := [(f.key, .str (if input.value f.name = "PUT" then "PUT" else "POST"))] }
  | .headers => headersPart input sources url f
  | .text | .tel => textPart input f

structure Resolved where
  dest : Except Errors (List (String × Json))
  /-- What an answer's form keeps. -/
  secrets : Secrets

def urlFields : List Field := input.dest.fields.filter fun f => f.kind = .url ∨ f.kind = .secretUrl

/-- The URL names the server the other secrets go to. -/
def resolvedUrl : String := ((urlFields input).getLast?.map fun f => (chosenUrl input sources f).1).getD ""

def resolvedServer : String :=
  if input.dest.key = "telegram" then telegramServer else origin (resolvedUrl input sources)

def resolve : Resolved :=
  let parts := (urlFields input).map (urlPart input sources) ++
    input.dest.fields.map (fieldPart input sources (resolvedServer input sources) (resolvedUrl input sources))
  let errors := parts.flatMap (·.errors)
  { dest := if errors = [] then .ok (("type", .str input.dest.key) :: parts.flatMap (·.wire)) else .error errors
    secrets :=
      { dest := input.dest.key
        server := resolvedServer input sources
        url := resolvedUrl input sources
        fields := parts.flatMap (·.fields)
        headers := parts.flatMap (·.headers) } }

end

end OpenU60.Web.Forward
