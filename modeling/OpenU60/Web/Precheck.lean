/-
  OpenU60.Web.Precheck — what is decided of a request before its body is read
  (`zte-agent/src/server.rs`: `precheck`, `parse_query_usize`).

  The auth state is the one of `Auth.Sessions`, at the time of the request. A reply that is an error is a
  refusal, everything else lets the request through.
  - `precheck_gate`: who is let through, from where and under which name; and what two authorities that the
    parser takes have to do with each other.
-/

import OpenU60.Auth.Sessions
import OpenU60.Web.Guard

namespace OpenU60.Web.Guard

open OpenU60.Lib OpenU60.Lib.Split OpenU60.Web.Url OpenU60.Auth

/-! ## The code -/

def apiBodyMax : Nat := 64 * 1024
def liveActivityBodyMax : Nat := 4096
def lanDownloadDefault : Nat := 50 * 1024 * 1024
def lanDownloadMax : Nat := 200 * 1024 * 1024

structure ReqInfo where
  method : Method
  /-- Without the query string. -/
  path : String
  query : Option (List Char)
  /-- The value after `Bearer ` of the first Authorization header. -/
  bearer : Option Auth.Text
  headers : ReqHeaders
  /-- The peer is this device: Tailscale clients. -/
  loopback : Bool
  /-- Over the LAN HTTPS listener. -/
  secure : Bool

inductive Body where
  | ok
  | error (e : String)
  deriving DecidableEq

/-- The listener's next step for a request. -/
inductive Pre where
  | reply (status : Nat) (body : Body)
  | login
  | lanDownload (size : Nat)
  | lanUpload
  | esimQr
  | events (owner : Nat)
  | dashboard
  | dispatch (bodyLimit : Nat)
  deriving DecidableEq

def refuse (status : Nat) (error : String) : Pre := .reply status (.error error)

/-- The value of the first pair with the key. -/
def queryValue (key : List Char) : List (List Char) → Option (List Char)
  | [] => none
  | pair :: pairs =>
    match splitOnce ['='] pair with
    | some (name, value) => if name = key then some value else queryValue key pairs
    | none => if pair = key then none else queryValue key pairs

def parseQueryUsize (query : Option (List Char)) (key : List Char) : Option Nat :=
  query.bind fun query => (queryValue key (query.splitOn '&')).bind (Text.parseUnsigned Text.u64Max)

/-- The refusal of the request's Host: without a password for every request, with one for browser
    requests. -/
def hostRefusal (req : ReqInfo) (hosts : HostPolicy) (tsNames : List (List Char)) (hasPassword : Bool) : Option Pre :=
  if !hasPassword || req.headers.origin.isSome || req.headers.secFetchSite.isSome then
    match req.headers.host with
    | none => some (refuse 400 "missing host")
    | some host => if hosts.allowsVia host req.loopback req.secure tsNames then none else some (refuse 403 "host not allowed")
  else none

/-- The routes that bypass `route()`, and the body limit. -/
def accepted (req : ReqInfo) (hasPassword : Bool) (principal : Option Principal) : Pre :=
  if req.method = .post ∧ req.path = "/api/auth/login" then .login
  else if req.method = .get ∧ req.path = "/api/lan/ping" then .reply 200 .ok
  else if req.method = .get ∧ req.path = "/api/lan/download" then
    .lanDownload (min ((parseQueryUsize req.query "size".toList).getD lanDownloadDefault) lanDownloadMax)
  else if req.method = .post ∧ req.path = "/api/lan/upload" then .lanUpload
  else if req.method = .post ∧ req.path = "/api/esim/qr" then
    if principal.isSome then .esimQr else refuse 403 "agent password required"
  else if req.method = .get ∧ req.path = "/api/dashboard/events" then
    if principal.isSome then .dashboard else refuse 403 "agent password required"
  else if req.method = .get ∧ req.path = "/api/events" then
    match principal with
    | some p => .events p.id
    | none => refuse 403 "agent password required"
  else
    let liveActivity := "/api/live-activity".toList.isPrefixOf req.path.toList
    if liveActivity && !hasPassword then refuse 403 "agent password required"
    else .dispatch (if liveActivity then liveActivityBodyMax else apiBodyMax)

def afterAuth (req : ReqInfo) (hosts : HostPolicy) (tsNames : List (List Char)) (hasPassword : Bool) (principal : Option Principal) : Pre :=
  match hostRefusal req hosts tsNames hasPassword with
  | some refusal => refusal
  | none =>
    if apiMutationRefused req.method req.headers then refuse 403 "cross-origin request refused"
    else accepted req hasPassword principal

section

variable {D : Type} [DecidableEq D] (cfg : AuthConfig) (sha : Auth.Text → D)

def authorize (req : ReqInfo) (auth : AuthState D) (now : Nat) : Option Principal × AuthState D :=
  match req.bearer with
  | some token => auth.authenticate cfg sha .bearer token now
  | none => (none, auth)

def precheck (req : ReqInfo) (auth : AuthState D) (now : Nat) (hosts : HostPolicy) (tsNames : List (List Char)) : Pre × AuthState D :=
  let hasPassword := auth.password.isSome
  if req.path ≠ "/api/auth/login" ∧ hasPassword = true then
    match authorize cfg sha req auth now with
    | (none, auth) => (refuse 401 "unauthorized", auth)
    | (some principal, auth) => (afterAuth req hosts tsNames hasPassword (some principal), auth)
  else (afterAuth req hosts tsNames hasPassword none, auth)

end

/-! ## The gate -/

def Pre.Refused : Pre → Prop
  | .reply _ (.error _) => True
  | _ => False

/-- The names the device answers to, for this request. -/
def AllowedName (req : ReqInfo) (hosts : HostPolicy) (tsNames : List (List Char)) (name : List Char) : Prop :=
  name ∈ hosts.extra ∨ (req.loopback = true ∧ (name = "localhost".toList ∨ name ∈ tsNames)) ∨
    (req.secure = true ∧ hosts.localName = some name)

/-- The Host is an IP literal or an allowed name. -/
def AllowedHost (req : ReqInfo) (hosts : HostPolicy) (tsNames : List (List Char)) (host : List Char) : Prop :=
  ∃ authority port, parseAuthority host = some (authority, port) ∧
    (literal host = some authority ∨ (authority = .name (hostName host) ∧ AllowedName req hosts tsNames (hostName host)))

/-- The Origin is http and of the host and port of the Host header. -/
def SameOrigin (h : ReqHeaders) (origin : List Char) : Prop :=
  ∃ scheme authority host, splitOnce sep origin = some (scheme, authority) ∧ lower scheme = "http".toList ∧ h.host = some host ∧
    SameHost authority host ∧ (portOf authority).getD 80 = (portOf host).getD 80

variable {req : ReqInfo} {hosts : HostPolicy} {tsNames : List (List Char)} {hasPassword : Bool} {principal : Option Principal}
  {host : List Char}

theorem allowedHost_of_via (h : hosts.allowsVia host req.loopback req.secure tsNames = true) : AllowedHost req hosts tsNames host := by
  unfold HostPolicy.allowsVia HostPolicy.allows at h
  unfold AllowedHost
  cases hparse : parseAuthority host with
  | none =>
    rw [hparse] at h
    simp at h
  | some parsed =>
    obtain ⟨authority, port⟩ := parsed
    refine ⟨authority, port, rfl, ?_⟩
    rcases (parseAuthority_cases hparse).2 with ⟨hliteral, -⟩ | ⟨-, rfl, -⟩
    · exact .inl hliteral
    · refine .inr ⟨rfl, ?_⟩
      rw [hparse] at h
      simp only [Bool.or_eq_true, Bool.and_eq_true, List.contains_iff_mem, beq_iff_eq] at h
      rcases h with (hextra | hlocal) | ⟨hsecure, hname⟩
      · exact .inl hextra
      · exact .inr (.inl hlocal)
      · exact .inr (.inr ⟨hsecure, hname.symm⟩)

/-- What passes the Host and Origin checks. -/
theorem afterAuth_cases (h : ¬ (afterAuth req hosts tsNames hasPassword principal).Refused) :
    hostRefusal req hosts tsNames hasPassword = none ∧ apiMutationRefused req.method req.headers = false := by
  unfold afterAuth at h
  cases hrefusal : hostRefusal req hosts tsNames hasPassword with
  | some refusal =>
    rw [hrefusal] at h
    unfold hostRefusal at hrefusal
    split at hrefusal
    · split at hrefusal
      · cases hrefusal
        exact absurd trivial h
      · split at hrefusal
        · cases hrefusal
        · cases hrefusal
          exact absurd trivial h
    · cases hrefusal
  | none =>
    rw [hrefusal] at h
    dsimp only at h
    split at h
    · exact absurd trivial h
    · next hmutation => exact ⟨rfl, Bool.eq_false_iff.mpr hmutation⟩

theorem host_of_afterAuth (h : ¬ (afterAuth req hosts tsNames hasPassword principal).Refused)
    (hmarked : req.headers.origin.isSome = true ∨ req.headers.secFetchSite.isSome = true ∨ hasPassword = false) :
    ∃ host, req.headers.host = some host ∧ AllowedHost req hosts tsNames host := by
  have hpass := (afterAuth_cases h).1
  unfold hostRefusal at hpass
  have hchecked : (!hasPassword || req.headers.origin.isSome || req.headers.secFetchSite.isSome) = true := by
    rcases hmarked with horigin | hsite | hopen
    · rw [horigin, Bool.or_true, Bool.true_or]
    · rw [hsite, Bool.or_true]
    · rw [hopen, Bool.not_false, Bool.true_or, Bool.true_or]
  rw [if_pos hchecked] at hpass
  cases hhost : req.headers.host with
  | none =>
    rw [hhost] at hpass
    cases hpass
  | some host =>
    rw [hhost] at hpass
    dsimp only at hpass
    split at hpass
    · next hallowed => exact ⟨host, rfl, allowedHost_of_via hallowed⟩
    · cases hpass

theorem origin_of_afterAuth (h : ¬ (afterAuth req hosts tsNames hasPassword principal).Refused) (hmethod : req.method ≠ .get)
    {origin : List Char} (horigin : req.headers.origin = some origin) : SameOrigin req.headers origin := by
  have hpass := (afterAuth_cases h).2
  unfold apiMutationRefused at hpass
  have hcross : originVerdict req.headers ≠ .cross := by
    intro hcross
    simp [hmethod, hcross] at hpass
  have hsame : originVerdict req.headers = .same := by
    cases hverdict : originVerdict req.headers with
    | same => rfl
    | cross => exact absurd hverdict hcross
    | absent =>
      unfold originVerdict at hverdict
      rw [horigin] at hverdict
      dsimp only at hverdict
      split at hverdict
      · unfold sameAsHost at hverdict
        split at hverdict
        · cases hverdict
        · split at hverdict
          · split at hverdict <;> cases hverdict
          · cases hverdict
      · cases hverdict
  obtain ⟨origin', host, scheme, authority, horigin', hhost, hsplit, hscheme, hname, hport⟩ := origin_same hsame
  cases horigin.symm.trans horigin'
  exact ⟨scheme, authority, host, hsplit, hscheme, hhost, hname, hport⟩

/-- A request that is let through is one that `afterAuth` lets through. -/
theorem admitted {D : Type} [DecidableEq D] {cfg : AuthConfig} {sha : Auth.Text → D} {auth : AuthState D} {now : Nat}
    (h : ¬ (precheck cfg sha req auth now hosts tsNames).1.Refused) :
    (∃ principal, ¬ (afterAuth req hosts tsNames auth.password.isSome principal).Refused) ∧
      (auth.password.isSome = true → req.path = "/api/auth/login" ∨
        ∃ token principal, req.bearer = some token ∧ (auth.authenticate cfg sha .bearer token now).1 = some principal) := by
  unfold precheck at h
  dsimp only at h
  split at h
  · next hchecked =>
    cases hauth : authorize cfg sha req auth now with
    | mk found auth' =>
      rw [hauth] at h
      cases found with
      | none => exact absurd trivial h
      | some principal =>
        refine ⟨⟨some principal, h⟩, fun _ => .inr ?_⟩
        unfold authorize at hauth
        split at hauth
        · next token htoken => exact ⟨token, principal, htoken, congrArg Prod.fst hauth⟩
        · cases hauth
  · next hopen =>
    refine ⟨⟨none, h⟩, fun hpassword => .inl ?_⟩
    by_contra hpath
    exact hopen ⟨hpath, hpassword⟩

theorem precheck_gate {D : Type} [DecidableEq D] (cfg : AuthConfig) (sha : Auth.Text → D) (auth : AuthState D) (now : Nat) (req : ReqInfo)
    (hosts : HostPolicy) (tsNames : List (List Char)) :
    (¬ (precheck cfg sha req auth now hosts tsNames).1.Refused →
      (auth.password.isSome = true → req.path = "/api/auth/login" ∨
        ∃ token principal, req.bearer = some token ∧ (auth.authenticate cfg sha .bearer token now).1 = some principal) ∧
      (req.method ≠ .get → ∀ origin, req.headers.origin = some origin → SameOrigin req.headers origin) ∧
      (req.headers.origin.isSome = true ∨ req.headers.secFetchSite.isSome = true ∨ auth.password.isSome = false →
        ∃ host, req.headers.host = some host ∧ AllowedHost req hosts tsNames host)) ∧
    (∀ s t a b port port', parseAuthority s = some (a, port) → parseAuthority t = some (b, port') → (a = b ↔ SameHost s t)) ∧
    ∀ s n port, parseAuthority s = some (.name n, port) → endsInNumber (hostPart s) = false := by
  refine ⟨?_, fun _ _ _ _ _ _ => authority_eq_iff, fun _ _ _ => name_not_number⟩
  intro h
  obtain ⟨⟨principal, hadmit⟩, hbearer⟩ := admitted h
  exact ⟨hbearer, fun hmethod _ => origin_of_afterAuth hadmit hmethod, host_of_afterAuth hadmit⟩

end OpenU60.Web.Guard
