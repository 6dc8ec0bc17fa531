/-
  OpenU60.Web.Session — pages without a session (`web/session.rs`: the cookies of a request,
  `is_safe_next`, `login_redirect`, `without_hop`, `hop_target`, `without_session`, `after_hop`, the
  `Session` extractor; `web/pages/login.rs`: `form`; `web/routes.rs`: `dispatch`'s GET pages).

  A reply is what the browser is shown or where it is sent, and whether the marker is cleared. Which
  paths are pages, and which page a form is on, is the site's.
-/

import OpenU60.Lib.ByteLines
import OpenU60.Lib.Split
import OpenU60.Lib.Utf8

namespace OpenU60.Web.Session

open OpenU60.Lib

abbrev Text := List Char

inductive Method where
  | get
  | head
  | post
  deriving DecidableEq

structure Headers where
  /-- Every `Cookie` header. -/
  cookie : List Text
  secFetchSite : Option Text
  secFetchMode : Option Text
  secFetchDest : Option Text

/-! ## Cookies -/

def sessionCookie : Text := "zte_ui_session".toList
def markerCookie : Text := "zte_ui_signed_in".toList
def maxSessionCookies : Nat := 16
def nextMax : Nat := 200
def hopMax : Nat := 400

def cookieValue (name pair : Text) : Option Text := do
  let (k, v) ← Split.splitOnce ['='] (Text.trim pair)
  if Text.trim k = name then some (Text.trim v) else none

def cookies (headers : Headers) (name : Text) : List Text :=
  headers.cookie.flatMap fun v => (v.splitOn ';').filterMap (cookieValue name)

def hasMarker (headers : Headers) : Bool := (cookies headers markerCookie).any (· = ['1'])

def isHex64 (v : Text) : Bool := Text.byteLen v = 64 && v.all fun c => ('0' ≤ c && c ≤ '9') || ('a' ≤ c && c ≤ 'f')

def sessionCookies (headers : Headers) : List Text := ((cookies headers sessionCookie).filter isHex64).take maxSessionCookies

/-- The first that `authenticate` takes. -/
def findSession (live : Text → Bool) (headers : Headers) : Option Text := (sessionCookies headers).find? live

/-! ## Targets -/

def plainChar (c : Char) : Bool := c.isAlphanum || ['/', '_', '-', '.', '?', '=', '&', '%'].contains c

def uiPath : Text := "/ui/".toList

/-- `%2e` or `%2E` somewhere. -/
def encodedDot : Text → Bool
  | '%' :: '2' :: 'e' :: _ => true
  | '%' :: '2' :: 'E' :: _ => true
  | _ :: rest => encodedDot rest
  | [] => false

/-- `split('?').next()`. -/
def pathPart (s : Text) : Text := ((s.splitOn '?').head?).getD s

def hasDotSegment (s : Text) : Bool :=
  encodedDot (pathPart s) || ((pathPart s).splitOn '/').any fun seg => seg = ['.'] || seg = ['.', '.']

def excluded : List Text := ["/ui/login".toList, "/ui/logout".toList, "/ui/live/".toList, "/ui/a/".toList, "/ui/op/".toList]

def isSafeNext (s : Text) : Bool :=
  uiPath.isPrefixOf s && Text.byteLen s ≤ nextMax && !(['/', '/'].isPrefixOf s) && s.all plainChar && !hasDotSegment s &&
    !excluded.any (·.isPrefixOf s)

def safeNext (s : Option Text) : Text := (s.filter isSafeNext).getD uiPath

/-! ## Queries -/

/-- `(c as char).to_digit(16)` -/
def hexValue (b : UInt8) : Option Nat := Text.digitVal 16 (Char.ofNat b.toNat)

def plusSpace (b : UInt8) : UInt8 := if b = 0x2B then 0x20 else b

def decodeBytes : List UInt8 → List UInt8
  | b :: h :: l :: rest =>
    match hexValue h, hexValue l with
    | some hi, some lo => if b = 0x25 then UInt8.ofNat (hi * 16 + lo) :: decodeBytes rest else plusSpace b :: decodeBytes (h :: l :: rest)
    | _, _ => plusSpace b :: decodeBytes (h :: l :: rest)
  | b :: rest => plusSpace b :: decodeBytes rest
  | [] => []

def percentDecode (s : Text) : Text := ByteLines.lossy (decodeBytes (Utf8.utf8 s))

def encodeByte (b : UInt8) : Text :=
  let c := Char.ofNat b.toNat
  if c.isAlphanum || ['-', '.', '_', '~'].contains c then [c] else ['%', Text.hexChar (b.toNat / 16), Text.hexChar b.toNat]

def percentEncode (s : Text) : Text := (Utf8.utf8 s).flatMap encodeByte

def pieces (query : Option Text) : List Text := (query.getD []).splitOn '&'

def join (ps : List Text) : Text := ['&'].intercalate ps

/-- A piece's key and value. -/
def keyValue (pair : Text) : Text × Text := (Split.splitOnce ['='] pair).getD (pair, [])

def paramValue (key pair : Text) : Option Text := if (keyValue pair).1 = key then some (percentDecode (keyValue pair).2) else none

def queryParam (query : Option Text) (key : Text) : Option Text := query.bind fun q => (q.splitOn '&').findSome? (paramValue key)

/-- The pieces that are not empty, not `key` and no `key=…`. -/
def dropKey (key : Text) (ps : List Text) : List Text := ps.filter fun p => p ≠ [] && p ≠ key && !(key ++ ['=']).isPrefixOf p

def search : Text := ['q']
def hop : Text := "hop".toList
def hopFlag : Text := "hop=1".toList

/-- A path and what is left of a query. -/
def withQuery (path : Text) (ps : List Text) : Text := if ps = [] then path else path ++ '?' :: join ps

def withoutHop (query : Option Text) : Option Text :=
  let kept := dropKey hop (pieces query)
  if kept = [] then none else some (join kept)

def hopped (query : Option Text) : Bool := (pieces query).any (· = hopFlag)

/-! ## Replies -/

inductive Body where
  | page
  | login
  | hopPage (target : Text)
  | seeOther (location : Text)
  /-- Whatever else is under `/ui/`: files, streams, the 404 page. -/
  | other
  deriving DecidableEq

structure Reply where
  body : Body
  clearMarker : Bool := false
  deriving DecidableEq

def loginPath : Text := "/ui/login".toList

/-- Pages, and the pages that show the forms. -/
structure Site where
  page : Text → Bool
  formPage : Text → Option Text
  inside : ∀ p, page p = true → uiPath <+: p ∧ ¬ "/ui/live/".toList <+: p ∧ ¬ "/ui/a/".toList <+: p
  home : page uiPath = true
  login : page loginPath = false

def formPage (site : Site) (path : Text) : Text :=
  match site.formPage path with
  | some page => page
  | none => if isSafeNext path then path else uiPath

def loginRedirect (site : Site) (method : Method) (path : Text) (query : Option Text) : Text :=
  match method with
  | .post => "/ui/login?next=".toList ++ percentEncode (formPage site path) ++ "&expired=1".toList
  | .get | .head =>
    let target := withQuery path (dropKey search (pieces query))
    if isSafeNext target then "/ui/login?next=".toList ++ percentEncode target else loginPath

def hopTarget (path : Text) (query : Option Text) : Option Text :=
  let target := withQuery path (dropKey search (pieces query) ++ [hopFlag])
  if uiPath.isPrefixOf target && Text.byteLen target ≤ hopMax && target.all plainChar && !hasDotSegment target &&
      !"/ui/live/".toList.isPrefixOf target && !"/ui/a/".toList.isPrefixOf target then some target else none

def notANavigation (headers : Headers) : Bool :=
  headers.secFetchMode.any (· ≠ "navigate".toList) || headers.secFetchDest.any (· ≠ "document".toList)

/-- `Sec-Fetch-Site` names this site. -/
def sameSite (headers : Headers) : Bool := headers.secFetchSite = some "same-origin".toList || headers.secFetchSite = some "same-site".toList

/-- The session is known to be gone. -/
def gone (headers : Headers) (query : Option Text) : Bool := hopped query || !(sessionCookies headers).isEmpty || sameSite headers

def withoutSession (headers : Headers) (method : Method) (path : Text) (query : Option Text) (toLogin : Option Text → Body) : Reply :=
  let direct : Reply := ⟨toLogin (withoutHop query), hasMarker headers && gone headers query⟩
  if hasMarker headers && !gone headers query && method = .get && !notANavigation headers then
    match hopTarget path (withoutHop query) with
    | some target => ⟨.hopPage target, false⟩
    | none => direct
  else direct

def afterHop (path : Text) (query : Option Text) : Option Body :=
  if hopped query then
    some (.seeOther (match withoutHop query with
      | some q => path ++ '?' :: q
      | none => path))
  else none

/-- The `Session` extractor and the page behind it. -/
def pageReply (site : Site) (live : Text → Bool) (headers : Headers) (method : Method) (path : Text) (query : Option Text) : Reply :=
  match findSession live headers with
  | some _ =>
    match afterHop path query with
    | some clean => ⟨clean, false⟩
    | none => ⟨.page, false⟩
  | none => withoutSession headers method path query fun q => .seeOther (loginRedirect site method path q)

/-- `form`, the login's. -/
def loginForm (live : Text → Bool) (headers : Headers) (method : Method) (path : Text) (query : Option Text) : Reply :=
  if (findSession live headers).isSome then ⟨.seeOther (safeNext (queryParam query "next".toList)), false⟩
  else withoutSession headers method path query fun _ => .login

def Site.reply (site : Site) (live : Text → Bool) (headers : Headers) (path : Text) (query : Option Text) : Reply :=
  if path = loginPath then loginForm live headers .get path query
  else if site.page path then pageReply site live headers .get path query
  else ⟨.other, false⟩

end OpenU60.Web.Session
