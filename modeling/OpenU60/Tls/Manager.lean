/-
  OpenU60.Tls.Manager — LAN HTTPS with the router's own CA (`zte-agent/src/tls/mod.rs`:
  `issue`, `refresh`, `start`, `turn_on`, `renew`, `reset`, `lan_changed`, `check`,
  `read_files`, `remove_files`).

  The work lock lets one operation run at a time; one that is asked for while another runs
  waits, so it is an event of a state without one. Each save and removal of a file is a step
  (`run`), atomic and durable, and power may be lost between any two. The files can be read
  and removed. Settings' lines, the hosts file and the listener's state are left out.
-/

import OpenU60.Tls.X509

namespace OpenU60.Tls

def day : Int := 86400

/-- notBefore lies this far back. -/
def backdate : Int := 2 * day

def serverDays : Int := 397

def caDays : Int := 3650

def renewBefore : Int := 30 * day

/-- A router clock before this is not set. -/
def clockFloor : Int := 1790812800

def clockUnset : String :=
  "The router’s clock isn’t set yet, so no certificate can be dated. Try again once the router shows today’s date " ++
    "(it sets its clock from the mobile network)."

def noLanIp : String := "The router’s LAN address could not be read. Try again in a moment."

def httpsOff : String := "HTTPS is off."

def newCa : String :=
  "Turn On HTTPS makes a new certificate authority, which each device must trust again; Reset HTTPS deletes these files."

def saving (e : String) : String := "Could not save the certificates: " ++ e

inductive File where
  | caCrt
  | issuingKey
  | issuingCrt
  | serverKey
  | serverCrt
  deriving DecidableEq

structure Disk where
  caCrt : Option Cert := none
  issuingKey : Option Key := none
  issuingCrt : Option Cert := none
  serverKey : Option Key := none
  serverCrt : Option Cert := none
  deriving DecidableEq

namespace Disk

def remove (d : Disk) : File → Disk
  | .caCrt => { d with caCrt := none }
  | .issuingKey => { d with issuingKey := none }
  | .issuingCrt => { d with issuingCrt := none }
  | .serverKey => { d with serverKey := none }
  | .serverCrt => { d with serverCrt := none }

/-- The file with its content of a new authority. -/
def save (d : Disk) (root : Cert) (issuing server : KeyCert) : File → Disk
  | .caCrt => { d with caCrt := some root }
  | .issuingKey => { d with issuingKey := some issuing.key }
  | .issuingCrt => { d with issuingCrt := some issuing.cert }
  | .serverKey => { d with serverKey := some server.key }
  | .serverCrt => { d with serverCrt := some server.cert }

/-- `none` without a root certificate. -/
def readFiles (d : Disk) : Except String (Option (Cert × KeyCert × Option Key × Option Cert)) :=
  match d.caCrt with
  | none => .ok none
  | some root =>
    match d.issuingKey, d.issuingCrt with
    | none, _ => .error "issuing.key is missing"
    | some _, none => .error "issuing.crt is missing"
    | some key, some cert => .ok (some (root, ⟨key, cert⟩, d.serverKey, d.serverCrt))

end Disk

/-- The order `turn_on` saves in. -/
def creation : List File := [.caCrt, .issuingKey, .issuingCrt, .serverKey, .serverCrt]

/-- The order `remove_files` removes in. -/
def removal : List File := [.serverCrt, .serverKey, .issuingCrt, .issuingKey, .caCrt]

inductive Utc where
  | verified (t : Int)
  | unverified (t : Int)
  | unset (t : Int)

/-- A time an owner-confirmed action may date certificates from. -/
def Utc.usable : Utc → Option Int
  | .verified t => some t
  | .unverified t => some t
  | .unset _ => none

/-- What is drawn for a new authority or server pair. -/
structure Draw where
  id : String := ""
  rootKey : Key := ⟨0⟩
  issuingKey : Key := ⟨0⟩
  serverKey : Key := ⟨0⟩

/-- What a step finds. -/
structure Outcome where
  saved : Except String Unit := .ok ()
  lan : Option Ipv4 := none
  verified : Option Int := none
  wall : Int := 0
  draw : Draw := {}

structure Memory where
  loaded : Option Loaded := none
  /-- The CA on disk while HTTPS is off because its server pair could not be loaded or issued
      again at start. -/
  kept : Option Ca := none
  keys : Option CertifiedKey := none

inductive Operation where
  | start
  | turnOn
  | renew
  /-- `lan_changed`, `check` -/
  | check
  deriving DecidableEq

/-- Where the operation that holds the work lock is. -/
inductive Task where
  | idle
  /-- `issue` saves the key, then the certificate; `refreshing`, if `refresh` calls it. -/
  | savingKey (ca : Ca) (server : KeyCert) (lan : Option Ipv4) (op : Operation) (refreshing : Bool)
  | savingCrt (ca : Ca) (server : KeyCert) (lan : Option Ipv4) (op : Operation) (refreshing : Bool)
  /-- `turn_on` saves a new authority. -/
  | creating (root : Cert) (issuing server : KeyCert) (ip : Ipv4) (todo : List File)
  /-- `remove_files`, of a failed `turn_on` or a reset -/
  | removing (todo : List File)

structure World where
  disk : Disk := {}
  memory : Memory := {}
  task : Task := .idle
  /-- `start` has run, or runs. -/
  started : Bool := false
  /-- The root and issuing certificates on disk when `turn_on` last succeeded; none once a
      reset has been asked for. -/
  promised : Option (Option Cert × Option Cert) := none

inductive Event where
  | start (x : Outcome)
  | turnOn (x : Outcome)
  | renew (x : Outcome)
  | lanChanged (ip : Ipv4) (x : Outcome)
  | check (x : Outcome)
  | reset
  /-- The operation's next file. -/
  | run (x : Outcome)
  | powerLoss

namespace World

variable (name : String)

/-- The operation is over and its lock free. -/
def finish (w : World) (op : Operation) (r : Except String Unit) : World :=
  match op, r with
  | .turnOn, .ok () => { w with task := .idle, promised := some (w.disk.caCrt, w.disk.issuingCrt) }
  | _, _ => { w with task := .idle }

def utc (w : World) (x : Outcome) : Utc :=
  match x.verified with
  | some t => .verified t
  | none =>
    let caFrom := (w.memory.loaded.map (·.ca.root.notBefore)).or (w.memory.kept.map (·.root.notBefore))
    let floor := max ((caFrom.map (· + backdate)).getD clockFloor) clockFloor
    if x.wall ≥ floor then .unverified x.wall else .unset x.wall

def install (w : World) (l : Loaded) (key : CertifiedKey) : World :=
  { w with memory := ⟨some l, none, some key⟩ }

/-- `issue` has failed: `refresh` notes it, `start` keeps the CA, `turn_on` and `renew` fail. -/
def issueFailed (w : World) (ca : Ca) (op : Operation) (refreshing : Bool) (e : String) : World :=
  if refreshing then w.finish op (.ok ())
  else
    match op with
    | .start => { w with memory := { w.memory with kept := some ca } }.finish op (.ok ())
    | _ => w.finish op (.error e)

/-- `issue`, up to its first save. -/
def issue (w : World) (ca : Ca) (address : Option Ipv4) (notBefore notAfter : Int) (lan : Option Ipv4) (op : Operation)
    (refreshing : Bool) (x : Outcome) : World :=
  let ips := (address.filter ca.scope.coversIp).toList
  let dns := [name].filter ca.scope.coversName
  if ips.isEmpty && dns.isEmpty then
    w.issueFailed ca op refreshing
      ("The certificate authority covers neither the router’s LAN address nor " ++ name ++ ". " ++ newCa)
  else
    let spec : LeafSpec := ⟨dns, ips, notBefore, min notAfter ca.issuing.cert.notAfter⟩
    { w with task := .savingKey ca (leaf ca.issuing spec x.draw.serverKey) lan op refreshing }

def refresh (w : World) (cur : Loaded) (lan : Option Ipv4) (op : Operation) (x : Outcome) : World :=
  let ca := cur.ca
  let want := (lan.or cur.serverIp).filter ca.scope.coversIp
  let renewal (t : Int) := (t - backdate, min (t - backdate + serverDays * day) ca.issuing.cert.notAfter)
  let expiring := x.verified.filter fun t =>
    decide (cur.server.notAfter - t < renewBefore) && decide ((renewal t).2 > cur.server.notAfter)
  if expiring.isSome || want != cur.serverIp then
    let dates := (expiring.map renewal).getD (cur.server.notBefore, cur.server.notAfter)
    w.issue name ca want dates.1 dates.2 lan op true x
  else w.finish op (.ok ())

/-- `issue` has saved the pair. -/
def issued (w : World) (ca : Ca) (server : KeyCert) (lan : Option Ipv4) (op : Operation) (refreshing : Bool) (x : Outcome) :
    World :=
  match Loaded.new ca server with
  | .error e => w.issueFailed ca op refreshing e
  | .ok (l, key) =>
    let w := w.install l key
    if refreshing then w.finish op (.ok ()) else w.refresh name l lan op x

def start (w : World) (x : Outcome) : World :=
  let w := { w with started := true }
  match w.disk.readFiles with
  | .ok none => w.finish .start (.ok ())
  | .error e => w.finish .start (.error e)
  | .ok (some (root, issuing, serverKey, serverCrt)) =>
    match Ca.new root issuing with
    | .error e => w.finish .start (.error e)
    | .ok ca =>
      let pair := match serverKey, serverCrt with
        | some key, some cert => some (Loaded.new ca ⟨key, cert⟩)
        | _, _ => none
      match pair with
      | some (.ok (l, key)) => (w.install l key).refresh name l x.lan .start x
      | _ =>
        let old := serverCrt.filter fun c => c.issuer = ca.issuing.cert.subject
        let dates := (old.map fun c => (c.notBefore, c.notAfter)).or
          (x.verified.map fun t => (t - backdate, t - backdate + serverDays * day))
        let ip := x.lan.or (old.bind fun c => c.ips.head?)
        match dates with
        | some (notBefore, notAfter) => w.issue name ca ip notBefore notAfter x.lan .start false x
        | none => w.issueFailed ca .start false "no dates"

/-- The certificates of a new authority, for the LAN address (if private) and the name. -/
def newAuthority (now : Int) (ip : Ipv4) (d : Draw) : Cert × KeyCert × KeyCert :=
  let ips := ([ip].filter isPrivate).map fun a => (a, 32)
  let spec (cn : String) : CaSpec := ⟨cn, now - backdate, now + caDays * day, ips, [name]⟩
  let (root, issuing) :=
    authority (spec ("U60 Pro local CA " ++ d.id)) (spec ("U60 Pro issuing CA " ++ d.id)) d.rootKey d.issuingKey
  let server := leaf issuing ⟨[name], ips.map Prod.fst, now - backdate, now - backdate + serverDays * day⟩ d.serverKey
  (root, issuing, server)

def turnOn (w : World) (x : Outcome) : World :=
  if w.memory.loaded.isSome then w.finish .turnOn (.ok ())
  else
    match (w.utc x).usable with
    | none => w.finish .turnOn (.error clockUnset)
    | some now =>
      match x.lan with
      | none => w.finish .turnOn (.error noLanIp)
      | some ip =>
        match w.memory.kept with
        | some ca => w.issue name ca (some ip) (now - backdate) (now - backdate + serverDays * day) (some ip) .turnOn false x
        | none =>
          let (root, issuing, server) := newAuthority name now ip x.draw
          { w with task := .creating root issuing server ip creation }

def renew (w : World) (x : Outcome) : World :=
  match w.memory.loaded with
  | none => w.finish .renew (.error httpsOff)
  | some cur =>
    match (w.utc x).usable with
    | none => w.finish .renew (.error clockUnset)
    | some now =>
      w.issue name cur.ca (x.lan.or cur.serverIp) (now - backdate) (now - backdate + serverDays * day) x.lan .renew false x

def reset (w : World) : World :=
  { w with memory := {}, promised := none, task := .removing removal }

/-- `turn_on` has saved all the files. -/
def created (w : World) (root : Cert) (issuing server : KeyCert) (ip : Ipv4) (x : Outcome) : World :=
  match Ca.new root issuing with
  | .error e => w.finish .turnOn (.error e)
  | .ok ca =>
    match Loaded.new ca server with
    | .error e => w.finish .turnOn (.error e)
    | .ok (l, key) => (w.install l key).refresh name l (some ip) .turnOn x

def run (w : World) (x : Outcome) : World :=
  match w.task with
  | .idle => w
  | .savingKey ca server lan op refreshing =>
    match x.saved with
    | .error e => w.issueFailed ca op refreshing (saving e)
    | .ok () => { w with disk.serverKey := some server.key, task := .savingCrt ca server lan op refreshing }
  | .savingCrt ca server lan op refreshing =>
    match x.saved with
    | .error e => w.issueFailed ca op refreshing (saving e)
    | .ok () => { w with disk.serverCrt := some server.cert }.issued name ca server lan op refreshing x
  | .creating root issuing server ip [] => w.created name root issuing server ip x
  | .creating root issuing server ip (f :: todo) =>
    match x.saved with
    | .error _ => { w with task := .removing removal }
    | .ok () => { w with disk := w.disk.save root issuing server f, task := .creating root issuing server ip todo }
  | .removing [] => { w with task := .idle }
  | .removing (f :: todo) => { w with disk := w.disk.remove f, task := .removing todo }

def refreshed (w : World) (lan : Option Ipv4) (x : Outcome) : World :=
  match w.memory.loaded with
  | some cur => w.refresh name cur lan .check x
  | none => w

def step (w : World) : Event → World
  | .run x => w.run name x
  | .powerLoss => { w with memory := {}, task := .idle, started := false }
  | e =>
    match w.task with
    | .idle =>
      match e with
      | .start x => w.start name x
      | .turnOn x => w.turnOn name x
      | .renew x => w.renew name x
      | .lanChanged ip x => w.refreshed name (some ip) x
      | .check x => w.refreshed name x.lan x
      | .reset => w.reset
      | _ => w
    | _ => w

end World

end OpenU60.Tls
