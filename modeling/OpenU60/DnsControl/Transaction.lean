/-
  OpenU60.DnsControl.Transaction — applying DNS settings (`zte-agent/src/dns_control.rs`:
  `parse_candidate`, `apply_guarded`, `snapshot`, `apply_candidate`, `restore`,
  `set_forwarding`; `zte-agent/src/doh/mod.rs`: `install_config`, `start`, `stop`).

  What is changed is the router's DNS, the encrypted resolver's configuration in memory and
  on disk, its proxy, dnsmasq's forwarding file and what dnsmasq has loaded of it. A script
  of statements changes it, each of which may fail. Requests are threads: they read the
  configuration before they take the lock and run their scripts under it.
-/

import Mathlib
import OpenU60.Lib.Text

namespace OpenU60.DnsControl

inductive EncryptedTransport where
  | doh
  | dot
  deriving DecidableEq

structure DohConfig where
  enabled : Bool := false
  listenAddr : String := "127.0.0.1:5353"
  transport : EncryptedTransport := .doh
  upstreamUrl : String := "https://1.1.1.1/dns-query"
  dotEndpoint : String := "1.1.1.1:853"
  dotServerName : String := "one.one.one.one"
  bootstrapPrimary : String := ""
  bootstrapSecondary : String := ""
  timeoutMs : Nat := 3000
  cacheEnabled : Bool := true
  cacheMaxEntries : Nat := 512
  deriving DecidableEq

structure RouterDns where
  mode : String
  primary : String
  secondary : String
  deriving DecidableEq

inductive Mode where
  | automatic
  | manual
  | doh
  | dot
  deriving DecidableEq

def Mode.encrypted : Mode → Bool
  | doh => true
  | dot => true
  | _ => false

structure Request where
  mode : String
  primary : String := ""
  secondary : String := ""
  dohUrl : String := ""
  dotEndpoint : String := ""
  dotServerName : String := ""
  deriving DecidableEq

/-- The checks of single fields, which rest on address, URL and name parsers; an address is
    its text. -/
structure Checks where
  server : (value label : String) → (required : Bool) → Except String (Option String)
  dohUrl : String → Except String Unit
  dotEndpoint : String → Except String String
  serverName : String → Except String Unit

/-- A request that has passed them. -/
structure Checked where
  mode : Mode
  primary : Option String
  secondary : Option String
  upstreamUrl : String
  dotEndpoint : String
  dotServerName : String
  deriving DecidableEq

structure Candidate where
  mode : Mode
  primary : Option String
  secondary : Option String
  encrypted : DohConfig
  deriving DecidableEq

def trim (s : String) : String := String.ofList (Lib.Text.trim s.toList)

/-- The part of `parse_candidate` that does not look at the configuration; `lan` is the
    router's own address, if it can be read. -/
def checkRequest (checks : Checks) (lan : Option String) (r : Request) : Except String Checked := do
  let mode ← match r.mode with
    | "automatic" => pure Mode.automatic
    | "manual" => pure Mode.manual
    | "doh" => pure Mode.doh
    | "dot" => pure Mode.dot
    | _ => throw "mode must be automatic, manual, doh or dot"
  let primary ← checks.server r.primary "Primary DNS" (mode ≠ .automatic)
  let secondary ← checks.server r.secondary "Secondary DNS" false
  if primary.isSome && primary = secondary then throw "Primary and secondary DNS must be different"
  if lan.isSome && (primary = lan || secondary = lan) then throw "A DNS server cannot be the router's own LAN address"
  match mode with
  | .doh =>
    checks.dohUrl r.dohUrl
    return ⟨mode, primary, secondary, trim r.dohUrl, "", ""⟩
  | .dot =>
    let endpoint ← checks.dotEndpoint r.dotEndpoint
    checks.serverName r.dotServerName
    return ⟨mode, primary, secondary, "", endpoint, trim r.dotServerName⟩
  | _ => return ⟨mode, primary, secondary, "", "", ""⟩

/-- The rest of it: the encrypted configuration, from the one there is. -/
def Checked.candidate (r : Checked) (config : DohConfig) : Candidate :=
  let encrypted := { config with enabled := r.mode.encrypted }
  let encrypted := match r.mode with
    | .doh => { encrypted with transport := .doh, upstreamUrl := r.upstreamUrl }
    | .dot => { encrypted with transport := .dot, dotEndpoint := r.dotEndpoint, dotServerName := r.dotServerName }
    | _ => encrypted
  let encrypted :=
    if r.mode.encrypted then
      { encrypted with bootstrapPrimary := r.primary.getD "", bootstrapSecondary := r.secondary.getD "" }
    else encrypted
  ⟨r.mode, r.primary, r.secondary, encrypted⟩

def routerFor (c : Candidate) : RouterDns :=
  ⟨if c.mode = .automatic then "auto" else "manual", c.primary.getD "", c.secondary.getD ""⟩

/-! ## What is changed -/

structure Dns where
  router : RouterDns
  config : DohConfig
  /-- The configuration's file. -/
  saved : DohConfig
  /-- The proxy's client for DNS over TLS has been made. -/
  dotClient : Bool := true
  running : Bool := false
  /-- The forwarding file is there. -/
  forwarding : Bool := false
  /-- dnsmasq has loaded it. -/
  pointed : Bool := false
  deriving DecidableEq

/-- How a statement goes. -/
structure Outcome where
  ok : Bool := true
  /-- A router call that failed has been carried out all the same. -/
  taken : Bool := false
  deriving DecidableEq

inductive Stmt where
  | setRouterDns (r : RouterDns)
  | stop
  /-- Installs a configuration, or the one there is, switched on or off. -/
  | setConfig (next : Option DohConfig) (enabled : Bool)
  | dotClient
  | start
  | save
  | writeForwarding
  | removeForwarding
  | restartDnsmasq
  | verify (encrypted : Bool)
  deriving DecidableEq

/-- The state a statement leaves, and whether it succeeded. -/
def Stmt.exec (t : Stmt) (s : Dns) (x : Outcome) : Dns × Bool :=
  match t with
  | .setRouterDns r => (if x.ok || x.taken then { s with router := r } else s, x.ok)
  | .stop => ({ s with running := false }, true)
  | .setConfig next enabled => ({ s with config := { next.getD s.config with enabled := enabled } }, true)
  | .dotClient => if s.dotClient then (s, true) else ({ s with dotClient := x.ok }, x.ok)
  | .start => if s.running then (s, false) else ({ s with running := x.ok }, x.ok)
  | .save => (if x.ok then { s with saved := s.config } else s, x.ok)
  | .writeForwarding => if s.forwarding then (s, true) else ({ s with forwarding := x.ok }, x.ok)
  | .removeForwarding => (if x.ok then { s with forwarding := false } else s, x.ok)
  | .restartDnsmasq => (if x.ok then { s with pointed := s.forwarding } else s, x.ok)
  | .verify encrypted => (s, (!encrypted || s.running) && x.ok)

def installConfig (next : Option DohConfig) (enabled : Bool) : List Stmt :=
  [.stop, .setConfig next enabled, .dotClient] ++ (if enabled then [.start] else []) ++ [.save]

def setForwarding (enabled : Bool) : List Stmt :=
  [if enabled then .writeForwarding else .removeForwarding, .restartDnsmasq]

def applyCandidate (c : Candidate) : List Stmt :=
  .setRouterDns (routerFor c) ::
    if c.mode.encrypted then installConfig (some c.encrypted) true ++ setForwarding true ++ [.verify true]
    else installConfig none false ++ setForwarding false ++ [.verify false]

structure Snapshot where
  router : RouterDns
  encrypted : DohConfig
  proxyRunning : Bool
  deriving DecidableEq

def snapshot (s : Dns) : Snapshot := ⟨s.router, s.config, s.running⟩

def restore (snap : Snapshot) : List Stmt :=
  .setRouterDns snap.router :: installConfig (some snap.encrypted) snap.proxyRunning ++ setForwarding snap.proxyRunning

/-! ## Under the lock -/

inductive Answer where
  | invalid (error : String)
  | untested
  | unsaved
  | applied
  | rolledBack
  | rollbackFailed
  deriving DecidableEq

def Answer.status : Answer → Nat
  | invalid _ => 400
  | untested => 422
  | unsaved => 503
  | applied => 200
  | rolledBack => 502
  | rollbackFailed => 500

/-- The `rolled_back` of the answer's data. -/
def Answer.reportsRollback : Answer → Option Bool
  | applied => some false
  | rolledBack => some true
  | rollbackFailed => some false
  | _ => none

/-- Where the rest of `apply_guarded` has got to; `before` is what the snapshot was taken of. -/
inductive Control where
  | snapshotting
  | applying (before : Dns) (todo : List Stmt)
  | restoring (before : Dns) (todo : List Stmt)
  | answered (a : Answer)
  deriving DecidableEq

/-- The next statement of `apply_guarded` after it has taken the lock. -/
def Control.step (c : Candidate) (p : Dns × Control) (x : Outcome) : Dns × Control :=
  match p with
  | (s, .snapshotting) => (s, if x.ok then .applying s (applyCandidate c) else .answered .unsaved)
  | (s, .applying _ []) => (s, .answered .applied)
  | (s, .applying before (t :: todo)) =>
    let r := t.exec s x
    (r.1, if r.2 then .applying before todo else .restoring before (restore (snapshot before)))
  | (s, .restoring _ []) => (s, .answered .rolledBack)
  | (s, .restoring before (t :: todo)) =>
    let r := t.exec s x
    (r.1, if r.2 then .restoring before todo else .answered .rollbackFailed)
  | (s, .answered a) => (s, .answered a)

/-- The whole of it for a request that is alone. -/
def serve (r : Checked) (s : Dns) (xs : List Outcome) : Dns × Control :=
  xs.foldl (Control.step (r.candidate s.config)) (s, .snapshotting)

/-! ## Requests at the same time -/

inductive Phase where
  | idle
  /-- About to read the configuration. -/
  | reading (r : Checked)
  | testing (r : Checked) (c : Candidate)
  /-- For the lock. -/
  | waiting (r : Checked) (c : Candidate)
  | holding (c : Candidate) (k : Control)
  | done (a : Answer)
  deriving DecidableEq

structure World where
  dns : Dns
  transaction : Option Nat := none
  requests : Nat → Phase := fun _ => .idle
  /-- The requests that have taken the lock, in that order, with how their statements went. -/
  served : List (Checked × List Outcome) := []

inductive Event where
  | apply (i : Nat) (lan : Option String) (r : Request)
  | run (i : Nat) (x : Outcome)

namespace World

def moved (w : World) (i : Nat) (p : Phase) : World := { w with requests := Function.update w.requests i p }

/-- One more statement of the request that holds the lock. -/
def noted (w : World) (x : Outcome) : World :=
  { w with served := w.served.dropLast ++ (w.served.getLast?.map fun r => (r.1, r.2 ++ [x])).toList }

def run (w : World) (i : Nat) (x : Outcome) : World :=
  match w.requests i with
  | .idle => w
  | .reading r => w.moved i (.testing r (r.candidate w.dns.config))
  | .testing r c => if x.ok then w.moved i (.waiting r c) else w.moved i (.done .untested)
  | .waiting r c =>
    match w.transaction with
    | some _ => w
    | none => { w.moved i (.holding c .snapshotting) with transaction := some i, served := w.served ++ [(r, [])] }
  | .holding c k =>
    let p := Control.step c (w.dns, k) x
    match p.2 with
    | .answered a => { (w.noted x).moved i (.done a) with dns := p.1, transaction := none }
    | k => { (w.noted x).moved i (.holding c k) with dns := p.1 }
  | .done _ => w

def step (checks : Checks) (w : World) : Event → World
  | .apply i lan r =>
    match w.requests i with
    | .idle =>
      match checkRequest checks lan r with
      | .ok r => w.moved i (.reading r)
      | .error e => w.moved i (.done (.invalid e))
    | _ => w
  | .run i x => w.run i x

end World

end OpenU60.DnsControl
