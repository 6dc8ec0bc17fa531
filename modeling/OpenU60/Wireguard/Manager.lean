/-
  OpenU60.Wireguard.Manager — the WireGuard tunnel's manager
  (`zte-agent/src/wireguard.rs`: `reconcile`, `replace`, `set_enabled`, `record_failure`,
  `Config::save`, `apply`).

  Operations are threads: an update (import, enable, disable) or a reconcile after the WAN
  has come back. Each statement that reads or writes the manager's state, applies a
  configuration to the kernel or saves one is a step of its own; no lock spans them. One
  reconcile at a time runs in the agent; here any number may.
-/

import Mathlib

namespace OpenU60.Wireguard

structure Peer where
  name : String
  publicKey : String
  presharedKey : Option String := none
  endpoint : String
  allowedIps : List String
  persistentKeepalive : Option Nat := none
  deriving DecidableEq

structure Config where
  enabled : Bool := false
  privateKey : String := ""
  addresses : List String := []
  dns : List String := []
  mtu : Nat := 1420
  listenPort : Option Nat := none
  peers : List Peer := []
  deriving DecidableEq

/-- How applying a configuration goes. -/
structure Kernel where
  /-- No link is left once the old state has been cleared. -/
  gone : Bool := true
  /-- The firewall chains have been removed. -/
  chains : Bool := true
  /-- The endpoints resolve, and no route contains one or the LAN address. -/
  resolved : Bool := true
  /-- The link, its addresses, routes and rules are set up. -/
  configured : Bool := true
  /-- If not, no link is left after clearing again. -/
  goneAgain : Bool := true
  error : String := ""
  deriving DecidableEq

/-- The tunnel that is up after `apply`, by its configuration, and the result. -/
def apply (validate : Config → Except String Unit) (config : Config) (x : Kernel) (tunnel : Option Config) :
    Option Config × Except String Unit :=
  let cleared := if x.gone then none else tunnel
  if !x.chains then (cleared, .error x.error)
  else if !config.enabled then (cleared, .ok ())
  else
    match validate config with
    | .error e => (cleared, .error e)
    | .ok () =>
      if !x.resolved then (cleared, .error x.error)
      else if !x.configured then (if x.goneAgain then none else some config, .error x.error)
      else (some config, .ok ())

inductive UpdateError where
  | invalid (error : String)
  | apply (error : String)
  deriving DecidableEq

def withRollback (error : String) : Option String → String
  | some rollback => error ++ "; rollback also failed: " ++ rollback
  | none => error

/-- The next statement of an operation. An update by `set_enabled` carries its flag. -/
inductive Op where
  | idle
  | done (r : Except UpdateError Unit)
  /-- `set_enabled` reads the configuration. -/
  | reading (enabled : Bool)
  /-- `replace` reads the one to go back to. -/
  | replacing (next : Config) (flag : Option Bool)
  | applying (next previous : Config) (flag : Option Bool)
  | saving (next previous : Config) (flag : Option Bool)
  | rollingBack (next previous : Config) (error : String)
  /-- `record_failure` -/
  | recording (previous : Config) (error : String) (rollback : Option String)
  | writing (next : Config) (flag : Option Bool)
  /-- A WAN event asks whether the tunnel is enabled. -/
  | checking
  /-- `reconcile` reads the configuration. -/
  | reconciling
  | reapplying (config : Config)
  | noting (config : Config) (r : Except String Unit)

structure Outcome where
  kernel : Kernel := {}
  saved : Bool := true
  error : String := ""
  deriving DecidableEq

structure World where
  config : Config
  active : Bool := false
  lastError : Option String := none
  /-- The saved configuration; `none` is no file or one that cannot be read. -/
  file : Option Config
  /-- The configuration of the kernel's tunnel. -/
  tunnel : Option Config
  ops : Nat → Op
  /-- The operations that have applied a configuration and not written their result. -/
  applied : List Nat := []
  /-- An update has succeeded. -/
  updated : Bool := false

inductive Event where
  | importConfig (i : Nat) (next : Config)
  | setEnabled (i : Nat) (enabled : Bool)
  /-- The WAN is connected again. -/
  | reconnect (i : Nat)
  | run (i : Nat) (x : Outcome)

namespace World

variable (validate : Config → Except String Unit)

def moved (w : World) (i : Nat) (o : Op) : World := { w with ops := Function.update w.ops i o }

/-- `replace` -/
def replace (w : World) (i : Nat) (next : Config) (flag : Option Bool) : World :=
  match validate next with
  | .error e => w.moved i (.done (.error (.invalid e)))
  | .ok () => w.moved i (.replacing next flag)

def run (w : World) (i : Nat) (x : Outcome) : World :=
  match w.ops i with
  | .idle => w
  | .done _ => w
  | .reading enabled =>
    if w.config.privateKey = "" then
      w.moved i (.done (.error (.invalid "import a WireGuard configuration before enabling the tunnel")))
    else w.replace validate i { w.config with enabled := enabled } (some enabled)
  | .replacing next flag => w.moved i (.applying next w.config flag)
  | .applying next previous flag =>
    let r := apply validate next x.kernel w.tunnel
    let w := { w with tunnel := r.1, applied := i :: w.applied }
    match r.2 with
    | .ok () => w.moved i (.saving next previous flag)
    | .error e => w.moved i (.rollingBack next previous e)
  | .saving next previous flag =>
    if x.saved then { w with file := some next }.moved i (.writing next flag)
    else w.moved i (.rollingBack next previous x.error)
  | .rollingBack _ previous error =>
    let r := apply validate previous x.kernel w.tunnel
    { w with tunnel := r.1 }.moved i (.recording previous error (match r.2 with
      | .ok () => none
      | .error e => some e))
  | .recording previous error rollback =>
    { w with active := previous.enabled && rollback.isNone, lastError := some (withRollback error rollback),
             applied := w.applied.erase i }.moved i (.done (.error (.apply (withRollback error rollback))))
  | .writing next _ =>
    { w with config := next, active := next.enabled, lastError := none, applied := w.applied.erase i,
             updated := true }.moved i (.done (.ok ()))
  | .checking => w.moved i (if w.config.enabled then .reconciling else .done (.ok ()))
  | .reconciling => w.moved i (.reapplying w.config)
  | .reapplying config =>
    let r := apply validate config x.kernel w.tunnel
    { w with tunnel := r.1, applied := i :: w.applied }.moved i (.noting config r.2)
  | .noting config r =>
    match r with
    | .ok () =>
      { w with active := config.enabled, lastError := none, applied := w.applied.erase i }.moved i (.done (.ok ()))
    | .error e =>
      { w with active := false, lastError := some e, applied := w.applied.erase i }.moved i (.done (.ok ()))

def step (w : World) : Event → World
  | .importConfig i next =>
    match w.ops i with
    | .idle => w.replace validate i next none
    | _ => w
  | .setEnabled i enabled =>
    match w.ops i with
    | .idle => w.moved i (.reading enabled)
    | _ => w
  | .reconnect i =>
    match w.ops i with
    | .idle => w.moved i .checking
    | _ => w
  | .run i x => w.run validate i x

/-- The agent has started: operation 0 is the reconcile of the start. -/
def start (config : Config) (lastError : Option String) (file tunnel : Option Config) : World :=
  { config := config, lastError := lastError, file := file, tunnel := tunnel,
    ops := Function.update (fun _ => .idle) 0 .reconciling }

end World

end OpenU60.Wireguard
