/-
  OpenU60.Ttl.Manager — the TTL rules (`zte-agent/src/ttl.rs`: `Config`, `TtlManager::new`,
  `update`, `reconcile`, `apply`, `ensure_family`, `clear_family`).

  One chain in each mangle table and a jump to it, made and taken away by commands of which
  each may fail without effect, and a configuration file. The process may end between any two
  commands: it does where the attempts it is given run out.
-/

import Mathlib
import OpenU60.Lib.Json
import OpenU60.Lib.Program

namespace OpenU60.Ttl

open OpenU60.Lib OpenU60.Lib.Program OpenU60.Lib.Program.Prog

/-! ## Configuration -/

structure Config where
  enabled : Bool := false
  ipv4Ttl : UInt8 := 64
  ipv6HopLimit : UInt8 := 64
  deriving DecidableEq, Repr

def Config.validate (c : Config) : Except String Config :=
  if c.ipv4Ttl = 0 then .error "ipv4_ttl must be 1-255"
  else if c.ipv6HopLimit = 0 then .error "ipv6_hop_limit must be 1-255"
  else .ok c

/-- `patch.get(key)`: a null is a value. -/
def field (patch : Json) (key : String) : Option Json :=
  match patch with
  | .obj fields => (fields.find? (·.1 == key)).map (·.2)
  | _ => none

def parseHopValue (value : Json) (name : String) : Except String UInt8 :=
  match value.asU64 with
  | none => .error (name ++ " must be an integer from 1 to 255")
  | some n => if n ≤ 255 ∧ n ≠ 0 then .ok (UInt8.ofNat n) else .error (name ++ " must be 1-255")

/-- A field of the patch, or what there was. -/
def patchField {α : Type} (patch : Json) (key : String) (previous : α) (parse : Json → Except String α) : Except String α :=
  match field patch key with
  | none => .ok previous
  | some value => parse value

def parseBool (value : Json) (name : String) : Except String Bool :=
  match value.asBool with
  | some b => .ok b
  | none => .error (name ++ " must be a boolean")

def Config.patched (c : Config) (patch : Json) : Except String Config := do
  let enabled ← patchField patch "enabled" c.enabled (parseBool · "enabled")
  let ipv4Ttl ← patchField patch "ipv4_ttl" c.ipv4Ttl (parseHopValue · "ipv4_ttl")
  let ipv6HopLimit ← patchField patch "ipv6_hop_limit" c.ipv6HopLimit (parseHopValue · "ipv6_hop_limit")
  Config.validate ⟨enabled, ipv4Ttl, ipv6HopLimit⟩

/-- `serde_json` for a configuration. -/
structure Serde where
  toText : Config → String
  fromText : String → Option Config

def Serde.load (S : Serde) (file : Option String) : Config :=
  ((file.bind S.fromText).bind fun c => c.validate.toOption).getD {}

/-! ## Firewall -/

inductive Program where
  | iptables
  | ip6tables
  deriving DecidableEq

def Program.name : Program → String
  | .iptables => "iptables"
  | .ip6tables => "ip6tables"

/-- A rule's specification. -/
abbrev Rule := List String

def chainName : String := "OPENU60_TTL"
def wanInterface : String := "rmnet_data0"
def jump : Rule := ["-j", chainName]

/-- A mangle table: the agent's chain, if there is one, and the rules of POSTROUTING. -/
structure Table where
  chain : Option (List Rule)
  postrouting : List Rule
  deriving DecidableEq

/-- The commands, all after `-w 2 -t mangle`. -/
inductive Command where
  /-- `-N OPENU60_TTL`. -/
  | new
  /-- `-F OPENU60_TTL`. -/
  | flush
  /-- `-A OPENU60_TTL rule`. -/
  | append (rule : Rule)
  /-- `-I POSTROUTING 1 -j OPENU60_TTL`. -/
  | insert
  /-- `-D POSTROUTING -j OPENU60_TTL`. -/
  | delete
  /-- `-X OPENU60_TTL`: the chain has to be empty, without a jump to it. -/
  | remove

/-- The table after a command, none where it is refused. -/
def Command.effect (t : Table) : Command → Option Table
  | .new => if t.chain.isNone then some { t with chain := some [] } else none
  | .flush => t.chain.map fun _ => { t with chain := some [] }
  | .append rule => t.chain.map fun rules => { t with chain := some (rules ++ [rule]) }
  | .insert => if t.chain.isSome then some { t with postrouting := jump :: t.postrouting } else none
  | .delete => if jump ∈ t.postrouting then some { t with postrouting := t.postrouting.erase jump } else none
  | .remove => if t.chain = some [] ∧ jump ∉ t.postrouting then some { t with chain := none } else none

/-- `-S OPENU60_TTL`. -/
def listed (t : Table) : Bool := t.chain.isSome

/-- `-C POSTROUTING -j OPENU60_TTL`. -/
def checked (t : Table) : Bool := t.chain.isSome && t.postrouting.contains jump

/-! ## Statements -/

/-- What the system makes of a statement, and what it reports where that fails. -/
structure Attempt where
  allowed : Bool := true
  spawned : Bool := true
  error : String := ""
  status : String := ""
  stderr : String := ""
  deriving DecidableEq

structure Env where
  tables : Program → Table
  file : Option String
  temp : Option String
  attempts : List Attempt
  /-- The configurations applied since the process started, and whether without error. -/
  applied : List (Config × Bool)

def statement (effect : Env → Option Env) (message : Attempt → String) : Prog Env Unit := fun env =>
  match env.attempts with
  | [] => (.killed, env)
  | a :: rest =>
    match if a.allowed then effect env else none with
    | some env' => (.done (), { env' with attempts := rest })
    | none => (.failed (message a), { env with attempts := rest })

def failureText (program : String) (a : Attempt) : String :=
  if !a.spawned then "run " ++ program ++ ": " ++ a.error
  else
    let detail := String.ofList (Text.trim a.stderr.toList)
    if detail.isEmpty then program ++ " exited with " ++ a.status else program ++ ": " ++ detail

def runRequired (p : Program) (c : Command) : Prog Env Unit :=
  statement (fun env => (c.effect (env.tables p)).map fun t => { env with tables := Function.update env.tables p t })
    (failureText p.name)

/-- An existence check, which answers truthfully. -/
def succeeds (p : Program) (check : Table → Bool) : Prog Env Bool := Prog.read fun env => check (env.tables p)

def rewriteRule (target setOption : String) (value : UInt8) : Rule :=
  ["-o", wanInterface, "-j", target, setOption, toString value.toNat]

def ensureFamily (p : Program) (target setOption : String) (value : UInt8) : Prog Env Unit := do
  let there ← succeeds p listed
  skipIf there (runRequired p .new)
  runRequired p .flush
  runRequired p (.append (rewriteRule target setOption value))
  let there ← succeeds p checked
  skipIf there (runRequired p .insert)

def clearFamily (p : Program) : Prog Env Unit := do
  let there ← succeeds p listed
  skipIf (!there) do
    let there ← succeeds p checked
    skipIf (!there) (runRequired p .delete)
    runRequired p .flush
    runRequired p .remove

def apply (c : Config) : Prog Env Unit :=
  if c.enabled then do
    ensureFamily .iptables "TTL" "--ttl-set" c.ipv4Ttl
    ensureFamily .ip6tables "HL" "--hl-set" c.ipv6HopLimit
  else do
    clearFamily .iptables
    clearFamily .ip6tables

/-- `apply` where its error is looked at. -/
def tryApply (c : Config) : Prog Env (Except String Unit) := do
  let result ← catching (apply c)
  change fun env => { env with applied := env.applied ++ [(c, result.toBool)] }
  return result

def Serde.save (S : Serde) (c : Config) : Prog Env Unit := do
  statement (fun env => some { env with temp := some (S.toText c) }) fun a => "write TTL configuration: " ++ a.error
  statement (fun env => env.temp.map fun text => { env with file := some text, temp := none }) fun a =>
    "commit TTL configuration: " ++ a.error

/-! ## The manager -/

structure State where
  config : Config
  active : Bool := false
  lastError : Option String := none
  deriving DecidableEq

inductive UpdateError where
  | invalid (error : String)
  | apply (error : String)
  deriving DecidableEq

def withRollback (error : String) : Except String Unit → String
  | .error rollback => error ++ "; rollback also failed: " ++ rollback
  | .ok () => error

/-- The previous configuration again after `error`. -/
def rollBack (s : State) (error : String) : Prog Env (State × Except UpdateError Unit) := do
  let result ← tryApply s.config
  return ({ s with active := s.config.enabled && result.toBool, lastError := some (withRollback error result) },
    .error (.apply error))

def update (S : Serde) (patch : Json) (s : State) : Prog Env (State × Except UpdateError Unit) :=
  match s.config.patched patch with
  | .error e => pure (s, .error (.invalid e))
  | .ok next => do
    let result ← tryApply next
    match result with
    | .error e => rollBack s e
    | .ok () =>
      let saved ← catching (S.save next)
      match saved with
      | .error e => rollBack s e
      | .ok () => pure (⟨next, next.enabled, none⟩, .ok ())

def reconcile (s : State) : Prog Env State := do
  let result ← tryApply s.config
  match result with
  | .ok () => pure { s with active := s.config.enabled, lastError := none }
  | .error e => pure { s with active := false, lastError := some e }

/-! ## Runs of the agent -/

/-- The router, and the manager of the process that runs. -/
structure World where
  env : Env
  manager : Option State

inductive Event where
  /-- A process starts, whatever became of the one before. -/
  | start
  | reconcile (attempts : List Attempt)
  /-- A WAN event. -/
  | wan (attempts : List Attempt)
  | update (patch : Json) (attempts : List Attempt)

def Env.given (env : Env) (attempts : List Attempt) : Env := { env with attempts := attempts }

/-- A process whose program is cut off leaves no manager. -/
def leave {α : Type} (state : α → State) : Outcome α × Env → World
  | (.done a, env) => ⟨env, some (state a)⟩
  | (_, env) => ⟨env, none⟩

def step (S : Serde) (w : World) : Event → World
  | .start => ⟨{ w.env with applied := [] }, some ⟨S.load w.env.file, false, none⟩⟩
  | .reconcile attempts =>
    match w.manager with
    | none => w
    | some s => leave id (Ttl.reconcile s (w.env.given attempts))
  | .wan attempts =>
    match w.manager with
    | none => w
    | some s => if s.config.enabled then leave id (Ttl.reconcile s (w.env.given attempts)) else w
  | .update patch attempts =>
    match w.manager with
    | none => w
    | some s => leave Prod.fst (Ttl.update S patch s (w.env.given attempts))

end OpenU60.Ttl
