/-
  OpenU60.Ota.Machine — the agent, the helper processes and the boot script over one
  disk: every interleaving of an update.

  The processes are one agent at most, and the helpers by process id. A step is one file
  operation (or one start of a process) of one of them, a death of one of them, or a
  power loss, after which the boot script runs. `launchHelper` and the helper follow
  `launch_helper`, `helper_cli` and `recover` of `ota/mod.rs`; nothing in them is timed,
  so a deadline may pass at any moment.
-/

import OpenU60.Lib.Machine
import OpenU60.Ota.Manager
import OpenU60.Ota.Supervisor

namespace OpenU60.Ota

open OpenU60.Lib

/-- How far a helper has got. `child` is the pid of the candidate it started, `ran` the
    build that was in the slot when it did. -/
inductive HelperStage (Bytes : Type) where
  | ready
  | waitParent
  | timeoutPending
  | timeoutReady
  | spawn
  | trial (child : Nat) (ran : Bytes)
  | commitActive (child : Nat) (ran : Bytes)
  | commitLink (child : Nat) (ran : Bytes)
  | commitPending (child : Nat) (ran : Bytes)
  | stableBinary
  | stableMeta
  | block (child : Option Nat)
  | recoverActive (child : Option Nat)
  | recoverLink
  | recoverPending
  | recoverStart
  | rescueStart
  | rescueMarker
  | rescueLink

structure Helper (Bytes : Type) where
  exe : Bytes
  trialEnv : Bool
  parent : Nat
  args : Handover
  stage : HelperStage Bytes

structure World (Bytes : Type) where
  disk : Disk Bytes
  agent : Option (Manager Bytes)
  helper : Nat → Option (Helper Bytes)
  nextPid : Nat

/-- What a step of a helper meets: how its file operation went, whether the process it
    starts starts and the trial it watches passes, and how that process's start goes. -/
structure HelperTurn where
  io : Io
  ok : Bool
  startup : Startup

inductive Event (Bytes : Type) where
  | check (saved : Io)
  | checked (c : Manager.Channels) (now : Nat) (saved : Io)
  | download (saved : Io)
  | downloadStep (t : Manager.DownloadTurn Bytes)
  | install (saved : Io)
  | rollback (saved : Io)
  | preflight (supervisor : Io) (other : Option String) (saved : Io)
  | launch (io saved : Io)
  | poll (io : Io) (status : String)
  | deadline
  | updateSettings (body : Option Manager.SettingsInput) (io saved : Io)
  | trialState (supervisor saved : Io)
  | agentDies
  | helper (pid : Nat) (t : HelperTurn)
  | helperDies (pid : Nat)
  | boot (s : Startup)

variable {Bytes : Type} (P : Platform Bytes)

namespace World

@[simps] def withAgent (w : World Bytes) (r : Manager Bytes × Disk Bytes) : World Bytes :=
  { w with agent := some r.1, disk := r.2 }

@[simps] def setHelper (w : World Bytes) (pid : Nat) (h : Option (Helper Bytes)) : World Bytes :=
  { w with helper := Function.update w.helper pid h }

/-- `child.kill()` and `child.wait()`. -/
@[simps] def killAgent (w : World Bytes) (pid : Nat) : World Bytes :=
  { w with agent := w.agent.filter (·.pid != pid) }

/-- A new process takes the next pid. -/
def startProcess (w : World Bytes) (exe : Bytes) (trialEnv : Bool) (s : Startup) : World Bytes :=
  { w.withAgent (startAgent w.nextPid exe trialEnv w.disk s) with nextPid := w.nextPid + 1 }

/-! ## `launch_helper` -/

/-- The helper's exit before the hand-over, or its start having failed. -/
@[simps] def abort (w : World Bytes) (g : Manager Bytes) (l : Handover) (error : String) : World Bytes :=
  { w with agent := some (g.next (.launching l (.abortReady error))) }

def launchHelper (w : World Bytes) (g : Manager Bytes) (l : Handover) (stage : LaunchStage) (io saved : Io) :
    World Bytes :=
  match stage with
  | .clearReady =>
    let io := Disk.clearIo w.disk.helperReady io
    let d := w.disk.clearHelperReady io
    match io.error? with
    | none => w.withAgent (g.next (.launching l .writePending), d)
    | some e => w.withAgent (g.fail d ("cannot clear stale helper handshake: " ++ e) saved)
  | .writePending =>
    let d := w.disk.writePending l.candidate l.previous l.version io
    match (Disk.pendingIo l.version io).error? with
    | none => w.withAgent (g.next (.launching l .spawn), d)
    | some e => w.withAgent (g.fail d e saved)
  | .spawn =>
    match io.error? with
    | none =>
      { (w.setHelper w.nextPid (some ⟨g.exe, g.trialEnv, g.pid, l, .ready⟩)).withAgent
          (g.next (.launching l (.waiting w.nextPid)), w.disk) with nextPid := w.nextPid + 1 }
    | some e => w.abort g l ("cannot start update helper: " ++ e)
  | .waiting _ => w
  | .abortReady error =>
    let io := Disk.clearIo w.disk.helperReady io
    w.withAgent (g.next (.launching l (.abortPending error io.error?)), w.disk.clearHelperReady io)
  | .abortPending error readyError =>
    let io := Disk.clearIo w.disk.inTrial io
    let message :=
      match io.error?, readyError with
      | none, none => error
      | none, some e => error ++ "; cannot clear helper handshake: " ++ e
      | some e, _ => error ++ "; cannot clear pending marker: " ++ e
    w.withAgent (g.fail (w.disk.clearPending io) message saved)

/-- One look of the agent at the handshake and at its child. -/
def poll (w : World Bytes) (g : Manager Bytes) (l : Handover) (pid : Nat) (io : Io) (status : String) : World Bytes :=
  if w.disk.helperReady then
    let d := w.disk.clearHelperReady io
    match io.error? with
    | none => w.withAgent ({ g with op := none, exiting := true }, d)
    | some e => ({ w.setHelper pid none with disk := d }).abort g l ("cannot clear helper handshake: " ++ e)
  else if (w.helper pid).isNone then w.abort g l ("update helper exited before handoff with " ++ status)
  else w

def launchStep (w : World Bytes) (io saved : Io) : World Bytes :=
  match w.agent with
  | some g =>
    match g.op with
    | some (.launching l stage) => w.launchHelper g l stage io saved
    | _ => w
  | none => w

def pollStep (w : World Bytes) (io : Io) (status : String) : World Bytes :=
  match w.agent with
  | some g =>
    match g.op with
    | some (.launching l (.waiting pid)) => w.poll g l pid io status
    | _ => w
  | none => w

def deadlineStep (w : World Bytes) : World Bytes :=
  match w.agent with
  | some g =>
    match g.op with
    | some (.launching l (.waiting pid)) => (w.setHelper pid none).abort g l "update helper did not confirm startup"
    | _ => w
  | none => w

/-! ## The helper -/

@[simps] def blockVersion (d : Disk Bytes) (version : String) (io : Io) : Disk Bytes :=
  { d with blocked := if !d.blocked.contains version && io.effect then d.blocked ++ [version] else d.blocked }

def startable (binary : Option (Binary Bytes)) : Option Bytes := (binary.filter (·.executable)).map (·.bytes)

def alive (w : World Bytes) (pid : Nat) : Bool := w.agent.any (·.pid == pid)

/-- The helper goes on to a stage, or has returned. -/
@[simps] def goes (w : World Bytes) (pid : Nat) (h : Helper Bytes) (stage : Option (HelperStage Bytes)) : World Bytes :=
  { w with helper := Function.update w.helper pid (stage.map fun stage => { h with stage := stage }) }

@[simps] def onDisk (w : World Bytes) (d : Disk Bytes) : World Bytes := { w with disk := d }

/-- `helper_cli` and `recover`, from one file operation to the next. -/
def helperCli (w : World Bytes) (pid : Nat) (h : Helper Bytes) (t : HelperTurn) : World Bytes :=
  let d := w.disk
  let c := h.args.candidate
  let p := h.args.previous
  match h.stage with
  | .ready => (w.onDisk (d.writeHelperReady t.io)).goes pid h (if t.io.ok then some .waitParent else none)
  | .waitParent =>
    if !w.alive h.parent then w.goes pid h (some .spawn)
    else if t.ok then w else w.goes pid h (some .timeoutPending)
  | .timeoutPending => (w.onDisk (d.clearPending (Disk.clearIo d.inTrial t.io))).goes pid h (some .timeoutReady)
  | .timeoutReady => (w.onDisk (d.clearHelperReady (Disk.clearIo d.helperReady t.io))).goes pid h none
  | .spawn =>
    match startable (d.slot c).binary with
    | some ran =>
      if t.ok then (w.startProcess ran true t.startup).goes pid h (some (.trial w.nextPid ran))
      else w.goes pid h (some (.block none))
    | none => w.goes pid h (some (.block none))
  | .trial child ran =>
    if t.ok && w.alive child then w.goes pid h (some (.commitActive child ran))
    else w.goes pid h (some (.block (some child)))
  | .commitActive child ran =>
    (w.onDisk (d.writeActive c t.io)).goes pid h
      (some (if t.io.ok then .commitLink child ran else .recoverActive (some child)))
  | .commitLink child ran =>
    (w.onDisk (d.pointLegacyLink (.slot c) t.io)).goes pid h
      (some (if t.io.ok then .commitPending child ran else .recoverActive (some child)))
  | .commitPending child _ =>
    let io := Disk.clearIo d.inTrial t.io
    (w.onDisk (d.clearPending io)).goes pid h
      (if !io.ok then some (.recoverActive (some child))
       else if (readJson (d.slot c)).any (·.channel == .stable) then some .stableBinary
       else none)
  | .stableBinary =>
    let copied : Option (Binary Bytes) := (d.slot c).binary.map fun b => ⟨b.bytes, true⟩
    (w.onDisk (if t.io.effect && copied.isSome then { d with stable := { d.stable with binary := copied } } else d)).goes
      pid h (some .stableMeta)
  | .stableMeta =>
    let copied := (d.slot c).metadata
    (w.onDisk (if t.io.effect && copied.isSome then { d with stable := { d.stable with metadata := copied } } else d)).goes
      pid h none
  | .block child => (w.onDisk (blockVersion d h.args.version t.io)).goes pid h (some (.recoverActive child))
  | .recoverActive child =>
    let w := match child with
      | some child => w.killAgent child
      | none => w
    (w.onDisk (w.disk.writeActive p t.io)).goes pid h (some .recoverLink)
  | .recoverLink => (w.onDisk (d.pointLegacyLink (.slot p) t.io)).goes pid h (some .recoverPending)
  | .recoverPending =>
    (w.onDisk (d.clearPending (Disk.clearIo d.inTrial t.io))).goes pid h (some .recoverStart)
  | .recoverStart =>
    match verifyActiveSlot P (P.version h.exe) (d.slot p), startable (d.slot p).binary with
    | .ok (), some b =>
      if t.ok then (w.startProcess b h.trialEnv t.startup).goes pid h none else w.goes pid h (some .rescueStart)
    | _, _ => w.goes pid h (some .rescueStart)
  | .rescueStart =>
    match readJson d.stable with
    | none => w.goes pid h none
    | some m =>
      match verifyReleaseBinary P d.stable.binary m with
      | .error _ => w.goes pid h none
      | .ok b =>
        if t.ok then (w.startProcess b h.trialEnv t.startup).goes pid h (some .rescueMarker) else w.goes pid h none
  | .rescueMarker => (w.onDisk (d.writeRescue t.io)).goes pid h (some .rescueLink)
  | .rescueLink => (w.onDisk (d.pointLegacyLink .stable t.io)).goes pid h none

def helperStep (w : World Bytes) (pid : Nat) (t : HelperTurn) : World Bytes :=
  match w.helper pid with
  | some h => w.helperCli P pid h t
  | none => w

/-! ## Power loss and every step -/

def targetBinary (d : Disk Bytes) : Target → Option (Binary Bytes)
  | .slot s => (d.slot s).binary
  | .stable => d.stable.binary

/-- Every process is gone; the boot script runs and what it starts is the agent. -/
def bootStep (w : World Bytes) (s : Startup) : World Bytes :=
  let r := Supervisor.boot P w.disk
  let off : World Bytes := ⟨r.1, none, fun _ => none, w.nextPid⟩
  match r.2.bind fun t => startable (targetBinary r.1 t) with
  | some b => off.startProcess b false s
  | none => off

/-- A step of the agent, if one runs. -/
def agentStep (w : World Bytes) (f : Manager Bytes → Manager Bytes × Disk Bytes) : World Bytes :=
  match w.agent with
  | some g => w.withAgent (f g)
  | none => w

def step (w : World Bytes) : Event Bytes → World Bytes
  | .check saved => w.agentStep fun g => g.beginOp w.disk .checking .checking saved
  | .checked c now saved => w.agentStep fun g => g.checked P w.disk c now saved
  | .download saved => w.agentStep fun g => g.beginOp w.disk .downloading (.downloading .begun) saved
  | .downloadStep t => w.agentStep fun g => g.downloadStep P w.disk t
  | .install saved => w.agentStep fun g => g.beginOp w.disk .installing .installing saved
  | .rollback saved => w.agentStep fun g => g.beginOp w.disk .rollingBack .rollingBack saved
  | .preflight supervisor other saved => w.agentStep fun g => g.preflight P w.disk supervisor other saved
  | .launch io saved => w.launchStep io saved
  | .poll io status => w.pollStep io status
  | .deadline => w.deadlineStep
  | .updateSettings body io saved => w.agentStep fun g => g.updateSettings w.disk body io saved
  | .trialState supervisor saved => w.agentStep fun g => g.trialState w.disk supervisor saved
  | .agentDies => { w with agent := none }
  | .helper pid t => w.helperStep P pid t
  | .helperDies pid => w.setHelper pid none
  | .boot s => w.bootStep P s

end World

/-! ## A device

A router as set-up leaves it: both slots hold the same build, the first is active. Build
`n` is release `1.n.0`. -/

namespace Device

def versionOf (n : Nat) : String := "1." ++ toString n ++ ".0"

def digestOf (n : Nat) : String := String.ofList (List.replicate 64 (Text.digitChar n))

def library : Library where
  parseVersion s :=
    match (s.toList.splitOn '.').map (Text.parseUnsigned Text.u64Max) with
    | [some major, some minor, some patch] => some ⟨major, minor, patch, "", ""⟩
    | _ => none
  versionLe v w := v.major < w.major || v.major == w.major && (v.minor < w.minor || v.minor == w.minor && v.patch ≤ w.patch)
  parseUrl s :=
    (s.toList.dropPrefix? "https://github.com".toList).map fun path =>
      ⟨"https", some "github.com", "", none, String.ofList path, none, none⟩

def platform : Platform Nat where
  toLibrary := library
  size _ := 2048
  sha256 := digestOf
  startError _ := none
  version := versionOf
  target _ := releaseTarget

def release (n : Nat) : ReleaseManifest where
  schema := 1
  channel := .stable
  version := versionOf n
  tag := "v" ++ versionOf n
  commit := "0f1e2d3"
  target := releaseTarget
  size := 2048
  sha256 := digestOf n
  binaryUrl := "https://github.com/jesther-ai/open-u60-pro/releases/download/v" ++ versionOf n ++ "/zte-agent"
  notesUrl := "https://github.com/jesther-ai/open-u60-pro/releases/tag/v" ++ versionOf n
  publishedAt := "2026-07-17T12:00:00Z"
  minimumUpdaterVersion := "1.0.0"

def seeded (n : Nat) : SlotDir Nat :=
  ⟨some ⟨n, true⟩, none, some ((digestOf n).toList ++ '\n' :: ((versionOf n).toList ++ ['\n']))⟩

def installed : World Nat where
  disk :=
    { settings := none, state := none, active := some (Disk.markerText .a), pending := none, helperReady := false
      blocked := [], supervisor := true, legacyLink := some (.slot .a), slot := fun _ => seeded 0
      stable := ⟨none, none, none⟩ }
  agent := none
  helper := fun _ => none
  nextPid := 1

def startup : Startup := ⟨true, .done, .done⟩

def turn (ok : Bool) : HelperTurn := ⟨.done, ok, startup⟩

/-- A check finds release `n`, and it is downloaded. -/
def fetchRelease (n : Nat) : List (Event Nat) :=
  [.check .done, .checked ⟨true, .ok (some (release n)), .ok none⟩ 0 .done, .download .done] ++
    List.replicate 6 (.downloadStep ⟨.ok (64 * 1024 * 1024), .ok n, .done, .done⟩)

/-- An install or rollback is accepted, and helper `pid` starts the candidate. -/
def launchTrial (begin : Event Nat) (pid : Nat) : List (Event Nat) :=
  [begin, .preflight .done none .done, .launch .done .done, .launch .done .done, .launch .done .done,
    .helper pid (turn true), .poll .done "", .agentDies, .helper pid (turn true), .helper pid (turn true)]

end Device

end OpenU60.Ota
