/-
  OpenU60.Esim.Decisions — the user's decisions on a running download
  (`zte-agent/src/esim.rs`, the download handlers).

  Two sides share the download record under its lock and a control channel without one. The
  download thread writes a step under the lock and takes decisions from the channel at any
  time. A handler, or the preview's timer, takes the lock, checks the record, sends, and
  writes the new state before it lets go (`hold`); the thread can run between these, but not
  past a step it has to write. Every statement that touches the shared state is an event of
  its own, and `log` is the story of the current download.
-/

import OpenU60.Esim.Download

namespace OpenU60.Esim

open OpenU60.Lib

inductive DownloadState where
  | idle
  | running
  | confirm
  | cancelling
  | done
  | failed
  | cancelled
  deriving DecidableEq

structure Download where
  state : DownloadState := .idle
  /-- The last progress step, by lpac's name. -/
  step : String := ""
  provider : Option String := none
  name : Option String := none
  iccid : Option String := none
  error : Option String := none
  startedAt : Nat := 0
  finishedAt : Nat := 0

def resultKeepSecs : Nat := 600

/-- The install step (a prefix, so a sub-step counts too). -/
def installingStep (step : String) : Bool := step.startsWith "es10b_load_bound_profile_package"

namespace Download

def isFinished (d : Download) : Bool := d.state == .done || d.state == .failed || d.state == .cancelled

/-- Forgets a finished result once it is old enough. -/
def expire (d : Download) (now : Nat) : Download :=
  if d.isFinished ∧ now - d.finishedAt ≥ resultKeepSecs then {} else d

/-- The names the operator's metadata carry. -/
def noteNames (d : Download) (data : Json) : Download :=
  match data with
  | .obj _ =>
    { d with provider := (data.get "serviceProviderName").asStr <|> d.provider,
             name := (data.get "profileName").asStr <|> d.name }
  | _ => d

/-- Cancelling a session is cleanup: the step that failed stays. -/
def progress (d : Download) (step : String) (data : Json) : Download :=
  (if step.endsWith "_cancel_session" then d
  else
    { d with step, state := if step = "preview" ∧ d.state = .running then .confirm else d.state }).noteNames data

/-- What a decision that was sent makes of the record. -/
def settle (d : Download) : DownloadCtl → Download
  | .accept => { d with state := .running }
  | .decline => { d with state := .cancelling, error := some "declined" }
  | .cancel => { d with state := .cancelling, error := some "cancelled" }
  | .previewTimeout => { d with state := .cancelling, error := some "not confirmed within 2 minutes" }

/-- The end of the download thread. -/
def finish (d : Download) (result : Except String Installed) (now : Nat) : Download :=
  match result with
  | .ok data => { d with finishedAt := now, state := .done, error := none, iccid := data.iccid }
  | .error e =>
    if e.startsWith "cancelled" then { d with finishedAt := now, state := .cancelled, error := d.error <|> some e }
    else { d with finishedAt := now, state := .failed, error := some e }

end Download

/-- The download a request is about, when it names one. -/
def checkDownloadSelection (agent : Nat) (d : Download) (expected : Option Json) : Except (Nat × String) Unit :=
  match expected with
  | none => .ok ()
  | some e =>
    match (e.get "agent_instance").asU64, (e.get "started_at").asU64 with
    | some a, some started =>
      if a ≠ agent ∨ started ≠ d.startedAt then
        .error (409, "the download changed; review its current status before continuing")
      else .ok ()
    | _, _ => .error (400, "expected download must include agent_instance and started_at")

/-- What a handler does under the lock after its checks: it sends, then it writes. -/
inductive Holder where
  | sending (d : DownloadCtl)
  | settling (d : DownloadCtl)
  deriving DecidableEq

/-- The download thread: not yet past its own checks, with the channel open, in the
    procedure, about to arm the preview's timer, back from the procedure. -/
inductive Thread where
  | none
  | starting (p : Procedure (Except String Installed))
  | opened (p : Procedure (Except String Installed))
  | running (p : Procedure (Except String Installed))
  | asking (p : Procedure (Except String Installed))
  | returned (r : Except String Installed)

inductive Note where
  | told (step : Step)
  | prepared
  | loaded
  | answered (d : DownloadCtl)
  | refused (status : Nat) (text : String)
  deriving DecidableEq

structure World where
  /-- This run of the agent. -/
  agent : Nat
  download : Download := {}
  /-- The running download's decisions, while it takes any. -/
  control : Option (List DownloadCtl) := none
  lock : Option Holder := none
  thread : Thread := .none
  /-- `started_at` of the downloads whose preview timer runs. -/
  timers : List Nat := []
  /-- Starts that found no thread and have not recorded it yet. -/
  unspawned : Nat := 0
  preview : Bool := false
  log : List Note := []

inductive Event where
  | start (code : ActivationCode) (confirmation : Option String) (preview : Bool) (now : Nat) (spawned : Bool)
  | noThread
  | openChannel (failure : Option String)
  | openSession (failure : Option String)
  /-- The procedure's next exchange; `env` answers what this model does not. -/
  | answer (env : (q : Ask) → q.Answer)
  | arm (spawned : Bool)
  | crash
  | close
  | finish (now : Nat)
  | confirm (expected : Option Json) (accept : Bool)
  | cancel (expected : Option Json)
  | fire (started : Nat)
  | hold
  | status (now : Nat)
  | dismiss (expected : Option Json)

namespace World

variable (cx : Codec) (w : World)

def say (n : Note) : World := { w with log := w.log ++ [n] }

/-- The checks of `download_confirm`. -/
def confirmChecks (expected : Option Json) (accept : Bool) : Except (Nat × String) DownloadCtl := do
  checkDownloadSelection w.agent w.download expected
  if w.download.state ≠ .confirm then .error (409, "no download is waiting for confirmation")
  else pure (if accept then .accept else .decline)

/-- The checks of `download_cancel_for`. -/
def cancelChecks (expected : Option Json) : Except (Nat × String) DownloadCtl := do
  checkDownloadSelection w.agent w.download expected
  if w.download.state = .running ∧ installingStep w.download.step then
    .error (409, "the profile is being installed and can't be cancelled now")
  else if w.download.state ≠ .confirm ∧ w.download.state ≠ .running then .error (409, "no download is running")
  else pure .cancel

def dismissChecks (expected : Option Json) : Except (Nat × String) Unit := do
  checkDownloadSelection w.agent w.download expected
  if !w.download.isFinished ∧ w.download.state ≠ .idle then .error (409, "a download is still in progress")
  else pure ()

/-- A handler that holds the lock goes on with a decision, or answers with its refusal. -/
def decide (checks : Except (Nat × String) DownloadCtl) : World :=
  match checks with
  | .ok d => { w with lock := some (.sending d) }
  | .error (status, text) => w.say (.refused status text)

/-- The reply when no download takes decisions; the timer has nobody to answer. -/
def notTaken : DownloadCtl → Option (Nat × String)
  | .cancel => some (409, "the download cannot be cancelled now")
  | .previewTimeout => none
  | _ => some (409, "the download is no longer waiting")

def send (d : DownloadCtl) : World :=
  match w.control with
  | some queue => { w with control := some (queue ++ [d]), lock := some (.settling d) }
  | none =>
    match notTaken d with
    | some (status, text) => { w with lock := none, log := w.log ++ [.refused status text] }
    | none => { w with lock := none }

/-- The procedure's next exchange. A look at the channel takes one message at a time and
    goes on looking; a wait for a decision ends with a message, or when `env` says so. -/
def exchange (env : (q : Ask) → q.Answer) : Procedure (Except String Installed) → World
  | .done _ => w
  | .ask (.progress step data) k =>
    if w.lock.isSome then w
    else
      let d := w.download.progress step.text data
      { w with download := d, log := w.log ++ [.told step],
               thread := if d.state = .confirm then .asking (k ()) else .running (k ()) }
  | .ask .cancelled k =>
    match w.control with
    | some (.cancel :: rest) => { w with control := some rest, thread := .running (k true) }
    | some (_ :: rest) => { w with control := some rest }
    | _ => { w with thread := .running (k false) }
  | .ask (.recvTimeout limit) k =>
    match w.control with
    | some (d :: rest) => { w with control := some rest, thread := .running (k (some d)) }
    | _ => if env (.recvTimeout limit) = none then { w with thread := .running (k none) } else w
  | .ask (.prepareDownload param tid code) k =>
    { w with thread := .running (k (env (.prepareDownload param tid code))), log := w.log ++ [.prepared] }
  | .ask (.loadBoundProfilePackage package) k =>
    { w with thread := .running (k (env (.loadBoundProfilePackage package))), log := w.log ++ [.loaded] }
  | .ask q k => { w with thread := .running (k (env q)) }

def step (e : Event) : World :=
  match e with
  | .start code confirmation preview now spawned =>
    match w.thread, w.lock with
    | .none, none =>
      let w := { w with download := { state := .running, step := "starting", startedAt := now }, preview, log := [] }
      if spawned then { w with thread := .starting (Esim.download cx code confirmation preview) }
      else { w with unspawned := w.unspawned + 1 }
    | _, _ => w
  | .noThread =>
    if 0 < w.unspawned ∧ w.lock = none then
      { w with unspawned := w.unspawned - 1,
               download := { w.download with state := .failed, error := some "cannot start the download thread" } }
    else w
  | .openChannel failure =>
    match w.thread, failure with
    | .starting _, some m => { w with thread := .returned (.error m) }
    | .starting p, none => { w with thread := .opened p, control := some [] }
    | _, _ => w
  | .openSession failure =>
    match w.thread, failure with
    | .opened _, some m => { w with thread := .running (.done (.error m)) }
    | .opened p, none => { w with thread := .running p }
    | _, _ => w
  | .answer env =>
    match w.thread with
    | .running p => w.exchange env p
    | _ => w
  | .arm spawned =>
    match w.thread, w.lock with
    | .asking p, none =>
      { w with thread := .running p, timers := if spawned then w.download.startedAt :: w.timers else w.timers }
    | _, _ => w
  | .crash =>
    match w.thread with
    | .running (.ask _ _) => { w with thread := .running (.done (.error "the eSIM download stopped unexpectedly")) }
    | _ => w
  | .close =>
    match w.thread with
    | .running (.done r) => { w with thread := .returned r, control := none }
    | _ => w
  | .finish now =>
    match w.thread, w.lock with
    | .returned r, none => { w with thread := .none, download := w.download.finish r now }
    | _, _ => w
  | .confirm expected accept => if w.lock = none then w.decide (w.confirmChecks expected accept) else w
  | .cancel expected => if w.lock = none then w.decide (w.cancelChecks expected) else w
  | .fire started =>
    if started ∈ w.timers ∧ w.lock = none then
      let w := { w with timers := w.timers.erase started }
      if w.download.state = .confirm ∧ w.download.startedAt = started then
        { w with lock := some (.sending .previewTimeout) }
      else w
    else w
  | .hold =>
    match w.lock with
    | some (.sending d) => w.send d
    | some (.settling d) =>
      { w with lock := none, download := w.download.settle d, log := w.log ++ [.answered d] }
    | none => w
  | .status now => if w.lock = none then { w with download := w.download.expire now } else w
  | .dismiss expected =>
    if w.lock = none then
      match w.dismissChecks expected with
      | .ok () => { w with download := {} }
      | .error (status, text) => w.say (.refused status text)
    else w

end World

end OpenU60.Esim
