/-
  OpenU60.Stk.Session — the STK worker: its session on the RIL socket, the requests of clients and the
  frames of the modem (`zte-agent/src/stk/mod.rs`: `Session::connect`, `send`, `handle_request`, `frame`,
  `proactive`, `check_deadlines`, `invalidate`, `dispatch`).

  One event is one request, one record of the socket, an error of it, or a look at the deadlines, in any
  order; whether a write goes through, what connecting gives and the clock are in the event. Requests are
  numbered as they are served. `writes` and `replies` are what was written (tried, if the write fails)
  and sent. Instants are nanoseconds, a session's generation starts at the clock's milliseconds.
-/

import OpenU60.Lib.Machine
import OpenU60.Stk.Codec

namespace OpenU60.Stk

open OpenU60.Lib

def timeout : Nat := 8000000000
def waitingLimit : Nat := 30000000000

inductive Phase where
  | initializing
  | waiting
  | ready
  | menuUnavailable
  | unsupportedCommand
  deriving DecidableEq

def Phase.text : Phase → String
  | initializing => "initializing"
  | waiting => "waiting"
  | ready => "ready"
  | menuUnavailable => "menu_unavailable"
  | unsupportedCommand => "unsupported_command"

inductive Action where
  | menu
  | status
  | select
  | respond
  | cancel
  | back
  deriving DecidableEq

abbrev Reply := Nat × Json

def error (status : Nat) (message : String) : Reply := (status, .obj [("ok", .bool false), ("error", .str message)])

structure Pending where
  deadline : Nat
  /-- The request that waits. -/
  reply : Option Nat
  generation : Nat
  init : Bool

structure Session where
  /-- Which session of the worker it is, and what its generation began at (for the proofs only). -/
  serial : Nat
  born : Nat
  token : Nat
  generation : Nat
  root : Option Command
  current : Option Command
  phase : Phase
  reason : String
  /-- By token; every token is new. -/
  pending : List (Nat × Pending)
  waitingSince : Option Nat

structure Write where
  session : Nat
  generation : Nat
  id : Nat
  raw : Bytes
  /-- The request whose response or selection it is. -/
  request : Option Nat

structure Log where
  writes : List Write := []
  replies : List (Nat × Reply) := []

def Log.reply (log : Log) (request : Nat) (reply : Reply) : Log := { log with replies := log.replies ++ [(request, reply)] }

def Log.replyTo (log : Log) (request : Option Nat) (reply : Reply) : Log :=
  match request with
  | some request => log.reply request reply
  | none => log

/-- What a function leaves, and the error it ends the session with. -/
structure Result where
  session : Session
  log : Log
  err : Option String

namespace Session

def snapshot (s : Session) : Reply :=
  let value := match s.current with
    | some cmd => cmd.view
    | none => [("type", .str "status"), ("items", .arr [])]
  (200, .obj [("ok", .bool true), ("data", .obj (value ++
    [("source", .str "qualcomm_ril"), ("supported", if s.root.isSome ∨ s.current.isSome then .bool true else .null),
      ("transport_available", .bool true), ("status", .str s.phase.text), ("reason", .str s.reason),
      ("command_id", .str (toString s.generation)), ("busy", .bool (¬ s.pending.isEmpty ∨ s.phase = .waiting))]))])

/-- One record to the socket; `failed` is the error of a write that does not go through. -/
def send (s : Session) (log : Log) (id : Nat) (raw : Bytes) (reply : Option Nat) (init : Bool) (failed : Option String) (now : Nat) : Result :=
  let s := { s with token := s.token + 1 }
  let log := { log with writes := log.writes ++ [⟨s.serial, s.generation, id, raw, reply⟩] }
  match failed with
  | some e => ⟨s, log.replyTo reply (error 503 "RIL write failed; session invalidated"), some ("RIL write failed: " ++ e)⟩
  | none => ⟨{ s with pending := s.pending ++ [(s.token, ⟨now + timeout, reply, s.generation, init⟩)] }, log, none⟩

/-- What the action writes. -/
def answer (cmd : Command) (action : Action) (body : Json) : Except String (Nat × Bytes) :=
  match action with
  | .select =>
    match (body.get "item_id").asU64.filter (· ≤ Text.u8Max) with
    | some item => cmd.select (UInt8.ofNat item)
    | none => .error "item_id must be 1–255"
  | .respond => (cmd.inputResponse body).map fun raw => (70, raw)
  | .cancel => if cmd.kind ≠ 0x25 then .ok (70, cmd.response 0x10 []) else .error "no pending command for this action"
  | .back => if cmd.kind ≠ 0x25 then .ok (70, cmd.response 0x11 []) else .error "no pending command for this action"
  | _ => .error "no pending command for this action"

/-- `menu` or `status`. -/
def read (s : Session) (log : Log) (request : Nat) (action : Action) (failed : Option String) (now : Nat) : Result :=
  if action = .menu ∧ s.phase = .menuUnavailable ∧ s.pending.isEmpty then
    let r := { s with phase := .initializing, reason := "Requesting the SIM Toolkit menu" }.send log 103 [] none true failed now
    match r.err with
    | some _ => r
    | none => { r with log := r.log.reply request r.session.snapshot }
  else ⟨s, log.reply request s.snapshot, none⟩

/-- The request is for the command that is shown. -/
def fresh (s : Session) (body : Json) : Bool := (body.get "command_id").asStr = some (toString s.generation)

def handleRequest (s : Session) (log : Log) (request : Nat) (action : Action) (body : Json) (failed : Option String) (now : Nat) : Result :=
  if action = .menu ∨ action = .status then s.read log request action failed now
  else if ¬ s.pending.isEmpty ∨ s.phase = .waiting then
    ⟨s, log.reply request (error 409 "SIM request in progress; refresh the session"), none⟩
  else if ¬ s.fresh body then ⟨s, log.reply request (error 409 "stale or missing command_id; reload the SIM menu"), none⟩
  else
    match s.current with
    | none => ⟨s, log.reply request (error 409 "no SIM command is available"), none⟩
    | some cmd =>
      match answer cmd action body with
      | .ok (id, raw) => s.send log id raw (some request) false failed now
      | .error e => ⟨s, log.reply request (error 400 e), none⟩

/-! ## Frames -/

def number (data : Bytes) (offset : Nat) : Except String Nat :=
  if data.length < offset + 4 then .error "truncated RIL integer" else .ok (BigEndian.ofBytes ((data.drop offset).take 4))

/-- The modem answered one of our records. -/
def response (s : Session) (log : Log) (frame : Bytes) (now : Nat) : Result :=
  if frame.length < 12 then ⟨s, log, some "truncated RIL token"⟩
  else
    match number frame 12 with
    | .error e => ⟨s, log, some e⟩
    | .ok errno =>
      let token := BigEndian.ofBytes ((frame.drop 4).take 8)
      match s.pending.find? (·.1 = token) with
      | none => ⟨s, log, none⟩
      | some (_, p) =>
        let s := { s with pending := s.pending.eraseP (·.1 = token) }
        if errno ≠ 0 then
          let message := s!"RIL rejected STK request (error {errno})"
          ⟨s, log.replyTo p.reply (error 502 message), some message⟩
        else
          let s :=
            if p.init ∧ s.current.isNone then
              { s with phase := .menuUnavailable, reason := "The modem accepted SIM Toolkit initialization but has not supplied a menu" }
            else if p.reply.isSome ∧ s.generation = p.generation then
              { s with current := none, generation := s.generation + 1, phase := .waiting, reason := "Waiting for the SIM", waitingSince := some now }
            else s
          ⟨s, log.replyTo p.reply s.snapshot, none⟩

def proactive (s : Session) (log : Log) (cmd : Command) (failed : Option String) (now : Nat) : Result :=
  let s := { s with generation := s.generation + 1, waitingSince := none }
  if cmd.kind = 0x25 then
    let root := if cmd.items.isEmpty then none else some cmd
    { s with
      root, current := root
      phase := if root.isSome then .ready else .menuUnavailable
      reason := if root.isSome then "" else "SIM removed its toolkit menu" }.send log 70 (cmd.response 0 []) none false failed now
  else if 0x21 ≤ cmd.kind ∧ cmd.kind ≤ 0x24 then ⟨{ s with current := some cmd, phase := .ready, reason := "" }, log, none⟩
  else
    { s with
      phase := .unsupportedCommand, reason := "SIM command " ++ String.ofList (hex [cmd.kind]) ++ " is not implemented"
      current := none }.send log 70 (cmd.response 0x30 []) none false failed now

/-- The command in a frame, hex in UTF-8. -/
def commandOf (frame : Bytes) : Except String Command := do
  let len ← number frame 8
  if 16384 < len then .error "oversized proactive command"
  else if frame.length < 12 + len then .error "truncated proactive command"
  else
    let text := (frame.drop 12).take len
    if ¬ Text.utf8Valid text then .error "invalid proactive text"
    else
      -- a byte of a longer character is no hex digit either
      let chars := ((text.reverse.dropWhile (· = 0)).reverse).map fun b => Char.ofNat b.toNat
      Command.parse (← unhex chars)

def indication (s : Session) (log : Log) (frame : Bytes) (failed : Option String) (now : Nat) : Result :=
  match number frame 4 with
  | .error e => ⟨s, log, some e⟩
  | .ok id =>
    if id = 1012 then
      ⟨{ s with
        current := s.root, generation := s.generation + 1, phase := if s.root.isSome then .ready else .menuUnavailable
        reason := "SIM session ended", waitingSince := none }, log, none⟩
    else if id = 1013 then
      match commandOf frame with
      | .error e => ⟨s, log, some e⟩
      | .ok cmd => s.proactive log cmd failed now
    else if id = 1017 then ⟨s, log, some "SIM refreshed; reload the toolkit session"⟩
    else if id = 1014 ∨ id = 1015 then ⟨{ s with reason := "SIM event received; no automatic service approval was sent" }, log, none⟩
    else ⟨s, log, none⟩

def frame (s : Session) (log : Log) (frame : Bytes) (failed : Option String) (now : Nat) : Result :=
  match number frame 0 with
  | .error e => ⟨s, log, some e⟩
  | .ok kind =>
    if kind = 0 then s.response log frame now
    else if kind = 1 then s.indication log frame failed now
    else ⟨s, log, some "unknown RIL frame type"⟩

/-- A request outlived its deadline, or the SIM stayed silent after it acknowledged a selection. -/
def checkDeadlines (s : Session) (now : Nat) : Option String :=
  if s.pending.any (·.2.deadline ≤ now) then some "STK response timed out; session invalidated, no automatic retry"
  else if s.waitingSince.any (· + waitingLimit ≤ now) then some "SIM did not return a command; reload the session before trying again"
  else none

end Session

/-! ## The worker -/

structure Worker where
  session : Option Session := none
  lastError : String := ""
  log : Log := {}
  /-- Requests served, sessions begun, and the last generation of the last that ended. -/
  served : Nat := 0
  sessions : Nat := 0
  ended : Nat := 0

inductive Event where
  /-- `connected` is what connecting gives, if it comes to that: the clock in milliseconds. -/
  | request (action : Action) (body : Json) (connected : Except String Nat) (failed : Option String) (now : Nat)
  | frame (frame : Bytes) (failed : Option String) (now : Nat)
  /-- The socket is closed, or cannot be read or polled, or a record has no valid length. -/
  | broken (message : String)
  | deadlines (now : Nat)

namespace Worker

/-- Every request that waits is told. -/
def invalidate (w : Worker) (s : Session) (message : String) : Worker :=
  { w with
    session := none, lastError := message, ended := s.generation
    log := s.pending.foldl (fun log p => log.replyTo p.2.reply (error 503 message)) w.log }

/-- After a function of the session: it goes on, or ends. -/
def settle (w : Worker) (r : Result) : Worker :=
  let w := { w with log := r.log }
  match r.err with
  | none => { w with session := some r.session }
  | some message => w.invalidate r.session message

/-- A new session, asking for the menu. -/
def connect (w : Worker) (connected : Except String Nat) (failed : Option String) (now : Nat) : Worker :=
  match connected with
  | .error e => { w with lastError := e }
  | .ok clock =>
    let s : Session := ⟨w.sessions, clock, 0, clock, none, none, .initializing, "Connecting to SIM Toolkit", [], none⟩
    let r := s.send w.log 103 [] none true failed now
    match r.err with
    | some e => { w with log := r.log, lastError := e }
    | none => { w with log := r.log, session := some r.session, sessions := w.sessions + 1 }

def dispatch (w : Worker) (action : Action) (body : Json) (connected : Except String Nat) (failed : Option String) (now : Nat) : Worker :=
  let request := w.served
  let w := if w.session.isNone ∧ action = .menu then w.connect connected failed now else w
  let w := { w with served := w.served + 1 }
  match w.session with
  | some s => w.settle (s.handleRequest w.log request action body failed now)
  | none => { w with log := w.log.reply request (error 503 w.lastError) }

def step (w : Worker) : Event → Worker
  | .request action body connected failed now => w.dispatch action body connected failed now
  | .frame frame failed now =>
    match w.session with
    | some s => w.settle (s.frame w.log frame failed now)
    | none => w
  | .broken message =>
    match w.session with
    | some s => w.invalidate s message
    | none => w
  | .deadlines now =>
    match w.session with
    | some s =>
      match s.checkDeadlines now with
      | some message => w.invalidate s message
      | none => w
    | none => w

end Worker

end OpenU60.Stk
