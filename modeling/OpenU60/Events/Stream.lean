/-
  OpenU60.Events.Stream — the driver of one event stream (`zte-agent/src/events/stream.rs`).

  A step is one turn of `Driver::next`: a frame handed out, the end, the opening, or a wake. What
  the turn finds comes with it: the hub's readiness and changes, the session's answer and the
  clock readings in the order they are taken. Times are nanoseconds of the runtime's clock and
  do not overflow. The log holds what the outbox was given and when the subscription was given
  back.
-/

import OpenU60.Lib.Machine

namespace OpenU60.Events.Stream

inductive EndReason where
  | evicted
  | loggedOut
  | standby
  deriving DecidableEq

inductive ByeReason where
  | tokenExpired
  | loggedOut
  | evicted
  | lifetime
  | standby
  deriving DecidableEq

def ByeReason.name : ByeReason → String
  | .tokenExpired => "token_expired"
  | .loggedOut => "logged_out"
  | .evicted => "evicted"
  | .lifetime => "lifetime"
  | .standby => "standby"

def EndReason.bye : EndReason → ByeReason
  | .evicted => .evicted
  | .loggedOut => .loggedOut
  | .standby => .standby

inductive SessionCheck where
  | live (remaining : Nat)
  | expired
  | revoked
  deriving DecidableEq

inductive Wake where
  | changed
  | ended (reason : EndReason)
  deriving DecidableEq

/-- Turns hub state into frames; the times are the boot clock's. -/
structure Emitter (σ φ χ α : Type) where
  opening : σ → χ → Nat → σ × List φ
  changes : σ → χ → Nat → σ × List φ
  tick : σ → Nat → α → σ × List φ
  bye : σ → ByeReason → σ × List φ
  finished : σ → Bool

structure Env where
  tick : Nat
  firstTick : Nat
  minGap : Nat
  maxLife : Option Nat

/-- What a turn finds. -/
structure Found (χ α : Type) where
  /-- What the hub has for the stream, if it is watched. -/
  ready : Option Wake
  session : SessionCheck
  /-- What `snapshot` or `changes` gives. -/
  changed : χ
  ages : α
  /-- When the turn began. -/
  woke : Nat
  /-- Read by `check_session`. -/
  sessionNow : Nat
  /-- Read for the lifetime. -/
  lifeNow : Nat
  /-- Read for the gap. -/
  gapNow : Nat
  /-- Read after a batch. -/
  batchNow : Nat
  /-- Read for the tick. -/
  tickNow : Nat
  /-- The boot clock. -/
  bootNow : Nat
  bootBatch : Nat

/-- The runtime's clock does not go back within a turn. -/
structure Found.Ordered {χ α : Type} (x : Found χ α) : Prop where
  session : x.woke ≤ x.sessionNow
  life : x.sessionNow ≤ x.lifeNow
  gap : x.lifeNow ≤ x.gapNow
  batch : x.gapNow ≤ x.batchNow
  tick : x.batchNow ≤ x.tickNow

inductive Entry (φ : Type) where
  | opening (frames : List φ)
  /-- A batch of changes, at the time its gap counts from. -/
  | changes (frames : List φ) (time : Nat)
  | tick (frames : List φ)
  /-- What changed with the end of the hub. -/
  | last (frames : List φ)
  /-- The subscription given back. -/
  | givenBack
  | bye (frames : List φ)
  deriving DecidableEq

def Entry.frames {φ : Type} : Entry φ → List φ
  | .opening frames => frames
  | .changes frames _ => frames
  | .tick frames => frames
  | .last frames => frames
  | .givenBack => []
  | .bye frames => frames

structure Driver (σ φ : Type) where
  em : σ
  /-- `sub` is there. -/
  subscribed : Bool := true
  outbox : List φ := []
  opened : Bool := false
  openedAt : Nat
  nextTick : Nat
  sessionDeadline : Nat
  lifeDeadline : Option Nat
  lastBatch : Option Nat := none
  /-- Changes are waiting for the end of the gap. -/
  held : Bool := false
  sent : List φ := []
  /-- `next` has answered that there is nothing more. -/
  closed : Bool := false
  /-- `sub_mut` has found no subscription. -/
  panicked : Bool := false
  log : List (Entry φ) := []
  deriving DecidableEq

def second : Nat := 1000000000

section

variable {σ φ χ α : Type} (E : Emitter σ φ χ α) (env : Env)

def drive (em : σ) (now bootNow : Nat) : Driver σ φ where
  em := em
  openedAt := bootNow
  nextTick := now + env.firstTick
  sessionDeadline := now
  lifeDeadline := env.maxLife.map (now + ·)

namespace Driver

/-- `sub_mut`. -/
def sub (d : Driver σ φ) : Driver σ φ := if d.subscribed then d else { d with panicked := true }

/-- `self.sub = None`. -/
def giveBack (d : Driver σ φ) : Driver σ φ :=
  if d.subscribed then { d with subscribed := false, log := d.log ++ [.givenBack] } else d

/-- Frames for the outbox. -/
def queue (d : Driver σ φ) (em : σ) (e : Entry φ) : Driver σ φ :=
  { d with em, outbox := d.outbox ++ e.frames, log := d.log ++ [e] }

def finish (d : Driver σ φ) (reason : ByeReason) : Driver σ φ :=
  let d := d.giveBack
  let (em, frames) := E.bye d.em reason
  d.queue em (.bye frames)

def checkSession (d : Driver σ φ) (x : Found χ α) : Driver σ φ × Bool :=
  match x.session with
  | .live remaining => ({ d with sessionDeadline := x.sessionNow + remaining }, true)
  | .expired => (d.finish E .tokenExpired, false)
  | .revoked => (d.finish E .loggedOut, false)

def gapEnd (d : Driver σ φ) : Option Nat := (d.lastBatch.filter fun _ => env.minGap ≠ 0).map (· + env.minGap)

def endIfFinished (d : Driver σ φ) : Driver σ φ := if d.subscribed && E.finished d.em then d.giveBack else d

def deadline (d : Driver σ φ) : Nat :=
  let deadline := min d.nextTick (d.sessionDeadline + second)
  let deadline := d.lifeDeadline.elim deadline (min deadline)
  (((d.gapEnd env).filter fun _ => d.held).elim deadline (min deadline))

/-- The stream has been open too long, by either clock. -/
def lived (d : Driver σ φ) (x : Found χ α) : Bool :=
  env.maxLife.any (fun most => most ≤ x.bootNow - d.openedAt) || d.lifeDeadline.any (fun end_ => end_ ≤ x.lifeNow)

def sendChanges (d : Driver σ φ) (wake : Option Wake) (x : Found χ α) : Driver σ φ :=
  if wake = some .changed || d.held then
    let d := { d with held := (d.gapEnd env).any fun end_ => x.gapNow < end_ }
    if d.held then d
    else
      let d := d.sub
      let (em, batch) := E.changes d.em x.changed x.bootBatch
      if batch.isEmpty then { d with em } else { d with lastBatch := some x.batchNow }.queue em (.changes batch x.batchNow)
  else d

def sendTick (d : Driver σ φ) (x : Found χ α) : Driver σ φ :=
  if d.nextTick ≤ x.tickNow then
    let d := d.sub
    let (em, frames) := E.tick d.em x.bootNow x.ages
    { d with nextTick := max (d.nextTick + env.tick) (x.tickNow + second) }.queue em (.tick frames)
  else d

def afterWake (d : Driver σ φ) (wake : Option Wake) (x : Found χ α) : Driver σ φ :=
  match d.checkSession E x with
  | (d, false) => d
  | (d, true) =>
    match wake with
    | some (.ended reason) =>
      let d := d.sub
      let (em, frames) := E.changes d.em x.changed x.bootBatch
      (d.queue em (.last frames)).finish E reason.bye
    | _ => if d.lived env x then d.finish E .lifetime else (d.sendChanges E env wake x).sendTick E env x

def openStream (d : Driver σ φ) (x : Found χ α) : Driver σ φ :=
  match { d with opened := true }.checkSession E x with
  | (d, false) => d
  | (d, true) =>
    let d := d.sub
    let (em, frames) := E.opening d.em x.changed x.bootNow
    (d.queue em (.opening frames)).endIfFinished E

/-- Held changes are not watched. -/
def wake (d : Driver σ φ) (x : Found χ α) : Option Wake := if d.held then none else x.ready

/-- One turn of `next`. -/
def step (d : Driver σ φ) (x : Found χ α) : Driver σ φ :=
  match d.outbox with
  | frame :: rest => { d with outbox := rest, sent := d.sent ++ [frame] }
  | [] =>
    if !d.subscribed then { d with closed := true }
    else if !d.opened then d.openStream E x
    else (d.sub.afterWake E env (d.wake x) x).endIfFinished E

end Driver

end

end OpenU60.Events.Stream
