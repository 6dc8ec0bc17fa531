/-
  OpenU60.Auth.Limiter — the login rate limit (`zte-agent/src/auth/limiter.rs`).

  Instants and durations are nanoseconds; an instant never comes near the end of the
  clock's range, so sums are exact. A log line is kept as what it reports.
-/

import OpenU60.Lib.Bucket
import OpenU60.Lib.FirstMatch
import OpenU60.Lib.Vec

namespace OpenU60.Auth

open OpenU60.Lib OpenU60.Lib.FirstMatch

def secs (n : Nat) : Nat := n * 1000000000

inductive PeerKey where
  | v4 (a b c d : UInt8)
  | v6 (address : BitVec 128)
  deriving DecidableEq

/-- This device (`is_loopback`): shared by every Tailscale client. -/
def PeerKey.shared : PeerKey → Bool
  | .v4 a _ _ _ => a == 127
  | .v6 address => address == 1

structure LimiterConfig where
  freeFailures : Nat := 5
  base : Nat := secs 1
  maxBackoff : Nat := secs 300
  sharedMaxBackoff : Nat := secs 10
  forgetAfter : Nat := secs (15 * 60)
  slots : Nat := 64
  globalBurst : Nat := 30
  globalRefill : Nat := secs 10
  deriving DecidableEq

inductive Admit where
  | allow
  | deny (retryAfter : Nat)
  deriving DecidableEq

structure Slot where
  key : PeerKey
  failures : Nat
  lastFailure : Nat
  deriving DecidableEq

inductive Line where
  | tooMany (key : PeerKey)
  | blocked (key : PeerKey) (secs failures : Nat)
  deriving DecidableEq

structure LoginLimiter where
  slots : List Slot
  tokens : Nat
  refillFrom : Nat
  emptyLogged : Bool
  deriving DecidableEq

def u32Max : Nat := 2 ^ 32 - 1

def Slot.failAgain (s : Slot) (now : Nat) : Slot := { s with failures := min (s.failures + 1) u32Max, lastFailure := now }

namespace LimiterConfig

variable (cfg : LimiterConfig)

/-- How long a peer is blocked after its n-th failure. -/
def block (key : PeerKey) (n : Nat) : Nat :=
  if n < cfg.freeFailures then 0
  else
    let factor := if n - cfg.freeFailures < 32 then 2 ^ (n - cfg.freeFailures) else u32Max
    let max := if key.shared then cfg.sharedMaxBackoff else cfg.maxBackoff
    min (cfg.base * factor) max

end LimiterConfig

namespace LoginLimiter

variable (cfg : LimiterConfig)

def new (now : Nat) : LoginLimiter := ⟨[], cfg.globalBurst, now, false⟩

def refill (l : LoginLimiter) (now : Nat) : LoginLimiter :=
  let burst := cfg.globalBurst
  let period := cfg.globalRefill
  if burst ≤ l.tokens ∨ period = 0 then { l with tokens := burst, refillFrom := now, emptyLogged := false }
  else
    let periods := (now - l.refillFrom) / period
    if burst - l.tokens ≤ periods then { l with tokens := burst, refillFrom := now, emptyLogged := false }
    else if 0 < periods then { l with tokens := l.tokens + periods, refillFrom := l.refillFrom + period * periods }
    else l

def forgetStale (l : LoginLimiter) (now : Nat) : LoginLimiter :=
  { l with slots := l.slots.filter fun s => now - s.lastFailure < cfg.forgetAfter }

def find (l : LoginLimiter) (key : PeerKey) : Option Slot := l.slots.find? (·.key == key)

/-- How long `check` makes the peer wait. -/
def wait (l : LoginLimiter) (key : PeerKey) (now : Nat) : Nat :=
  let bucket := if l.tokens = 0 then l.refillFrom + cfg.globalRefill - now else 0
  match l.find key with
  | some s => max bucket (s.lastFailure + cfg.block key s.failures - now)
  | none => bucket

def check (l : LoginLimiter) (key : PeerKey) (now : Nat) : Admit × LoginLimiter :=
  let l := (l.forgetStale cfg now).refill cfg now
  let wait := l.wait cfg key now
  (if wait = 0 then .allow else .deny wait, l)

def addSlot (l : LoginLimiter) (key : PeerKey) (now : Nat) : LoginLimiter :=
  let slots :=
    if cfg.slots ≤ l.slots.length then
      match Vec.firstMin Slot.lastFailure l.slots with
      | some (i, _) => Vec.swapRemove l.slots i
      | none => l.slots
    else l.slots
  { l with slots := slots ++ [⟨key, 1, now⟩] }

/-- The failures of the peer, with this one. -/
def count (l : LoginLimiter) (key : PeerKey) (now : Nat) : Nat × LoginLimiter :=
  match l.find key with
  | some s => ((s.failAgain now).failures, { l with slots := updateFirst (·.key == key) (Slot.failAgain · now) l.slots })
  | none => (1, l.addSlot cfg key now)

/-- What is logged: the bucket first runs empty, or the peer's block first reaches a minute. -/
def line (l : LoginLimiter) (key : PeerKey) (failures : Nat) : Option Line :=
  let minute := secs 60
  let block := cfg.block key failures
  if l.tokens = 0 ∧ l.emptyLogged = false then some (.tooMany key)
  else if minute ≤ block ∧ cfg.block key (failures - 1) < minute then some (.blocked key (block / secs 1) failures)
  else none

def recordFailure (l : LoginLimiter) (key : PeerKey) (now : Nat) : Option Line × LoginLimiter :=
  let l := l.refill cfg now
  let l := { l with tokens := l.tokens - 1 }
  let (failures, l) := (l.forgetStale cfg now).count cfg key now
  (l.line cfg key failures, { l with emptyLogged := l.emptyLogged || l.tokens = 0 })

def recordSuccess (l : LoginLimiter) (key : PeerKey) : LoginLimiter :=
  { l with slots := l.slots.filter (·.key ≠ key) }

end LoginLimiter

end OpenU60.Auth
