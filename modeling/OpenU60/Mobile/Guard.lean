/-
  OpenU60.Mobile.Guard — the check that keeps the mobile side out (`zte-agent/src/httpd/mobile.rs`).

  Instants and durations are milliseconds. How the table read ends is part of a connection: in time, with
  what it found, or not within `readWait`, and then it goes on in the background (`Task`). The
  log lines are left out: no decision reads them.
-/

import Mathlib

namespace OpenU60.Mobile

inductive IpAddr where
  | v4 (a : BitVec 32)
  | v6 (a : BitVec 128)
  deriving DecidableEq

/-- A socket address; an IPv6 one has the scope it came in on. -/
structure SocketAddr where
  ip : IpAddr
  port : Nat
  scopeId : Nat := 0
  deriving DecidableEq

structure IfAddr where
  name : String
  addr : IpAddr
  pfx : Nat
  scope : Nat
  deriving DecidableEq

abbrev Table := List IfAddr

def maxAge : Nat := 5000
def retry : Nat := 1000
def keep : Nat := 600000
def mobile : List String := ["rmnet"]

/-! ## Addresses -/

namespace IpAddr

/-- `to_canonical`: an IPv4-mapped address is the IPv4 one. -/
def canonical : IpAddr → IpAddr
  | v4 a => v4 a
  | v6 a => if a >>> 32 = 0xffff#128 then v4 (a.truncate 32) else v6 a

def loopback : IpAddr → Bool
  | v4 a => a >>> 24 = 127#32
  | v6 a => a = 1#128

def linkLocal : IpAddr → Bool
  | v4 _ => false
  | v6 a => a >>> 118 = 0x3fa#128

def max : IpAddr → Nat
  | v4 _ => 32
  | v6 _ => 128

theorem loopback_linkLocal {ip : IpAddr} (h : ip.loopback = true) : ip.linkLocal = false := by
  cases ip with
  | v4 a => rfl
  | v6 a =>
    simp only [loopback, decide_eq_true_eq] at h
    rw [h]
    decide

end IpAddr

def mobileSide (name : String) : Bool := mobile.any fun p => p.toList.isPrefixOf name.toList

/-- The length of the subnet (no netmask: the address alone). -/
def bits (i : IfAddr) : Nat := if i.pfx = 0 then i.addr.max else min i.pfx i.addr.max

def contains (i : IfAddr) (ip : IpAddr) : Bool :=
  match i.addr, ip with
  | .v4 n, .v4 a => n >>> (32 - bits i) = a >>> (32 - bits i)
  | .v6 n, .v6 a => n >>> (128 - bits i) = a >>> (128 - bits i)
  | _, _ => false

/-- `max_by_key`: the last of the greatest. -/
def maxByKey (key : IfAddr → Nat) : Table → Option IfAddr
  | [] => none
  | i :: is =>
    match maxByKey key is with
    | some j => if key i ≤ key j then some j else some i
    | none => some i

/-- The key is the pair of the length and whether it is on the mobile side. -/
def subnetOf (table : Table) (ip : IpAddr) : Option IfAddr :=
  maxByKey (fun i => 2 * bits i + if mobileSide i.name then 1 else 0) (table.filter (contains · ip))

def arrivedOn (table : Table) (peer : SocketAddr) : Option IfAddr :=
  match peer.ip with
  | .v6 _ => if peer.scopeId ≠ 0 then table.find? (·.scope == peer.scopeId) else none
  | .v4 _ => none

def admits (table : Table) (peer : SocketAddr) : Bool :=
  let ip := peer.ip.canonical
  if ip.linkLocal then (arrivedOn table peer).any (!mobileSide ·.name)
  else ip.loopback || table.any (·.addr = ip) || (subnetOf table ip).any (!mobileSide ·.name)

def SocketAddr.loopback (peer : SocketAddr) : Bool := peer.ip.canonical.loopback

/-! ## The guard -/

/-- What a read comes to: the table, or an error. -/
abbrev Found := Option Table

/-- A read that outlasted its wait. -/
inductive Task where
  | running
  | finished (found : Found) (time : Nat)
  deriving DecidableEq

inductive Outcome where
  | answered (found : Found)
  | slow
  deriving DecidableEq

structure Guard where
  off : Bool
  table : Option Table
  goodAt : Option Nat
  readAt : Option Nat
  missAt : Option Nat
  failing : Bool
  pending : Option Task
  deriving DecidableEq

namespace Guard

def new (off : Bool) : Guard := ⟨off, none, none, none, none, false, none⟩

def serves (g : Guard) (peer : SocketAddr) : Bool := g.table.all (admits · peer)

def wantsRead (g : Guard) (peer : SocketAddr) (now : Nat) : Bool × Guard :=
  if peer.loopback then (false, g)
  else
    match g.readAt with
    | none => (true, g)
    | some read =>
      if maxAge ≤ now - read || (g.failing && retry ≤ now - read) then (true, g)
      else if !g.serves peer && g.missAt.all (retry ≤ now - ·) then (true, { g with missAt := some now })
      else (false, g)

/-- The last table is held through failed reads for a while. -/
def kept (g : Guard) (now : Nat) : Bool := g.table.isSome && g.goodAt.any (now - · < keep)

def store (g : Guard) (now : Nat) : Found → Guard
  | some table => { g with readAt := some now, failing := false, table := some table, goodAt := some now }
  | none => { g with readAt := some now, failing := true, table := if g.kept now then g.table else none }

/-- Every connection is served because the lookup fails. -/
def isOpen (g : Guard) : Bool := g.failing && g.table.isNone

/-- What is there to take in: a slow read that has finished, or one that this connection waits for. -/
def gather (g : Guard) (now : Nat) (peer : SocketAddr) (outcome : Outcome) : Option Found × Guard :=
  match g.pending with
  | some (.finished found _) => (some found, { g with pending := none })
  | some .running => (none, g)
  | none =>
    let (wants, g) := g.wantsRead peer now
    if wants then
      match outcome with
      | .answered found => (some found, g)
      | .slow => (none, { g with pending := some .running })
    else (none, g)

def decide (g : Guard) (now : Nat) (peer : SocketAddr) (got : Option Found) : Bool × Guard :=
  let g := match got with
    | some found => g.store now found
    | none => g
  (g.serves peer, g)

def admitPeer (g : Guard) (now : Nat) (peer : SocketAddr) (outcome : Outcome) : Bool × Guard :=
  if g.off then (true, g)
  else
    let (got, g) := g.gather now peer outcome
    g.decide now peer got

end Guard

/-! ## The machine -/

inductive Event where
  | connect (peer : SocketAddr) (outcome : Outcome)
  /-- The slow read ends. -/
  | finish (found : Found)
  /-- The other listener's guard sets its flag. -/
  | other (unguarded : Bool)
  | pass (d : Nat)
  deriving DecidableEq

structure World where
  now : Nat
  guard : Guard
  /-- The flags of this listener and the other. -/
  unguarded : Bool × Bool
  /-- The reads running on the blocking pool. -/
  running : Nat
  /-- When the newest read taken in ran. -/
  ran : Option Nat
  /-- The newest table read and taken in, and when that read ran. -/
  newest : Option (Table × Nat)

namespace World

def start (now : Nat) : World := ⟨now, .new false, (false, false), 0, none, none⟩

def mobileServed (w : World) : Bool := w.guard.off || w.unguarded.1 || w.unguarded.2

/-- What a connection takes in, with the time that read ran. -/
def takes (w : World) (peer : SocketAddr) (outcome : Outcome) : Option (Found × Nat) :=
  match w.guard.pending, outcome with
  | some (.finished found time), _ => some (found, time)
  | none, .answered found => if (w.guard.wantsRead peer w.now).1 then some (found, w.now) else none
  | _, _ => none

def step (w : World) : Event → World
  | .connect peer outcome =>
    let taken := w.takes peer outcome
    let (_, guard) := w.guard.admitPeer w.now peer outcome
    { w with
      guard
      unguarded := if taken.isSome then (guard.isOpen, w.unguarded.2) else w.unguarded
      running := if w.guard.pending = none ∧ guard.pending = some .running then w.running + 1 else w.running
      ran := (taken.map (·.2)).or w.ran
      newest := (taken.bind fun p => p.1.map (·, p.2)).or w.newest }
  | .finish found =>
    if w.guard.pending = some .running then
      { w with guard := { w.guard with pending := some (.finished found w.now) }, running := w.running - 1 }
    else w
  | .other unguarded => { w with unguarded := (w.unguarded.1, unguarded) }
  | .pass d => { w with now := w.now + d }

end World

end OpenU60.Mobile
