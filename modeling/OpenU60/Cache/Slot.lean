/-
  OpenU60.Cache.Slot — one key of the read cache (`zte-agent/src/cache.rs`: `Slot`, `Entry`,
  `UbusCache::get_or_fetch`, `invalidate`, `invalidate_with_settle`).

  The calls of `get_or_fetch` on the key take their statements in any order among each other
  and among invalidations; `state` is held within one statement, `inflight` from one to
  another. How a fetch comes back, a panic included, and how time passes is in the event.
  Instants and durations are nanoseconds.
-/

import Mathlib

namespace OpenU60.Cache

def settleTtl : Nat := 1000000000

structure Slot (α : Type) where
  /-- Value and the instant its fetch started. -/
  value : Option (Nat × α) := none
  settleUntil : Option Nat := none
  /-- Bumped by every invalidation. -/
  generation : UInt64 := 0

namespace Slot

variable {α : Type}

def effectiveTtl (s : Slot α) (ttl now : Nat) : Nat :=
  match s.settleUntil with
  | some t => if now < t then min ttl settleTtl else ttl
  | none => ttl

def fresh (s : Slot α) (ttl now : Nat) : Option α :=
  match s.value with
  | some (t, v) => if now - t < s.effectiveTtl ttl now then some v else none
  | none => none

def invalidate (s : Slot α) (settle : Option Nat) (now : Nat) : Slot α :=
  { value := none, generation := s.generation + 1,
    settleUntil := match settle with
      | some window => some (now + window)
      | none => s.settleUntil }

/-- The result of a fetch that read `generation` before it. -/
def store (s : Slot α) (generation : UInt64) (started : Nat) (v : α) : Slot α :=
  if s.generation = generation then { s with value := some (started, v) } else s

end Slot

/-- A fetched value, with when its fetch was called and how many invalidations there had
    been by then. -/
structure Sample (V : Type) where
  value : V
  since : Nat
  begun : Nat
  deriving DecidableEq

/-- How `get_or_fetch` ends. -/
inductive Reply (V E : Type) where
  /-- From the slot. -/
  | served (s : Sample V)
  | fetched (s : Sample V)
  | error (e : E)
  | panicked
  deriving DecidableEq

/-- The next statement of a call. Once it has read the generation it carries it, and how many
    invalidations there had been. -/
inductive Call (V E : Type) where
  | idle
  | looking (ttl : Nat)
  /-- For the gate. -/
  | waiting (ttl : Nat)
  | gated (ttl : Nat)
  | relooking (ttl started : Nat)
  | calling (started : Nat) (generation : UInt64) (seen : Nat)
  | fetching (started : Nat) (generation : UInt64) (seen : Nat) (since begun : Nat)
  | storing (started : Nat) (generation : UInt64) (seen : Nat) (s : Sample V)
  | done (r : Reply V E)

/-- How a fetch comes back. -/
inductive Outcome (V E : Type) where
  | ok (v : V)
  | err (e : E)
  | panic

structure World (V E : Type) where
  slot : Slot (Sample V) := {}
  /-- The call that holds `inflight`. -/
  inflight : Option Nat := none
  calls : Nat → Call V E := fun _ => .idle
  now : Nat := 0
  /-- How many invalidations there have been. -/
  invalidations : Nat := 0

inductive Event (V E : Type) where
  | call (i ttl : Nat)
  | run (i : Nat) (x : Outcome V E)
  | invalidate (settle : Option Nat)
  | pass (d : Nat)

namespace World

variable {V E : Type} (isNull : V → Bool)

def moved (w : World V E) (i : Nat) (c : Call V E) : World V E := { w with calls := Function.update w.calls i c }

/-- The call leaves `get_or_fetch` and drops the gate it holds. -/
def leave (w : World V E) (i : Nat) (r : Reply V E) : World V E := { w.moved i (.done r) with inflight := none }

/-- The next statement of `get_or_fetch`. -/
def run (w : World V E) (i : Nat) (x : Outcome V E) : World V E :=
  match w.calls i with
  | .idle => w
  | .looking ttl =>
    match w.slot.fresh ttl w.now with
    | some s => w.moved i (.done (.served s))
    | none => w.moved i (.waiting ttl)
  | .waiting ttl =>
    match w.inflight with
    | some _ => w
    | none => { w.moved i (.gated ttl) with inflight := some i }
  | .gated ttl => w.moved i (.relooking ttl w.now)
  | .relooking ttl started =>
    match w.slot.fresh ttl started with
    | some s => w.leave i (.served s)
    | none => w.moved i (.calling started w.slot.generation w.invalidations)
  | .calling started generation seen => w.moved i (.fetching started generation seen w.now w.invalidations)
  | .fetching started generation seen since begun =>
    match x with
    | .panic => w.leave i .panicked
    | .err e => w.leave i (.error e)
    | .ok v =>
      let s : Sample V := ⟨v, since, begun⟩
      if isNull v then w.leave i (.fetched s) else w.moved i (.storing started generation seen s)
  | .storing started generation _ s => { w.leave i (.fetched s) with slot := w.slot.store generation started s }
  | .done _ => w

def step (w : World V E) : Event V E → World V E
  | .call i ttl =>
    match w.calls i with
    | .idle => w.moved i (.looking ttl)
    | _ => w
  | .run i x => w.run isNull i x
  | .invalidate settle => { w with slot := w.slot.invalidate settle w.now, invalidations := w.invalidations + 1 }
  | .pass d => { w with now := w.now + d }

end World

end OpenU60.Cache
