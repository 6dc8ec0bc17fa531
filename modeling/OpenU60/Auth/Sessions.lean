/-
  OpenU60.Auth.Sessions — sessions and their table (`zte-agent/src/auth/mod.rs`, `table.rs`).

  A text is its bytes. `sha` stands for SHA-256, and what the random number generator draws is
  part of a call. The revoke hook's calls are the record `hooked`, the ids pruned the record
  `expired`.
-/

import OpenU60.Auth.Limiter
import OpenU60.Lib.Ring

namespace OpenU60.Auth

open OpenU60.Lib OpenU60.Lib.FirstMatch

abbrev Text := List UInt8

abbrev Bytes (n : Nat) := {b : List UInt8 // b.length = n}

inductive Kind where
  | bearer
  | browser
  deriving DecidableEq

def Kind.tag : Kind → Text
  | .bearer => [98, 101, 97, 114, 101, 114, 0]
  | .browser => [98, 114, 111, 119, 115, 101, 114, 0]

structure Policy where
  idle : Nat
  absolute : Nat
  cap : Nat
  deriving DecidableEq

structure AuthConfig where
  bearer : Policy := ⟨secs 3600, secs (24 * 3600), 32⟩
  browser : Policy := ⟨secs (12 * 3600), secs (7 * 24 * 3600), 16⟩
  limiter : LimiterConfig := {}
  deriving DecidableEq

def AuthConfig.policy (cfg : AuthConfig) : Kind → Policy
  | .bearer => cfg.bearer
  | .browser => cfg.browser

/-! ## Hexadecimal -/

def hexDigit (n : UInt8) : UInt8 := if n < 10 then 48 + n else 87 + n

def hex (b : List UInt8) : Text := b.flatMap fun (c : UInt8) => [hexDigit (c >>> 4), hexDigit (c &&& 15)]

def nibble (c : UInt8) : Option UInt8 :=
  if 48 ≤ c ∧ c ≤ 57 then some (c - 48)
  else if 97 ≤ c ∧ c ≤ 102 then some (c - 97 + 10)
  else none

def parsePairs : Text → Option (List UInt8)
  | hi :: lo :: s => do
    let hi ← nibble hi
    let lo ← nibble lo
    let out ← parsePairs s
    some ((hi <<< 4 ||| lo) :: out)
  | _ => some []

def parseHex (n : Nat) (s : Text) : Option (Bytes n) :=
  if s.length ≠ 2 * n then none
  else do
    let out ← parsePairs s
    if h : out.length = n then some ⟨out, h⟩ else none

/-! ## The table -/

variable {D : Type} [DecidableEq D]

structure Entry (D : Type) where
  id : Nat
  kind : Kind
  digest : D
  csrf : Bytes 32
  created : Nat
  lastUsed : Nat

def Entry.deadline (cfg : AuthConfig) (e : Entry D) : Nat :=
  min (e.lastUsed + (cfg.policy e.kind).idle) (e.created + (cfg.policy e.kind).absolute)

def Entry.has (kind : Kind) (digest : D) (e : Entry D) : Bool := e.digest = digest && e.kind = kind

structure SessionTable (D : Type) where
  entries : List (Entry D)
  nextId : Nat
  recentExpired : Lib.Ring Nat
  /-- Every id pruned, in order. -/
  expired : List Nat

namespace SessionTable

variable (cfg : AuthConfig)

def new : SessionTable D := ⟨[], 1, .empty (max (cfg.bearer.cap + cfg.browser.cap) 1), []⟩

def allocId (t : SessionTable D) : Nat × SessionTable D := (t.nextId, { t with nextId := t.nextId + 1 })

def expire (t : SessionTable D) (i id : Nat) : SessionTable D :=
  { t with
    entries := Vec.swapRemove t.entries i
    recentExpired := t.recentExpired.record id
    expired := t.expired ++ [id] }

/-- The loop of `prune`, with `left` entries from `i` on. -/
def pruneFrom (now : Nat) : Nat → Nat → SessionTable D → SessionTable D
  | 0, _, t => t
  | left + 1, i, t =>
    match t.entries[i]? with
    | none => t
    | some e => if e.deadline cfg ≤ now then pruneFrom now left i (t.expire i e.id) else pruneFrom now left (i + 1) t

def prune (t : SessionTable D) (now : Nat) : SessionTable D := t.pruneFrom cfg now t.entries.length 0

/-- Where the least recently used entry of the kind is. -/
def lru (t : SessionTable D) (kind : Kind) : Option (Nat × Entry D) :=
  (Vec.firstMin (fun p => p.1.lastUsed) (t.entries.zipIdx.filter (·.1.kind = kind))).map fun p => (p.2.2, p.2.1)

def insert (t : SessionTable D) (e : Entry D) : Option Nat × SessionTable D :=
  let cap := (cfg.policy e.kind).cap
  let (evicted, entries) :=
    if cap ≤ t.entries.countP (·.kind = e.kind) then
      match t.lru e.kind with
      | some (i, lru) => (some lru.id, Vec.swapRemove t.entries i)
      | none => (none, t.entries)
    else (none, t.entries)
  (evicted, { t with entries := entries ++ [e] })

def find (t : SessionTable D) (kind : Kind) (digest : D) : Option (Entry D) :=
  t.entries.find? (·.has kind digest)

def byId (t : SessionTable D) (id : Nat) : Option (Entry D) := t.entries.find? (·.id == id)

/-- `last_used` of the entry a lookup has found. -/
def use (t : SessionTable D) (found : Entry D → Bool) (now : Nat) : SessionTable D :=
  { t with entries := updateFirst found (fun e => { e with lastUsed := now }) t.entries }

/-- The entry a lookup finds is taken out of the vector. -/
def remove (t : SessionTable D) (found : Entry D → Bool) : Option Nat × SessionTable D :=
  match t.entries.findIdx? found with
  | some i => ((t.entries[i]?).map Entry.id, { t with entries := Vec.swapRemove t.entries i })
  | none => (none, t)

def removeDigest (t : SessionTable D) (kind : Kind) (digest : D) : Option Nat × SessionTable D :=
  t.remove (·.has kind digest)

def removeId (t : SessionTable D) (id : Nat) : Bool × SessionTable D :=
  let (removed, t) := t.remove (·.id == id)
  (removed.isSome, t)

/-- The digests in turn. -/
def removeDigests (t : SessionTable D) (kind : Kind) : List D → List Nat × SessionTable D
  | [] => ([], t)
  | d :: ds =>
    let (removed, t) := t.removeDigest kind d
    let (rest, t) := t.removeDigests kind ds
    (removed.toList ++ rest, t)

def recentlyExpired (t : SessionTable D) (id : Nat) : Bool := t.recentExpired.holds id

def clear (t : SessionTable D) : List Nat × SessionTable D := (t.entries.map Entry.id, { t with entries := [] })

end SessionTable

/-! ## The facade -/

inductive LoginError where
  | noPassword
  | badPassword
  | rateLimited (retryAfter : Nat)
  | entropy
  deriving DecidableEq

structure Issued where
  id : Nat
  token : Text
  csrf : Option Text
  maxAge : Nat
  deriving DecidableEq

structure Principal where
  id : Nat
  kind : Kind
  csrf : Bytes 32
  deriving DecidableEq

inductive SessionCheck where
  | live (remaining : Nat)
  | expired
  | revoked
  deriving DecidableEq

structure AuthState (D : Type) where
  password : Option D
  table : SessionTable D
  limiter : LoginLimiter
  /-- The ids the revoke hook has been given, in order. -/
  hooked : List Nat

def digest (sha : Text → D) (kind : Kind) (token : Bytes 32) : D := sha (kind.tag ++ token.val)

def zeros : Bytes 32 := ⟨List.replicate 32 0, rfl⟩

/-- What the generator gives a login. -/
structure Draws where
  token : Option (Bytes 32)
  csrf : Option (Bytes 32)
  deriving DecidableEq

namespace AuthState

variable (cfg : AuthConfig) (sha : Text → D)

def withParts (password : Option D) (now : Nat) : AuthState D := ⟨password, .new cfg, .new cfg.limiter now, []⟩

/-- The digests of the sessions a browser login replaces. -/
def replaced (kind : Kind) (replacing : List Text) : List D :=
  match kind with
  | .browser => (replacing.filterMap (parseHex 32)).map (digest sha .browser)
  | .bearer => []

/-- The part of `login` under the lock, with the password right. -/
def issue (s : AuthState D) (kind : Kind) (replacing : List Text) (token csrf : Bytes 32) (now : Nat) : Nat × AuthState D :=
  let (revoked, table) := s.table.removeDigests .browser (replaced sha kind replacing)
  let (id, table) := table.allocId
  let (evicted, table) := table.insert cfg ⟨id, kind, digest sha kind token, csrf, now, now⟩
  (id, { s with table, hooked := s.hooked ++ (revoked ++ evicted.toList) })

def login (s : AuthState D) (password : Text) (kind : Kind) (peer : PeerKey) (replacing : List Text) (draws : Draws) (now : Nat) :
    Except LoginError Issued × AuthState D :=
  match draws.token, if kind = .browser then draws.csrf else some zeros with
  | some token, some csrf =>
    let (admission, limiter) := s.limiter.check cfg.limiter peer now
    let s := { s with table := s.table.prune cfg now, limiter }
    match admission, s.password with
    | .deny wait, _ => (.error (.rateLimited wait), s)
    | .allow, none => (.error .noPassword, s)
    | .allow, some stored =>
      if sha password ≠ stored then
        (.error .badPassword, { s with limiter := (s.limiter.recordFailure cfg.limiter peer now).2 })
      else
        let (id, s) := { s with limiter := s.limiter.recordSuccess peer }.issue cfg sha kind replacing token csrf now
        (.ok ⟨id, hex token.val, if kind = .browser then some (hex csrf.val) else none, (cfg.policy kind).absolute⟩, s)
  | _, _ => (.error .entropy, s)

def authenticate (s : AuthState D) (kind : Kind) (token : Text) (now : Nat) : Option Principal × AuthState D :=
  match parseHex 32 token with
  | none => (none, s)
  | some token =>
    let d := digest sha kind token
    let table := s.table.prune cfg now
    match table.find kind d with
    | none => (none, { s with table })
    | some e =>
      (some ⟨e.id, kind, e.csrf⟩, { s with table := table.use (·.has kind d) now })

def logout (s : AuthState D) (kind : Kind) (token : Text) (now : Nat) : Bool × AuthState D :=
  match parseHex 32 token with
  | none => (false, s)
  | some token =>
    let (removed, table) := (s.table.prune cfg now).removeDigest kind (digest sha kind token)
    (removed.isSome, { s with table, hooked := s.hooked ++ removed.toList })

def logoutId (s : AuthState D) (id now : Nat) : Bool × AuthState D :=
  let (removed, table) := (s.table.prune cfg now).removeId id
  (removed, { s with table, hooked := if removed then s.hooked ++ [id] else s.hooked })

def revokeAll (s : AuthState D) : Nat × AuthState D :=
  let (ids, table) := s.table.clear
  (ids.length, { s with table, hooked := s.hooked ++ ids })

def touchSession (s : AuthState D) (id now : Nat) : SessionCheck × AuthState D :=
  let (check, table) :=
    match s.table.byId id with
    | some e =>
      if e.deadline cfg ≤ now then (SessionCheck.expired, s.table)
      else (.live ({ e with lastUsed := now }.deadline cfg - now), s.table.use (·.id == id) now)
    | none => (if s.table.recentlyExpired id then .expired else .revoked, s.table)
  (check, { s with table := table.prune cfg now })

end AuthState

end OpenU60.Auth
