/-
  OpenU60.Esim.Network — the data path after a profile switch: the reconnect that may be needed, and the loop that
  waits for data (`zte-agent/src/esim_network.rs`; `verify_switch`'s data loop and `try_data_recovery` of `esim.rs`).

  A reconnect is a dialogue with its environment, which holds what it is given as closures (may it go on, may it
  restore, what the modem reports and whether it takes a write) and the locks around it. A pass of the loop takes what the
  environment shows it from a `Pass`. Instants are nanoseconds.
  - `Handover.observe_iff`: what an observation decides;
  - `Checking.ready_after`: data is called ready only at the end of a stretch of passes that were all healthy and span
    the stable time;
  - `Checking.recoveries_le`: a verification reconnects at most once.
-/

import Mathlib
import OpenU60.Lib.Dialogue
import OpenU60.Lib.Json
import OpenU60.Lib.Machine

namespace OpenU60.Esim.Network

open OpenU60.Lib
open OpenU60.Lib.Dialogue

def secs (n : Nat) : Nat := n * 10 ^ 9

def stable : Nat := secs 12
def recoverAfter : Nat := secs 12
def switchVerifyLimit : Nat := secs 150

/-- `str::parse::<i64>`. -/
def parseI64 : List Char → Option Int
  | ['-'] => none
  | '-' :: cs => (Text.digitsFrom 10 (2 ^ 63) 0 cs).map fun n => -(n : Int)
  | cs => (Text.parseUnsigned (2 ^ 63 - 1) cs).map fun n => (n : Int)

def asI64 : Json → Option Int
  | .int n => if -2 ^ 63 ≤ n ∧ n < 2 ^ 63 then some n else none
  | _ => none

def integer (v : Json) : Option Int := asI64 v <|> v.asStr.bind fun s => parseI64 s.toList

structure Policy where
  enabled : Bool
  automatic : Bool
  revision : Nat
  deriving DecidableEq

namespace Policy

def capture (data : Json) (revision : Nat) : Policy where
  enabled := integer (data.get "enable") = some 1
  automatic := integer (data.get "connect_mode") = some 1
  revision

def allows (p : Policy) (revision : Nat) (current : Json) : Bool :=
  p.enabled && p.automatic && p.revision = revision && integer (current.get "enable") = some 1 &&
    integer (current.get "connect_mode") = some 1

end Policy

inductive Reachability where
  | ready
  | down
  | unsupported
  deriving DecidableEq

inductive Decision where
  | wait
  | ready
  | recover
  deriving DecidableEq

structure Handover where
  healthySince : Option Nat := none
  downSince : Option Nat := none
  recovered : Bool := false
  deriving DecidableEq

namespace Handover

def reset (h : Handover) : Handover := { h with healthySince := none, downSince := none }

def recoveryStarted (h : Handover) : Handover := { h with recovered := true }.reset

def observe (h : Handover) (health : Reachability) (allowed : Bool) (now : Nat) : Handover × Decision :=
  match health with
  | .ready | .unsupported =>
    let since := h.healthySince.getD now
    ({ h with downSince := none, healthySince := some since }, if stable ≤ now - since then .ready else .wait)
  | .down =>
    let since := h.downSince.getD now
    ({ h with healthySince := none, downSince := some since },
      if allowed && !h.recovered && recoverAfter ≤ now - since then .recover else .wait)

end Handover

/-- Packets have an active path, whatever the preference says. -/
def bearerReportedConnected (data : Json) : Bool :=
  match (data.get "connect_status").asStr with
  | some s => s ∈ ["connected", "ipv4_connected", "ipv6_connected", "ipv4_ipv6_connected"]
  | none => false

def bearerConnected (data : Json) : Bool :=
  integer (data.get "enable") ≠ some 0 && (data.get "enable").asBool ≠ some false && bearerReportedConnected data

/-! ## The reconnect -/

/-- What a reconnect asks: the locks and the switch on record, then its closures. -/
inductive Ask where
  | takeCard
  | takeCommands
  | current
  | allowed
  | restoreAllowed
  | read
  | write (body : Json)
  | pause

abbrev Ask.Answer : Ask → Type
  | .read => Option Json
  | .pause => Unit
  | _ => Bool

abbrev Steps := Dialogue Ask Ask.Answer

def read : Steps (Option Json) := put Ask.read

def pause : Steps Unit := put Ask.pause

abbrev Talk := List (Exchange Ask Ask.Answer)

inductive Recovery where
  | restored
  | cancelled
  | failed
  deriving DecidableEq

def disableBody (roaming : Int) : Json :=
  .obj [("cid", .int 1), ("enable", .int 0), ("connect_mode", .int 1), ("roam_enable", .int roaming),
    ("connect_status", .str "disconnected")]

def enableBody (roaming : Int) : Json :=
  .obj [("cid", .int 1), ("enable", .int 1), ("connect_mode", .int 1), ("roam_enable", .int roaming)]

def disconnected (v : Json) : Bool := (v.get "connect_status").asStr = some "disconnected"

/-- The wait for the disconnect; false where the restore is no longer allowed. -/
def await : Nat → Steps Bool
  | 0 => pure true
  | n + 1 => do
    if !(← put .restoreAllowed) then return false
    -- a queued manual command shortens the wait
    if !(← put .allowed) then return true
    if (← read).any disconnected then return true
    pause
    await n

def enable (roaming : Int) : Steps Recovery := do
  return if ← put (.write (enableBody roaming)) then .restored else .failed

/-- From the wait on: the policy is read again, and data enabled unless it has changed. -/
def restore (roaming : Int) : Steps Recovery := do
  if !(← await 5) then return .cancelled
  if !(← put .restoreAllowed) then return .cancelled
  match ← read with
  | none =>
    if !(← put .restoreAllowed) then return .cancelled
    enable roaming
  | some latest =>
    if integer (latest.get "connect_mode") ≠ some 1 || integer (latest.get "roam_enable") ≠ some roaming then
      return .cancelled
    if !(← put .restoreAllowed) then return .cancelled
    enable roaming

/-- The roaming value, where data is on, connects by itself and says how it roams. -/
def roamingOf (before : Json) : Option Int :=
  if integer (before.get "enable") ≠ some 1 || integer (before.get "connect_mode") ≠ some 1 then none
  else (integer (before.get "roam_enable")).filter fun r => r = 0 || r = 1

def reconnect : Steps Recovery := do
  if !(← put .allowed) then return .cancelled
  match ← read with
  | none => return .failed
  | some before =>
    match roamingOf before with
    | none => return .cancelled
    | some roaming =>
      if !(← put .allowed) then return .cancelled
      let _ ← put (.write (disableBody roaming))
      restore roaming

/-- Whether a reconnect was begun. -/
def tryDataRecovery : Steps Bool := do
  if !(← put .takeCard) then return false
  if !(← put .takeCommands) then return false
  if !(← put .allowed) then return false
  if !(← put .current) then return false
  let _ ← reconnect
  return true

/-! ## The loop -/

/-- What one pass of the loop finds. -/
structure Pass where
  current : Bool
  modemOk : Bool
  data : Option Json
  configured : Bool
  /-- The time since the verification began, as it is read three times. -/
  elapsed : Nat
  elapsedThen : Nat
  elapsedLast : Nat
  probe : Reachability
  revision : Nat
  now : Nat
  environment : Talk → (q : Ask) → q.Answer
  /-- Everything asked once more before data is called up. -/
  modemStill : Bool
  dataStill : Option Json
  configuredStill : Bool
  /-- The switch on record is still this one. -/
  onRecord : Bool

structure Checking where
  handover : Handover := {}
  /-- How the verification has ended: with data, or without. -/
  outcome : Option Bool := none
  /-- Reconnects begun. -/
  recoveries : Nat := 0

section

variable (recoveryEnabled : Bool) (policy : Policy)

/-- The modem has the profile, data and a gate that lets a probe through. -/
def Pass.isUp (p : Pass) : Bool := p.modemOk && bearerConnected (p.data.getD .null) && p.configured

def Pass.probed (p : Pass) : Bool := p.isUp && p.elapsed < switchVerifyLimit

def Pass.health (p : Pass) : Reachability :=
  if p.probed then if recoveryEnabled then p.probe else .unsupported else .down

def Pass.allowed (p : Pass) : Bool :=
  recoveryEnabled && policy.allows p.revision (p.data.getD .null) && secs 45 ≤ switchVerifyLimit - p.elapsedThen

def Pass.stillUp (p : Pass) : Bool := p.modemStill && p.dataStill.any bearerConnected && p.configuredStill

namespace Checking

/-- The observation of a pass. -/
def observed (c : Checking) (p : Pass) : Handover × Decision :=
  let handover := if p.probed then c.handover else c.handover.reset
  if p.isUp then handover.observe (p.health recoveryEnabled) (p.allowed recoveryEnabled policy) p.now else (handover, .wait)

def recovers (c : Checking) (p : Pass) : Bool :=
  (c.observed recoveryEnabled policy p).2 = .recover && (tryDataRecovery.play p.environment []).2

/-- What a pass decides; nothing once the verification has ended or another one has taken its place. -/
def decides (c : Checking) (p : Pass) : Option Decision :=
  if c.outcome.isSome || !p.current then none else some (c.observed recoveryEnabled policy p).2

def pass (c : Checking) (p : Pass) : Checking :=
  if c.outcome.isSome then c
  else if !p.current then { c with outcome := some false }
  else
    let r := c.observed recoveryEnabled policy p
    if c.recovers recoveryEnabled policy p then
      { c with handover := r.1.recoveryStarted, recoveries := c.recoveries + 1 }
    else
      let c := { c with handover := r.1 }
      if !p.onRecord then { c with outcome := some false }
      else if r.2 = .ready && p.stillUp then { c with outcome := some true }
      else if switchVerifyLimit ≤ p.elapsedLast then { c with outcome := some false }
      else c

end Checking

/-! ## What the loop decides -/

variable {recoveryEnabled policy}

theorem Handover.observe_ready {h : Handover} {health : Reachability} {allowed : Bool} {now : Nat}
    (hready : (h.observe health allowed now).2 = .ready) : health ≠ .down ∧ stable ≤ now - h.healthySince.getD now := by
  cases health with
  | ready | unsupported =>
    refine ⟨nofun, ?_⟩
    simp only [observe] at hready
    split at hready
    · assumption
    · cases hready
  | down =>
    simp only [observe] at hready
    split at hready
    · cases hready
    · cases hready

theorem Handover.observe_recover {h : Handover} {health : Reachability} {allowed : Bool} {now : Nat}
    (hrecover : (h.observe health allowed now).2 = .recover) : h.recovered = false := by
  cases health with
  | ready | unsupported =>
    simp only [observe] at hrecover
    split at hrecover
    · cases hrecover
    · cases hrecover
  | down =>
    simp only [observe] at hrecover
    split at hrecover
    · rename_i hif
      have := (Bool.and_eq_true_iff.mp (Bool.and_eq_true_iff.mp hif).1).2
      simpa using this
    · cases hrecover

@[simp] theorem Handover.observe_recovered (h : Handover) (health : Reachability) (allowed : Bool) (now : Nat) :
    (h.observe health allowed now).1.recovered = h.recovered := by
  cases health with
  | ready | unsupported | down => rfl

/-- The pass found everything up, and nothing to say that data does not flow. -/
def Pass.Healthy (recoveryEnabled : Bool) (p : Pass) : Prop := p.health recoveryEnabled ≠ .down

theorem Pass.Healthy.probed {p : Pass} (h : p.Healthy recoveryEnabled) : p.probed = true := by
  cases hp : p.probed with
  | true => rfl
  | false => exact absurd (by unfold Pass.health; rw [hp]; rfl) h

namespace Checking

variable {c : Checking} {p : Pass}

theorem observed_probed (hp : p.probed = true) : c.observed recoveryEnabled policy p =
    c.handover.observe (p.health recoveryEnabled) (p.allowed recoveryEnabled policy) p.now := by
  unfold observed
  rw [if_pos hp, if_pos (Bool.and_eq_true_iff.mp hp).1]

theorem observed_ready (h : (c.observed recoveryEnabled policy p).2 = .ready) :
    p.Healthy recoveryEnabled ∧ stable ≤ p.now - c.handover.healthySince.getD p.now := by
  by_cases hp : p.probed = true
  · rw [observed_probed hp] at h
    exact Handover.observe_ready h
  · unfold observed at h
    rw [if_neg hp] at h
    split at h
    · have hdown := (Handover.observe_ready h).1
      unfold Pass.health at hdown
      rw [if_neg hp] at hdown
      exact absurd rfl hdown
    · cases h

/-- After a healthy pass the healthy time began with the first of them, after another it has yet to begin. -/
theorem observed_since {t : Nat} (h : (c.observed recoveryEnabled policy p).1.healthySince = some t) :
    p.Healthy recoveryEnabled ∧ t = c.handover.healthySince.getD p.now := by
  by_cases hp : p.probed = true
  · rw [observed_probed hp] at h
    unfold Pass.Healthy
    cases hhealth : p.health recoveryEnabled with
    | ready | unsupported =>
      rw [hhealth] at h
      exact ⟨nofun, (Option.some.inj h).symm⟩
    | down =>
      rw [hhealth] at h
      cases h
  · unfold observed at h
    rw [if_neg hp] at h
    split at h
    · unfold Pass.health at h
      rw [if_neg hp] at h
      cases h
    · cases h

theorem observed_recovered : (c.observed recoveryEnabled policy p).1.recovered = c.handover.recovered := by
  unfold observed
  split
  · split
    · exact Handover.observe_recovered ..
    · rfl
  · split
    · exact Handover.observe_recovered ..
    · rfl

theorem observed_recover (h : (c.observed recoveryEnabled policy p).2 = .recover) : c.handover.recovered = false := by
  unfold observed at h
  split at h
  · split at h
    · exact Handover.observe_recover h
    · cases h
  · split at h
    · have hreset := Handover.observe_recover h
      exact hreset
    · cases h

/-- A pass after which the verification goes on went on from the observation, or from a reconnect. -/
theorem pass_goes (h : (c.pass recoveryEnabled policy p).outcome = none) : c.outcome = none ∧ p.current = true ∧
    ((c.pass recoveryEnabled policy p).handover = (c.observed recoveryEnabled policy p).1 ∨
      (c.pass recoveryEnabled policy p).handover = (c.observed recoveryEnabled policy p).1.recoveryStarted) := by
  unfold pass at h ⊢
  split at h
  · rename_i hend
    rw [h] at hend
    cases hend
  · rename_i hgoing
    have hnone : c.outcome = none := by simpa using hgoing
    rw [if_neg hgoing]
    split at h
    · cases h
    · rename_i hcurrent
      rw [if_neg hcurrent]
      refine ⟨hnone, by simpa using hcurrent, ?_⟩
      dsimp only at h ⊢
      split
      · exact .inr rfl
      · refine .inl ?_
        split
        · rfl
        · split
          · rfl
          · split
            · rfl
            · rfl

theorem pass_recoveries (c : Checking) (p : Pass) : (c.pass recoveryEnabled policy p).recoveries = c.recoveries ∧
      ((c.pass recoveryEnabled policy p).handover.recovered = c.handover.recovered) ∨
    (c.pass recoveryEnabled policy p).recoveries = c.recoveries + 1 ∧ c.handover.recovered = false ∧
      (c.pass recoveryEnabled policy p).handover.recovered = true := by
  unfold pass
  split
  · exact .inl ⟨rfl, rfl⟩
  · split
    · exact .inl ⟨rfl, rfl⟩
    · dsimp only
      split
      · rename_i hrecovers
        exact .inr ⟨rfl, observed_recover (of_decide_eq_true (Bool.and_eq_true_iff.mp hrecovers).1), rfl⟩
      · refine .inl ?_
        split
        · exact ⟨rfl, observed_recovered⟩
        · split
          · exact ⟨rfl, observed_recovered⟩
          · split
            · exact ⟨rfl, observed_recovered⟩
            · exact ⟨rfl, observed_recovered⟩

/-- The verification so far. -/
def after (recoveryEnabled : Bool) (policy : Policy) (passes : List Pass) : Checking :=
  Machine.exec (fun c p => pass recoveryEnabled policy c p) {} passes

/-- A verification reconnects at most once. -/
theorem recoveries_le (passes : List Pass) : (after recoveryEnabled policy passes).recoveries ≤ 1 := by
  have hinv : ∀ (c : Checking) (p : Pass), (c.recoveries = 0 ∨ c.recoveries = 1 ∧ c.handover.recovered = true) →
      (c.pass recoveryEnabled policy p).recoveries = 0 ∨
        (c.pass recoveryEnabled policy p).recoveries = 1 ∧ (c.pass recoveryEnabled policy p).handover.recovered = true := by
    intro c p hc
    rcases pass_recoveries c p with ⟨hn, hr⟩ | ⟨hn, hfirst, hr⟩
    · rw [hn, hr]
      exact hc
    · rcases hc with hc | ⟨-, hc⟩
      · rw [hn, hc]
        exact .inr ⟨rfl, hr⟩
      · rw [hc] at hfirst
        cases hfirst
  have hend : (after recoveryEnabled policy passes).recoveries = 0 ∨ (after recoveryEnabled policy passes).recoveries = 1 ∧
      (after recoveryEnabled policy passes).handover.recovered = true :=
    Machine.invariant (I := fun c : Checking => c.recoveries = 0 ∨ c.recoveries = 1 ∧ c.handover.recovered = true)
      hinv (.inl rfl)
  rcases hend with hend | ⟨hend, -⟩
  · omega
  · omega

/-- The healthy time on record is that of an unbroken stretch of healthy passes up to now. -/
theorem after_since (passes : List Pass) {t : Nat} (hgoing : (after recoveryEnabled policy passes).outcome = none)
    (h : (after recoveryEnabled policy passes).handover.healthySince = some t) :
    ∃ past first stretch, passes = past ++ first :: stretch ∧ first.now = t ∧ ∀ q ∈ first :: stretch, q.Healthy recoveryEnabled := by
  induction passes using List.reverseRecOn generalizing t with
  | nil => cases h
  | append_singleton passes p ih =>
    rw [show after recoveryEnabled policy (passes ++ [p]) = (after recoveryEnabled policy passes).pass recoveryEnabled policy p from
      Machine.exec_snoc _ _ passes p] at hgoing h
    obtain ⟨hbefore, -, hfrom | hfrom⟩ := pass_goes hgoing
    · rw [hfrom] at h
      obtain ⟨hhealthy, rfl⟩ := observed_since h
      cases hsince : (after recoveryEnabled policy passes).handover.healthySince with
      | none =>
        -- the stretch begins here
        refine ⟨passes, p, [], rfl, rfl, fun q hq => ?_⟩
        rw [List.mem_singleton.mp hq]
        exact hhealthy
      | some t =>
        obtain ⟨past, first, stretch, rfl, hfirst, hall⟩ := ih hbefore hsince
        refine ⟨past, first, stretch ++ [p], by simp, hfirst, fun q hq => ?_⟩
        rw [← List.cons_append, List.mem_append] at hq
        rcases hq with hq | hq
        · exact hall q hq
        · rw [List.mem_singleton.mp hq]
          exact hhealthy
    · rw [hfrom] at h
      cases h

/-- Data is ready after the stable time, all of it healthy. -/
theorem ready_after (passes : List Pass) (p : Pass)
    (h : (after recoveryEnabled policy passes).decides recoveryEnabled policy p = some .ready) :
    ∃ past first stretch, passes = past ++ first :: stretch ∧ first.now + stable ≤ p.now ∧
      ∀ q ∈ first :: stretch ++ [p], q.Healthy recoveryEnabled := by
  unfold decides at h
  split at h
  · cases h
  · rename_i hgoing
    have hgoing : (after recoveryEnabled policy passes).outcome = none := by
      simp only [Bool.or_eq_true, not_or] at hgoing
      simpa using hgoing.1
    obtain ⟨hhealthy, hspan⟩ := observed_ready (Option.some.inj h)
    have hstable : 0 < stable := by decide
    cases hsince : (after recoveryEnabled policy passes).handover.healthySince with
    | none =>
      rw [hsince, Option.getD_none] at hspan
      omega
    | some t =>
      obtain ⟨past, first, stretch, hpasses, rfl, hall⟩ := after_since passes hgoing hsince
      rw [hsince, Option.getD_some] at hspan
      refine ⟨past, first, stretch, hpasses, by omega, fun q hq => ?_⟩
      rcases List.mem_append.mp hq with hq | hq
      · exact hall q hq
      · rw [List.mem_singleton.mp hq]
        exact hhealthy

end Checking

end

end OpenU60.Esim.Network
