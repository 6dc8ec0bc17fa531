/-
  OpenU60.Scheduler.Job — a scheduled job (`zte-agent/src/scheduler.rs`): its data, what
  `validate_job` accepts, and the local time a tick compares its time with.

  A time is checked by its numbers and compared by its text: `validateTime` takes any
  spelling `u8::parse` takes of an hour and a minute, a tick takes only the one it writes
  itself. `time_eq_hm` is that difference.

  The zone is a parameter: the offset of local time from UTC, in minutes, by UTC minute.
  A JSON body is kept as its text.
-/

import Mathlib
import OpenU60.Lib.FirstMatch
import OpenU60.Lib.Text

namespace OpenU60.Scheduler

open OpenU60.Lib OpenU60.Lib.FirstMatch

inductive Schedule where
  | once (ts : Int)
  | recurring (time : String) (days : List Nat)
  deriving DecidableEq

def Schedule.isOnce : Schedule → Bool
  | once _ => true
  | recurring _ _ => false

structure Action where
  method : String
  path : String
  body : Option String
  deriving DecidableEq

structure Restore where
  time : String
  body : Option String
  deriving DecidableEq

structure Job where
  id : UInt32
  name : String
  enabled : Bool
  schedule : Schedule
  action : Action
  restore : Option Restore
  lastRun : Option Int
  lastStatus : Option Nat
  lastError : Option String
  lastRestore : Option Int
  createdAt : Int
  /-- Ghost: which creation made this job. -/
  serial : Nat
  deriving DecidableEq

/-! ## Validation -/

inductive Method where
  | get
  | post
  | put
  | delete
  deriving DecidableEq

def parseMethod (s : String) : Option Method :=
  if s = "GET" then some .get
  else if s = "POST" then some .post
  else if s = "PUT" then some .put
  else if s = "DELETE" then some .delete
  else none

def validateTime (s : String) : Except String Unit :=
  match s.toList.splitOn ':' with
  | [hour, minute] =>
    match Text.parseUnsigned Text.u8Max hour with
    | none => .error "invalid hour"
    | some h =>
      match Text.parseUnsigned Text.u8Max minute with
      | none => .error "invalid minute"
      | some m =>
        if h > 23 then .error "hour must be 0-23"
        else if m > 59 then .error "minute must be 0-59"
        else .ok ()
  | _ => .error "time must be HH:MM"

def startsWith (s start : String) : Bool := start.toList.isPrefixOf s.toList

def validateAction (action : Action) : Except String Unit :=
  if !startsWith action.path "/api/" then .error "action.path must start with /api/"
  else if startsWith action.path "/api/scheduler/" then .error "cannot schedule scheduler endpoints"
  else if startsWith action.path "/api/auth/" then .error "cannot schedule auth endpoints"
  else if action.path ∈ ["/api/tailscale/setup", "/api/tailscale/logout", "/api/tailscale/update"] then
    .error "cannot schedule tailscale enrollment or maintenance endpoints"
  else if parseMethod action.method = none then .error "action.method must be GET, POST, PUT, or DELETE"
  else .ok ()

def validateSchedule : Schedule → Except String Unit
  | .recurring time days => do
    validateTime time
    if days.isEmpty then .error "days must not be empty"
    else if days.any (· > 6) then .error "days must be 0-6 (Mon-Sun)"
    else .ok ()
  | .once ts => if ts ≤ 1000000000 then .error "once.at must be a valid unix timestamp" else .ok ()

def validateJob (action : Action) (schedule : Schedule) (restore : Option Restore) : Except String Unit := do
  validateAction action
  validateSchedule schedule
  match restore with
  | some r => validateTime r.time
  | none => .ok ()

/-! ## Local time -/

structure Now where
  ts : Int
  hour : Nat
  minute : Nat
  dow : Nat
  deriving DecidableEq

/-- `localtime_r`; days count from Monday. -/
def nowLocal (zone : Int → Int) (ts : Int) : Now :=
  let m := ts / 60 + zone (ts / 60)
  ⟨ts, (m / 60 % 24).toNat, (m % 60).toNat, ((m / 1440 + 3) % 7).toNat⟩

/-- `{:02}:{:02}`. -/
def hm (hour minute : Nat) : String := String.ofList (Text.pad2 hour ++ ':' :: Text.pad2 minute)

/-- The hour and minute a time is for. -/
def hourMinute (s : String) : Option (Nat × Nat) :=
  match s.toList.splitOn ':' with
  | [hour, minute] =>
    match Text.parseUnsigned Text.u8Max hour, Text.parseUnsigned Text.u8Max minute with
    | some h, some m => some (h, m)
    | _, _ => none
  | _ => none

theorem validateTime_ok {s : String} (h : validateTime s = .ok ()) :
    ∃ hour minute, hourMinute s = some (hour, minute) ∧ hour ≤ 23 ∧ minute ≤ 59 := by
  unfold validateTime at h
  unfold hourMinute
  split at h
  · next hour minute hs =>
    split at h
    · cases h
    · next a ha =>
      split at h
      · cases h
      · next b hb =>
        by_cases h1 : a > 23
        · simp [h1] at h
        · by_cases h2 : b > 59
          · simp [h1, h2] at h
          · exact ⟨a, b, by simp [ha, hb], by omega, by omega⟩
  · cases h

theorem digitChar_ne_colon (n : Nat) : Text.digitChar n ≠ ':' := by
  have hall : ∀ d < 10, Char.ofNat ('0'.toNat + d) ≠ ':' := by decide
  exact hall (n % 10) (Nat.mod_lt _ (by omega))

theorem parse_pad2 {n : Nat} (h : n < 100) : Text.parseUnsigned Text.u8Max (Text.pad2 n) = some n := by
  have hall : ∀ n < 100, Text.parseUnsigned Text.u8Max (Text.pad2 n) = some n := by decide
  exact hall n h

theorem splitOn_hm (hour minute : Nat) : (hm hour minute).toList.splitOn ':' = [Text.pad2 hour, Text.pad2 minute] := by
  simp [hm, Text.pad2, List.splitOn, List.splitOnP_cons_eq_if_modifyHead, digitChar_ne_colon]

theorem hourMinute_hm {hour minute : Nat} (hh : hour < 100) (hm' : minute < 100) :
    hourMinute (hm hour minute) = some (hour, minute) := by
  simp [hourMinute, splitOn_hm, parse_pad2 hh, parse_pad2 hm']

/-- What a tick's comparison comes to: the time's own spelling is the zero-padded one, and
    the hour and minute are the ones it is for. -/
theorem time_eq_hm {time : String} {h m hour minute : Nat} (ht : hourMinute time = some (h, m)) (hh : hour < 100)
    (hm' : minute < 100) : time = hm hour minute ↔ time = hm h m ∧ hour = h ∧ minute = m := by
  constructor
  · intro e
    rw [e, hourMinute_hm hh hm', Option.some.injEq, Prod.mk.injEq] at ht
    obtain ⟨rfl, rfl⟩ := ht
    exact ⟨e, rfl, rfl⟩
  · rintro ⟨e, rfl, rfl⟩
    exact e

theorem nowLocal_bounds (zone : Int → Int) (ts : Int) :
    (nowLocal zone ts).hour < 24 ∧ (nowLocal zone ts).minute < 60 ∧ (nowLocal zone ts).dow < 7 := by
  simp only [nowLocal]
  omega

end OpenU60.Scheduler
