/-
  OpenU60.Scheduler.Recurring — a recurring job over a run of ticks, one in each
  wall-clock minute, with no edits.

  - `runs_on_time_iff`: the action runs exactly once in each minute of its time and days,
    and in no other, if and only if its time is spelled with two digits each (or never
    comes) and each time it comes is more than a minute after the run before it.
  - `spaced_of_quarters`: where the zone is whole quarters of an hour from UTC, only the
    first of them can be too close, to a run recorded before.
  - `unpadded_time_never_runs`: `validate_job` accepts "7:05", which no tick writes.
-/

import OpenU60.Lib.Machine
import OpenU60.Scheduler.Tick

namespace OpenU60.Scheduler

open OpenU60.Lib OpenU60.Lib.Machine OpenU60.Lib.FirstMatch

structure Tick where
  ts : Int
  answer : PendingAction → Response

structure Ran where
  ts : Int
  action : PendingAction
  deriving DecidableEq

/-- The jobs, and the actions executed so far. -/
structure Run where
  jobs : List Job
  ran : List Ran

namespace Run

def tick (zone : Int → Int) (s : Run) (t : Tick) : Run where
  jobs := Scheduler.tick (nowLocal zone t.ts) t.answer s.jobs
  ran := s.ran ++ (executed (nowLocal zone t.ts) s.jobs).map (⟨t.ts, ·⟩)

/-- How often a job's action was executed in a minute. -/
def runsIn (s : Run) (id : UInt32) (minute : Int) : Nat :=
  s.ran.countP fun r => (r.action.jobId == id && !r.action.isRestore) && r.ts / 60 == minute

end Run

/-- Exactly one tick in each minute, from `first` on. -/
def Minutely : Int → List Tick → Prop
  | _, [] => True
  | first, t :: ts => t.ts / 60 = first ∧ Minutely (first + 1) ts

/-- The minute is one of an hour and minute on some days. -/
def due (zone : Int → Int) (h m : Nat) (days : List Nat) (minute : Int) : Bool :=
  let now := nowLocal zone (60 * minute)
  now.hour == h && now.minute == m && days.contains now.dow

def OnTime (zone : Int → Int) (h m : Nat) (days : List Nat) (id : UInt32) (ticks : List Tick) (s : Run) : Prop :=
  ∀ minute, s.runsIn id minute = (ticks.any (·.ts / 60 == minute) && due zone h m days minute).toNat

/-- Each time is more than a minute after the one before. -/
def Spaced : Option Int → List Int → Prop
  | _, [] => True
  | last, ts :: rest => guard ts last ∧ Spaced (some ts) rest

def dueTimes (zone : Int → Int) (h m : Nat) (days : List Nat) (ticks : List Tick) : List Int :=
  (ticks.filter fun t => due zone h m days (t.ts / 60)).map (·.ts)

/-! ## One job -/

structure Job.Recurs (job : Job) (time : String) (days : List Nat) : Prop where
  enabled : job.enabled
  schedule : job.schedule = .recurring time days
  method : (parseMethod job.action.method).isSome

theorem validateJob_method {action : Action} {schedule : Schedule} {restore : Option Restore}
    (h : validateJob action schedule restore = .ok ()) : (parseMethod action.method).isSome := by
  by_contra hn
  have hm : parseMethod action.method = none := by simpa using hn
  simp only [validateJob, validateAction, hm, if_true] at h
  repeat' split at h
  all_goals cases h

variable {days : List Nat}

/-- What a tick leaves of a recurring job. -/
theorem Job.Recurs.tick {job : Job} {time : String} (h : job.Recurs time days) (now : Now)
    (answer : PendingAction → Response) :
    (job.tick now answer).Recurs time days ∧ (job.tick now answer).id = job.id ∧
      (job.tick now answer).lastRun = if job.runsNow now then some now.ts else job.lastRun := by
  have hone : job.schedule.isOnce = false := by rw [h.schedule]; rfl
  obtain ⟨hid, hsched, haction, -, hlast, -, hen⟩ := tick_fields h.method now answer
  refine ⟨⟨by simp [hen, h.enabled, hone], hsched.trans h.schedule, haction ▸ h.method⟩, hid, ?_⟩
  rw [hlast, h.enabled, Bool.true_and]

/-! ## A run -/

/-- How often the action runs in a minute, read off the job alone. -/
def hits (zone : Int → Int) : Job → List Tick → Int → Nat
  | _, [], _ => 0
  | job, t :: ts, minute =>
    (job.runsNow (nowLocal zone t.ts) && t.ts / 60 == minute).toNat +
      hits zone (job.tick (nowLocal zone t.ts) t.answer) ts minute

theorem distinct_tick {jobs : List Job} (hd : Distinct jobs) (now : Now) (answer : PendingAction → Response) :
    Distinct (Scheduler.tick now answer jobs) := by
  rw [Distinct, Scheduler.tick, map_id_record]
  exact hd

variable {zone : Int → Int}

theorem runsIn_exec {time : String} (ticks : List Tick) (minute : Int) :
    ∀ (s : Run) (job : Job), Distinct s.jobs → job ∈ s.jobs → job.Recurs time days →
      (exec (Run.tick zone) s ticks).runsIn job.id minute = s.runsIn job.id minute + hits zone job ticks minute := by
  induction ticks with
  | nil => intro s job _ _ _; simp [hits]
  | cons t ts ih =>
    intro s job hd hj h
    obtain ⟨hrec, hid, -⟩ := h.tick (nowLocal zone t.ts) t.answer
    have hmem : job.tick (nowLocal zone t.ts) t.answer ∈ (s.tick zone t).jobs := by
      show _ ∈ Scheduler.tick _ _ s.jobs
      rw [tick_eq_map hd]
      exact List.mem_map_of_mem hj
    have hone : (s.tick zone t).runsIn job.id minute =
        s.runsIn job.id minute + (job.runsNow (nowLocal zone t.ts) && t.ts / 60 == minute).toNat := by
      simp only [Run.tick, Run.runsIn, List.countP_append, List.countP_map, Nat.add_left_cancel_iff]
      cases hm : t.ts / 60 == minute with
      | true =>
        have hcount := (executed_of_job hd hj h.method (nowLocal zone t.ts)).1
        rw [h.enabled] at hcount
        simpa [hm, Function.comp_def] using hcount
      | false => simp [hm, Function.comp_def]
    rw [exec_cons, ← hid, ih _ _ (distinct_tick hd _ _) hmem hrec, hid, hone, hits, Nat.add_assoc]

variable {ticks : List Tick}

theorem Minutely.ge {first : Int} (h : Minutely first ticks) {t : Tick} (ht : t ∈ ticks) :
    first ≤ t.ts / 60 := by
  induction ticks generalizing first with
  | nil => cases ht
  | cons u us ih =>
    rcases List.mem_cons.mp ht with rfl | ht
    · exact le_of_eq h.1.symm
    · have := ih h.2 ht
      omega

theorem hits_before {minute : Int} (job : Job)
    (h : ∀ t ∈ ticks, t.ts / 60 ≠ minute) : hits zone job ticks minute = 0 := by
  induction ticks generalizing job with
  | nil => rfl
  | cons t ts ih =>
    have hne := h t (List.mem_cons_self ..)
    rw [hits, ih _ fun u hu => h u (List.mem_cons_of_mem _ hu)]
    simp [hne]

/-- At every tick the job runs if and only if its time has come. -/
def Fires (zone : Int → Int) (h m : Nat) (days : List Nat) : Job → List Tick → Prop
  | _, [] => True
  | job, t :: ts =>
    job.runsNow (nowLocal zone t.ts) = due zone h m days (t.ts / 60) ∧
      Fires zone h m days (job.tick (nowLocal zone t.ts) t.answer) ts

theorem bool_eq_of_toNat {a b : Bool} (h : a.toNat = b.toNat) : a = b := by
  cases a <;> cases b <;> first | rfl | cases h

variable {h m : Nat}

/-- With one tick a minute, counting by minutes and by ticks is the same. -/
theorem hits_iff_fires :
    ∀ {first : Int} (job : Job), Minutely first ticks →
      ((∀ minute, hits zone job ticks minute =
          (ticks.any (·.ts / 60 == minute) && due zone h m days minute).toNat) ↔
        Fires zone h m days job ticks) := by
  induction ticks with
  | nil => intro first job _; simp [hits, Fires]
  | cons t ts ih =>
    intro first job hrun
    have hlater : ∀ u ∈ ts, u.ts / 60 ≠ t.ts / 60 := by
      intro u hu
      have := hrun.2.ge hu
      have := hrun.1
      omega
    have hnone : ts.any (fun u => u.ts / 60 == t.ts / 60) = false := by
      simpa using hlater
    simp only [Fires, hits, List.any_cons]
    constructor
    · intro hall
      have hhere := hall (t.ts / 60)
      rw [hits_before _ hlater] at hhere
      refine ⟨bool_eq_of_toNat (by simpa using hhere), (ih _ hrun.2).mp fun minute => ?_⟩
      cases hm : t.ts / 60 == minute with
      | true =>
        rw [← eq_of_beq hm]
        simp [hits_before _ hlater, hnone]
      | false => simpa [hm] using hall minute
    · rintro ⟨hhere, hrest⟩ minute
      have hrest := (ih _ hrun.2).mpr hrest minute
      cases hm : t.ts / 60 == minute with
      | true =>
        rw [← eq_of_beq hm, hits_before _ hlater, hhere]
        simp
      | false => simpa [hm] using hrest

/-! ## When it fires -/

theorem nowLocal_minute (zone : Int → Int) (ts : Int) :
    (nowLocal zone (60 * (ts / 60))).hour = (nowLocal zone ts).hour ∧
      (nowLocal zone (60 * (ts / 60))).minute = (nowLocal zone ts).minute ∧
      (nowLocal zone (60 * (ts / 60))).dow = (nowLocal zone ts).dow := by
  have hm : 60 * (ts / 60) / 60 = ts / 60 := by omega
  simp only [nowLocal, hm, and_self]

theorem Job.Recurs.runsNow {job : Job} {time : String} (hr : job.Recurs time days)
    (ht : hourMinute time = some (h, m)) (zone : Int → Int) (ts : Int) :
    job.runsNow (nowLocal zone ts) =
      (due zone h m days (ts / 60) && (decide (time = hm h m) && guard ts job.lastRun)) := by
  obtain ⟨hh, hmin, -⟩ := nowLocal_bounds zone ts
  obtain ⟨h1, h2, h3⟩ := nowLocal_minute zone ts
  have hhour : (nowLocal zone ts).hour < 100 := by omega
  have hminute : (nowLocal zone ts).minute < 100 := by omega
  have heq := time_eq_hm ht hhour hminute
  simp only [Job.runsNow, hr.schedule, due, h1, h2, h3]
  rw [Bool.eq_iff_iff]
  simp only [Bool.and_eq_true, beq_iff_eq, decide_eq_true_eq, heq]
  tauto

theorem fires_iff {time : String}
    (ht : hourMinute time = some (h, m)) :
    ∀ (job : Job), job.Recurs time days →
      (Fires zone h m days job ticks ↔
        (dueTimes zone h m days ticks = [] ∨ time = hm h m) ∧ Spaced job.lastRun (dueTimes zone h m days ticks)) := by
  induction ticks with
  | nil => intro job _; simp [Fires, dueTimes, Spaced]
  | cons t ts ih =>
    intro job hr
    obtain ⟨hrec, -, hlast⟩ := hr.tick (nowLocal zone t.ts) t.answer
    simp only [Fires, ih _ hrec, hlast, hr.runsNow ht zone t.ts]
    cases hd : due zone h m days (t.ts / 60) with
    | false => simp [dueTimes, hd]
    | true =>
      have hts : (nowLocal zone t.ts).ts = t.ts := rfl
      by_cases hp : time = hm h m <;> by_cases hg : guard t.ts job.lastRun <;>
        simp [dueTimes, hd, Spaced, hp, hg, hts]

/-- When a recurring job runs on time. -/
theorem runs_on_time_iff {zone : Int → Int} {jobs : List Job} {job : Job} {time : String} {days : List Nat} {h m : Nat}
    {first : Int} {ticks : List Tick} (hd : Distinct jobs) (hj : job ∈ jobs) (he : job.enabled)
    (hs : job.schedule = .recurring time days) (hv : validateJob job.action job.schedule job.restore = .ok ())
    (ht : hourMinute time = some (h, m)) (hrun : Minutely first ticks) :
    OnTime zone h m days job.id ticks (exec (Run.tick zone) ⟨jobs, []⟩ ticks) ↔
      (dueTimes zone h m days ticks = [] ∨ time = hm h m) ∧ Spaced job.lastRun (dueTimes zone h m days ticks) := by
  have hr : job.Recurs time days := ⟨he, hs, validateJob_method hv⟩
  rw [← fires_iff ht job hr, ← hits_iff_fires job hrun]
  refine forall_congr' fun minute => ?_
  rw [runsIn_exec ticks minute ⟨jobs, []⟩ job hd hj hr]
  simp [Run.runsIn]

/-! ## How far apart they are -/

/-- Two minutes in a row are never both the time of a job. -/
theorem due_apart (hz : ∀ minute, zone minute % 15 = 0) {minute : Int}
    (hd : due zone h m days minute) : due zone h m days (minute + 1) = false := by
  have hm : 60 * minute / 60 = minute := by omega
  have hm1 : 60 * (minute + 1) / 60 = minute + 1 := by omega
  have h0 := hz minute
  have h1 := hz (minute + 1)
  by_contra hn
  rw [Bool.not_eq_false] at hn
  simp only [due, nowLocal, hm, hm1, Bool.and_eq_true, beq_iff_eq] at hd hn
  omega

theorem spaced_of_quarters (hz : ∀ minute, zone minute % 15 = 0) : ∀ {first last : Int}, Minutely first ticks → last / 60 < first →
      due zone h m days (last / 60) → Spaced (some last) (dueTimes zone h m days ticks) := by
  induction ticks with
  | nil => intro _ _ _ _ _; trivial
  | cons t ts ih =>
    intro first last hrun hlt hlast
    cases hd : due zone h m days (t.ts / 60) with
    | false =>
      have hrest := ih hrun.2 (by omega) hlast
      simpa [dueTimes, hd] using hrest
    | true =>
      have hne : t.ts / 60 ≠ last / 60 + 1 := by
        intro e
        rw [e, due_apart hz hlast] at hd
        cases hd
      have hfirst := hrun.1
      have hlater : t.ts / 60 < first + 1 := by omega
      have hrest := ih hrun.2 hlater hd
      have hguard : guard t.ts (some last) := by
        simp only [guard, Option.all_some, decide_eq_true_eq]
        omega
      simpa [dueTimes, hd, Spaced, hguard] using hrest

theorem fresh_spaced (hz : ∀ minute, zone minute % 15 = 0) : ∀ {first : Int}, Minutely first ticks → Spaced none (dueTimes zone h m days ticks) := by
  induction ticks with
  | nil => intro _ _; trivial
  | cons t ts ih =>
    intro first hrun
    cases hd : due zone h m days (t.ts / 60) with
    | false =>
      have hrest := ih hrun.2
      simpa [dueTimes, hd] using hrest
    | true =>
      have hfirst := hrun.1
      have hlater : t.ts / 60 < first + 1 := by omega
      have hrest := spaced_of_quarters hz hrun.2 hlater hd
      simpa [dueTimes, hd, Spaced, guard] using hrest

section

/-- Reboot at 07:05 on Thursdays, spelled `time`. -/
def rebootAt (time : String) : Job where
  id := 1
  name := "Reboot"
  enabled := true
  schedule := .recurring time [3]
  action := ⟨"POST", "/api/device/reboot", none⟩
  restore := none
  lastRun := none
  lastStatus := none
  lastError := none
  lastRestore := none
  createdAt := 0
  serial := 0

/-- Ticks one second into each minute from 07:04 to 07:06, in a zone that is UTC. -/
def threeMinutes : List Tick :=
  [⟨7 * 3600 + 4 * 60 + 1, fun _ => ⟨200, none⟩⟩, ⟨7 * 3600 + 5 * 60 + 1, fun _ => ⟨200, none⟩⟩,
    ⟨7 * 3600 + 6 * 60 + 1, fun _ => ⟨200, none⟩⟩]

theorem padded_time_runs :
    OnTime (fun _ => 0) 7 5 [3] 1 threeMinutes (exec (Run.tick fun _ => 0) ⟨[rebootAt "07:05"], []⟩ threeMinutes) ∧
      dueTimes (fun _ => 0) 7 5 [3] threeMinutes = [7 * 3600 + 5 * 60 + 1] := by
  have hrun : Minutely (7 * 60 + 4) threeMinutes := ⟨by decide, by decide, by decide, trivial⟩
  have hdue : dueTimes (fun _ => 0) 7 5 [3] threeMinutes = [7 * 3600 + 5 * 60 + 1] := by decide
  have htime : hourMinute "07:05" = some (7, 5) := by decide
  have hdistinct : Distinct [rebootAt "07:05"] := List.nodup_singleton _
  have hjob : rebootAt "07:05" ∈ [rebootAt "07:05"] := List.mem_singleton_self _
  refine ⟨(runs_on_time_iff hdistinct hjob rfl rfl (by decide) htime hrun).mpr ⟨.inr (by decide), ?_⟩, hdue⟩
  rw [hdue]
  exact ⟨rfl, trivial⟩

/-- "7:05" is accepted, and the job does not run at 07:05. -/
theorem unpadded_time_never_runs :
    validateJob (rebootAt "7:05").action (rebootAt "7:05").schedule none = .ok () ∧ hourMinute "7:05" = some (7, 5) ∧
      due (fun _ => 0) 7 5 [3] (7 * 60 + 5) ∧
      (exec (Run.tick fun _ => 0) ⟨[rebootAt "7:05"], []⟩ threeMinutes).ran = [] ∧
      ¬ OnTime (fun _ => 0) 7 5 [3] 1 threeMinutes
        (exec (Run.tick fun _ => 0) ⟨[rebootAt "7:05"], []⟩ threeMinutes) := by
  have hran : (exec (Run.tick fun _ => 0) ⟨[rebootAt "7:05"], []⟩ threeMinutes).ran = [] := by decide
  refine ⟨by decide, by decide, by decide, hran, fun h => ?_⟩
  have h5 := h (7 * 60 + 5)
  rw [Run.runsIn, hran] at h5
  exact absurd h5 (by decide)

end

end OpenU60.Scheduler
