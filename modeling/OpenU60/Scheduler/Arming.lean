/-
  OpenU60.Scheduler.Arming — one-shot jobs over any run of ticks and requests with a clock
  that does not go back.

  A `Once` job is armed when it is created, and when an update leaves it enabled with a
  new time in the future. What an arming is owed is kept beside the jobs: has its action
  run, has its restore run. The scheduler infers the same from `last_run` and
  `last_restore`.
  - `armings_served`: in every run that is `fair` each arming's action runs once, at the
    first tick at or after its time while the job is enabled; then its restore, once; and
    the job is then disabled.
  - `rearmed_job_never_runs`: an update does not reset `last_run`, so a job that has run
    before and is given a new time never runs again.
-/

import OpenU60.Lib.Machine
import OpenU60.Scheduler.Recurring

namespace OpenU60.Scheduler

open OpenU60.Lib OpenU60.Lib.Machine OpenU60.Lib.FirstMatch

structure Arming where
  ran : Bool
  restored : Bool
  deriving DecidableEq

structure Sched where
  jobs : List Job
  clock : Int
  /-- Ghost: what the current arming of a job has had. -/
  armed : UInt32 → Option Arming
  /-- Ghost: the number of jobs made. -/
  serial : Nat

inductive Event where
  | tick (t : Tick)
  | request (ts : Int) (req : Request)

def Event.ts : Event → Int
  | tick t => t.ts
  | request ts _ => ts

def Schedule.isAfter (now : Int) : Schedule → Bool
  | once ts => now < ts
  | recurring _ _ => false

namespace Sched

def rearm (s : Sched) (now : Int) (req : Request) (reply : Reply) : UInt32 → Option Arming :=
  match req, reply.body with
  | .create _, .ok (.job new) =>
    Function.update s.armed new.id (if new.schedule.isOnce then some ⟨false, false⟩ else none)
  | .update _, .ok (.job new) =>
    if (s.jobs.find? (·.id == new.id)).any (·.schedule == new.schedule) then s.armed
    else Function.update s.armed new.id (if new.enabled && new.schedule.isAfter now then some ⟨false, false⟩ else none)
  | _, _ => s.armed

/-- The actions of a tick count for the armings. -/
def served (s : Sched) (now : Now) (id : UInt32) : Option Arming :=
  (s.armed id).map fun a =>
    ⟨a.ran || (executed now s.jobs).any (fun pa => pa.jobId == id && !pa.isRestore),
      a.restored || (executed now s.jobs).any (fun pa => pa.jobId == id && pa.isRestore)⟩

def step (zone : Int → Int) (s : Sched) : Event → Sched
  | .tick t =>
    let now := nowLocal zone t.ts
    { s with jobs := tick now t.answer s.jobs, clock := t.ts, armed := s.served now }
  | .request now req =>
    let r := handle s.serial now s.jobs req
    { jobs := r.1, clock := now, armed := s.rearm now req r.2, serial := s.serial + 1 }

/-- The action of an armed job runs once, when it is due; its restore once, at its time
    after that; and with nothing more to run the job is disabled. -/
def Serves (zone : Int → Int) (s : Sched) : Event → Prop
  | .tick t =>
    ∀ job ∈ s.jobs, ∀ a ts, s.armed job.id = some a → job.schedule = .once ts →
      let now := nowLocal zone t.ts
      let runs := job.enabled && (!a.ran && decide (ts ≤ t.ts))
      let restores := job.enabled && (a.ran && !a.restored &&
        job.restore.any fun r => hourMinute r.time == some (now.hour, now.minute))
      (executed now s.jobs).countP (fun pa => pa.jobId == job.id && !pa.isRestore) = runs.toNat ∧
        (executed now s.jobs).countP (fun pa => pa.jobId == job.id && pa.isRestore) = restores.toNat ∧
        ((runs && job.restore.isNone || restores) →
          ∀ job' ∈ (s.step zone (.tick t)).jobs, job'.id = job.id → job'.enabled = false)
  | _ => True

end Sched

/-- The spelling a tick compares with. -/
def padded (time : String) : Bool := (hourMinute time).any fun p => time == hm p.1 p.2

def Request.restore : Request → Option Restore
  | create (.ok req) => req.restore
  | update (.ok req) => req.restore
  | _ => none

namespace Sched

/-- A request arms a job that has run before. -/
def armsAgain (s : Sched) (now : Int) : Request → Bool
  | .update (.ok req) =>
    (s.jobs.find? (·.id == req.id)).any fun old =>
      old.schedule != req.schedule && req.enabled && req.schedule.isAfter now && old.lastRun.isSome
  | _ => false

/-- The clock does not go back, job ids do not run out, a restore's time is zero-padded,
    and no job that has run is armed again. -/
def fair (s : Sched) (e : Event) : Bool :=
  decide (s.clock ≤ e.ts) &&
    match e with
    | .tick _ => true
    | .request now req =>
      req.restore.all (padded ·.time) && !s.armsAgain now req &&
        match req with
        | .create _ => !(s.jobs.map (·.id)).contains (nextId s.jobs)
        | _ => true

/-- Jobs as a request accepts them; those armed have not run. -/
structure Start (s : Sched) : Prop where
  distinct : Distinct s.jobs
  valid : ∀ job ∈ s.jobs, validateJob job.action job.schedule job.restore = .ok () ∧ job.restore.all (padded ·.time) ∧
    (job.lastRun = none → job.lastRestore = none)
  armed : ∀ job ∈ s.jobs, ∀ a, s.armed job.id = some a → a = ⟨false, false⟩ ∧ job.schedule.isOnce ∧ job.lastRun = none

end Sched

/-! ## The invariant -/

/-- The fields of a job say what its arming has had. -/
structure Job.Agrees (clock : Int) (job : Job) (a : Arming) : Prop where
  once : job.schedule.isOnce
  ran : a.ran = job.lastRun.isSome
  order : a.restored → a.ran
  owed : a.restored = false → job.lastRestore = none
  done : a.restored → job.shouldRestore = false
  past : ∀ ts, job.lastRun = some ts → ts ≤ clock

/-- What `jobs_create` and `jobs_update` check, and what only ticks write. -/
structure Job.Sound (job : Job) : Prop where
  valid : validateJob job.action job.schedule job.restore = .ok ()
  padded : job.restore.all (padded ·.time)
  fresh : job.lastRun = none → job.lastRestore = none

structure Sched.Kept (s : Sched) : Prop where
  distinct : Distinct s.jobs
  sound : ∀ job ∈ s.jobs, job.Sound
  agrees : ∀ job ∈ s.jobs, ∀ a, s.armed job.id = some a → job.Agrees s.clock a

theorem Sched.Start.kept {s : Sched} (h : s.Start) : s.Kept := by
  refine ⟨h.distinct, fun job hj => ⟨(h.valid job hj).1, (h.valid job hj).2.1, (h.valid job hj).2.2⟩,
    fun job hj a ha => ?_⟩
  obtain ⟨rfl, honce, hrun⟩ := h.armed job hj a ha
  exact ⟨honce, by simp [hrun], by simp, fun _ => (h.valid job hj).2.2 hrun, by simp, by simp [hrun]⟩

theorem padded_iff {time : String} (hp : padded time) (zone : Int → Int) (ts : Int) :
    time = hm (nowLocal zone ts).hour (nowLocal zone ts).minute ↔
      hourMinute time = some ((nowLocal zone ts).hour, (nowLocal zone ts).minute) := by
  obtain ⟨hh, hmin, -⟩ := nowLocal_bounds zone ts
  unfold padded at hp
  cases ht : hourMinute time with
  | none => simp [ht] at hp
  | some p =>
    have hpad : time = hm p.1 p.2 := by simpa [ht] using hp
    rw [time_eq_hm ht (by omega) (by omega)]
    constructor
    · rintro ⟨-, h1, h2⟩
      rw [h1, h2]
    · intro h
      rw [Option.some.injEq] at h
      exact ⟨hpad, by rw [h], by rw [h]⟩

/-- When the scheduler runs an armed job and when it restores it. -/
theorem Job.Agrees.due {clock : Int} {job : Job} {a : Arming} (h : job.Agrees clock a) (hs : job.Sound) {at' : Int}
    (hsched : job.schedule = .once at') (zone : Int → Int) (ts : Int) :
    let now := nowLocal zone ts
    job.runsNow now = (!a.ran && decide (at' ≤ ts)) ∧
      job.restoresNow now = (a.ran && !a.restored &&
        job.restore.any fun r => hourMinute r.time == some (now.hour, now.minute)) := by
  refine ⟨?_, ?_⟩
  · simp only [Job.runsNow, hsched, h.ran]
    rw [Bool.and_comm]
    cases job.lastRun <;> rfl
  · unfold Job.restoresNow
    cases hr : job.restore with
    | none => simp
    | some r =>
      have hp : Scheduler.padded r.time := by simpa [hr] using hs.padded
      have htime : (r.time == hm (nowLocal zone ts).hour (nowLocal zone ts).minute) =
          (hourMinute r.time == some ((nowLocal zone ts).hour, (nowLocal zone ts).minute)) := by
        rw [Bool.eq_iff_iff, beq_iff_eq, beq_iff_eq]
        exact padded_iff hp zone ts
      simp only [Option.any_some, htime]
      cases hrest : a.restored with
      | true => simp [h.done hrest]
      | false =>
        have hnone := h.owed hrest
        have hshould : job.shouldRestore = a.ran := by
          rw [h.ran]
          cases hl : job.lastRun <;> simp [Job.shouldRestore, hl, hnone]
        simp only [hshould, hnone, guard, Option.all_none, Bool.and_true, Bool.not_false]
        exact Bool.and_comm _ _

theorem any_of_countP {α : Type} {l : List α} {p : α → Bool} {b : Bool} (h : l.countP p = b.toNat) : l.any p = b := by
  rw [Bool.eq_iff_iff, List.any_eq_true, ← List.countP_pos_iff, h]
  cases b <;> simp

theorem Job.Sound.method {job : Job} (h : job.Sound) : (parseMethod job.action.method).isSome := validateJob_method h.valid

/-! ## Ticks -/

theorem Job.Sound.tick {job : Job} (h : job.Sound) (now : Now) (answer : PendingAction → Response) :
    (job.tick now answer).Sound := by
  obtain ⟨-, hsched, haction, hrest, hlast, hlastr, -⟩ := tick_fields h.method now answer
  refine ⟨by rw [haction, hsched, hrest]; exact h.valid, by rw [hrest]; exact h.padded, fun hn => ?_⟩
  rw [hlast] at hn
  rw [hlastr]
  split at hn
  · cases hn
  · have hshould : job.shouldRestore = false := by simp [Job.shouldRestore, hn]
    have hno : job.restoresNow now = false := by
      unfold Job.restoresNow
      cases job.restore <;> simp [hshould]
    simp [hno, h.fresh hn]

theorem Job.Agrees.tick {clock : Int} {job : Job} {a : Arming} (h : job.Agrees clock a) (hs : job.Sound) {at' : Int}
    (hsched : job.schedule = .once at') (zone : Int → Int) {ts : Int} (hts : clock ≤ ts) (answer : PendingAction → Response) :
    let now := nowLocal zone ts
    (job.tick now answer).Agrees ts
      ⟨a.ran || (job.enabled && job.runsNow now), a.restored || (job.enabled && job.restoresNow now)⟩ := by
  intro now
  obtain ⟨hruns, hrestores⟩ := h.due hs hsched zone ts
  obtain ⟨-, hsched', -, -, hlast, hlastr, -⟩ := tick_fields hs.method now answer
  have hnow : now.ts = ts := rfl
  change job.runsNow now = _ at hruns
  change job.restoresNow now = _ at hrestores
  by_cases hr : (job.enabled && job.runsNow now) = true
  · -- the action runs: it had not, and so there is nothing restored
    have hnot : a.ran = false := by
      simp only [hruns, Bool.and_eq_true, Bool.not_eq_true'] at hr
      exact hr.2.1
    have hres : a.restored = false := by
      cases hre : a.restored with
      | false => rfl
      | true => simp [h.order hre] at hnot
    have hno : (job.enabled && job.restoresNow now) = false := by simp [hrestores, hnot]
    simp only [hr, hno, if_true, Bool.false_eq_true, if_false] at hlast hlastr
    refine ⟨by rw [hsched']; exact h.once, by simp [hr, hlast], by simp [hr], fun _ => by rw [hlastr]; exact h.owed hres,
      by simp [hres, hno], fun t ht => ?_⟩
    rw [hlast, Option.some.injEq, hnow] at ht
    exact le_of_eq ht.symm
  · rw [Bool.not_eq_true] at hr
    simp only [hr, Bool.false_eq_true, if_false, Bool.or_false] at hlast ⊢
    have hpast : ∀ t, (job.tick now answer).lastRun = some t → t ≤ ts := fun t ht =>
      le_trans (h.past t (by rw [← hlast]; exact ht)) hts
    by_cases hre : (job.enabled && job.restoresNow now) = true
    · have hran : a.ran := by
        simp only [hrestores, Bool.and_eq_true] at hre
        exact hre.2.1.1
      simp only [hre, if_true, Bool.or_true] at hlastr ⊢
      refine ⟨by rw [hsched']; exact h.once, by rw [hlast]; exact h.ran, fun _ => hran, by simp, fun _ => ?_, hpast⟩
      cases hl : (job.tick now answer).lastRun with
      | none => simp [Job.shouldRestore, hl]
      | some lr =>
        have hle := hpast lr hl
        simp only [Job.shouldRestore, hl, hlastr, hnow, decide_eq_false_iff_not, not_lt]
        exact hle
    · rw [Bool.not_eq_true] at hre
      simp only [hre, Bool.false_eq_true, if_false, Bool.or_false] at hlastr ⊢
      refine ⟨by rw [hsched']; exact h.once, by rw [hlast]; exact h.ran, h.order, fun h0 => by rw [hlastr]; exact h.owed h0,
        fun h0 => ?_, hpast⟩
      have hd := h.done h0
      simpa only [Job.shouldRestore, hlast, hlastr] using hd

namespace Sched

variable {s : Sched} {zone : Int → Int}

theorem Kept.tick (h : s.Kept) {t : Tick} (hts : s.clock ≤ t.ts) :
    (s.step zone (.tick t)).Kept := by
  have hjobs : (s.step zone (.tick t)).jobs = s.jobs.map (·.tick (nowLocal zone t.ts) t.answer) :=
    tick_eq_map h.distinct _ _
  refine ⟨distinct_tick h.distinct _ _, fun job hj => ?_, fun job hj a ha => ?_⟩
  · rw [hjobs] at hj
    obtain ⟨old, ho, rfl⟩ := List.mem_map.mp hj
    exact (h.sound old ho).tick _ _
  · rw [hjobs] at hj
    obtain ⟨old, ho, rfl⟩ := List.mem_map.mp hj
    have hso := h.sound old ho
    obtain ⟨hid, -⟩ := tick_fields hso.method (nowLocal zone t.ts) t.answer
    simp only [step, served, hid] at ha
    obtain ⟨a₀, ha₀, rfl⟩ := Option.map_eq_some_iff.mp ha
    obtain ⟨hc1, hc2⟩ := executed_of_job h.distinct ho hso.method (nowLocal zone t.ts)
    rw [any_of_countP hc1, any_of_countP hc2]
    have hag := h.agrees old ho a₀ ha₀
    cases hsched : old.schedule with
    | recurring time days => exact absurd hag.once (by simp [hsched, Schedule.isOnce])
    | once ts => exact hag.tick hso hsched zone hts t.answer

/-- What an invariant state's tick does for the armings. -/
theorem Kept.serves (h : s.Kept) (e : Event) : s.Serves zone e := by
  cases e with
  | request now req => trivial
  | tick t =>
    intro job hj a ts ha hsched
    have hso := h.sound job hj
    obtain ⟨hruns, hrestores⟩ := (h.agrees job hj a ha).due hso hsched zone t.ts
    obtain ⟨hc1, hc2⟩ := executed_of_job h.distinct hj hso.method (nowLocal zone t.ts)
    refine ⟨by rw [hc1, hruns], by rw [hc2, hrestores], fun hover job' hj' hid' => ?_⟩
    have hjobs : (s.step zone (.tick t)).jobs = s.jobs.map (·.tick (nowLocal zone t.ts) t.answer) :=
      tick_eq_map h.distinct _ _
    rw [hjobs] at hj'
    obtain ⟨old, ho, rfl⟩ := List.mem_map.mp hj'
    obtain ⟨hid, -, -, -, -, -, hen⟩ := tick_fields (h.sound old ho).method (nowLocal zone t.ts) t.answer
    obtain rfl : old = job := List.inj_on_of_nodup_map h.distinct ho hj (hid.symm.trans hid')
    rw [hen, hruns, hrestores, hsched]
    simp only [Schedule.isOnce, Bool.true_and]
    rw [Bool.and_eq_false_iff]
    right
    rw [Bool.not_eq_false']
    exact hover

/-! ## Requests -/

theorem Kept.unchanged (h : s.Kept) {now : Int} (hts : s.clock ≤ now) (serial : Nat) :
    Kept ⟨s.jobs, now, s.armed, serial⟩ :=
  ⟨h.distinct, h.sound, fun job hj a ha =>
    let hag := h.agrees job hj a ha
    ⟨hag.once, hag.ran, hag.order, hag.owed, hag.done, fun t ht => le_trans (hag.past t ht) hts⟩⟩

/-- An edit of one job that leaves what ticks write. -/
theorem Kept.edited (h : s.Kept) {now : Int} (hts : s.clock ≤ now) {id : UInt32} {old : Job}
    (hfind : s.jobs.find? (·.id == id) = some old) {edit : Job → Job} {armed : UInt32 → Option Arming} (serial : Nat)
    (hid : ∀ j, (edit j).id = j.id) (hso : (edit old).Sound)
    (hother : ∀ k, k ≠ id → armed k = s.armed k)
    (hag : ∀ a, armed id = some a → (edit old).Agrees now a) :
    Kept ⟨updateFirst (·.id == id) edit s.jobs, now, armed, serial⟩ := by
  have hold : old.id = id := by simpa using List.find?_some hfind
  have hmem : ∀ job ∈ updateFirst (·.id == id) edit s.jobs, job = edit old ∨ job ∈ s.jobs ∧ job.id ≠ id := by
    intro job hj
    rw [updateFirst_eq_map h.distinct] at hj
    obtain ⟨j, hj', rfl⟩ := List.mem_map.mp hj
    by_cases he : j.id = id
    · rw [if_pos he]
      left
      rw [List.inj_on_of_nodup_map h.distinct hj' (List.mem_of_find?_eq_some hfind) (he.trans hold.symm)]
    · rw [if_neg he]
      exact .inr ⟨hj', he⟩
  refine ⟨?_, fun job hj => ?_, fun job hj a ha => ?_⟩
  · show ((updateFirst (·.id == id) edit s.jobs).map (·.id)).Nodup
    rw [map_updateFirst fun j _ => hid j]
    exact h.distinct
  · rcases hmem job hj with rfl | ⟨hj, -⟩
    · exact hso
    · exact h.sound job hj
  · rcases hmem job hj with rfl | ⟨hj, hne⟩
    · rw [hid, hold] at ha
      exact hag a ha
    · exact (h.unchanged hts serial).agrees job hj a (by rw [← hother _ hne]; exact ha)

theorem Kept.request (h : s.Kept) {now : Int} {req : Request}
    (hf : s.fair (.request now req)) : (s.step zone (.request now req)).Kept := by
  unfold fair at hf
  rw [Bool.and_eq_true] at hf
  obtain ⟨hts, hf⟩ := hf
  replace hts : s.clock ≤ now := of_decide_eq_true hts
  rw [Bool.and_eq_true, Bool.and_eq_true, Bool.not_eq_true'] at hf
  obtain ⟨⟨hpad, hagain⟩, hnew⟩ := hf
  cases req with
  | create body =>
    cases body with
    | error e => exact h.unchanged hts _
    | ok req =>
      simp only [step, handle, jobsCreate]
      cases hv : validateJob req.action req.schedule req.restore with
      | error e => exact h.unchanged hts _
      | ok u =>
        simp only [Bool.not_eq_true', List.contains_eq_mem, decide_eq_false_iff_not] at hnew
        refine ⟨?_, fun job hj => ?_, fun job hj a ha => ?_⟩
        · simp only [Distinct, List.map_append, List.map_cons, List.map_nil]
          exact List.Nodup.append h.distinct (List.nodup_singleton _) (by simpa using hnew)
        · rcases List.mem_append.mp hj with hj | hj
          · exact h.sound job hj
          · rw [List.mem_singleton.mp hj]
            exact ⟨hv, hpad, fun _ => rfl⟩
        · rcases List.mem_append.mp hj with hj | hj
          · have hne : job.id ≠ nextId s.jobs := fun e => hnew (e ▸ List.mem_map_of_mem hj)
            simp only [rearm, Function.update_of_ne hne] at ha
            exact (h.unchanged hts s.serial).agrees job hj a ha
          · rw [List.mem_singleton.mp hj] at ha ⊢
            simp only [rearm, Function.update_self] at ha
            split at ha
            · next honce =>
              obtain rfl := Option.some.inj ha
              exact ⟨honce, rfl, by simp, fun _ => rfl, by simp, by simp⟩
            · cases ha
  | update body =>
    cases body with
    | error e => exact h.unchanged hts _
    | ok req =>
      simp only [step, handle, jobsUpdate]
      cases hv : validateJob req.action req.schedule req.restore with
      | error e => exact h.unchanged hts _
      | ok u =>
        simp only [editJob]
        cases hfind : s.jobs.find? (·.id == req.id) with
        | none => exact h.unchanged hts _
        | some old =>
          have hold : old.id = req.id := by simpa using List.find?_some hfind
          have hmem := List.mem_of_find?_eq_some hfind
          have hso : (Job.edit req old).Sound := ⟨hv, hpad, (h.sound old hmem).fresh⟩
          refine h.edited hts hfind _ (fun _ => rfl) hso (fun k hk => ?_) fun a ha => ?_
          · simp only [rearm]
            split
            · rfl
            · exact Function.update_of_ne (by rw [show (Job.edit req old).id = old.id from rfl, hold]; exact hk) ..
          · simp only [rearm, show (Job.edit req old).id = req.id from hold, hfind, Option.any_some] at ha
            by_cases hsame : old.schedule = req.schedule
            · -- the same schedule: the same arming
              rw [if_pos (by simpa [Job.edit] using hsame)] at ha
              have hag := h.agrees old hmem a (by rw [hold]; exact ha)
              have honce : req.schedule.isOnce := hsame ▸ hag.once
              exact ⟨honce, hag.ran, hag.order, hag.owed, hag.done, fun t ht => le_trans (hag.past t ht) hts⟩
            · rw [if_neg (by simpa [Job.edit] using hsame), Function.update_self] at ha
              split at ha
              · next harm =>
                obtain rfl := Option.some.inj ha
                have harm' : req.enabled = true ∧ req.schedule.isAfter now = true := by simpa [Job.edit] using harm
                have hnot : old.lastRun = none := by
                  simpa [armsAgain, hfind, hsame, harm'.1, harm'.2] using hagain
                have honce : req.schedule.isOnce := by
                  cases hsc : req.schedule with
                  | once ts => rfl
                  | recurring time days => simp [hsc, Schedule.isAfter] at harm'
                exact ⟨honce, by simp [Job.edit, hnot], by simp, fun _ => (h.sound old hmem).fresh hnot, by simp,
                  fun t ht => by simp [Job.edit, hnot] at ht⟩
              · cases ha
  | delete body =>
    simp only [step, handle, jobsDelete, rearm]
    split
    · exact h.unchanged hts _
    · split
      · exact h.unchanged hts _
      · split
        · exact h.unchanged hts _
        · have hk := h.unchanged hts (s.serial + 1)
          exact ⟨h.distinct.sublist (List.filter_sublist.map _), fun job hj => hk.sound job (List.mem_of_mem_filter hj),
            fun job hj a ha => hk.agrees job (List.mem_of_mem_filter hj) a ha⟩
  | toggle body =>
    simp only [step, handle, jobsToggle, rearm]
    split
    · exact h.unchanged hts _
    · split
      · exact h.unchanged hts _
      · split
        · exact h.unchanged hts _
        · next id _ _ enabled _ =>
          simp only [editJob]
          cases hfind : s.jobs.find? (·.id == UInt32.ofNat id) with
          | none => exact h.unchanged hts _
          | some old =>
            have hold : old.id = UInt32.ofNat id := by simpa using List.find?_some hfind
            have hmem := List.mem_of_find?_eq_some hfind
            have hso := h.sound old hmem
            refine h.edited hts hfind _ (fun _ => rfl) ⟨hso.valid, hso.padded, hso.fresh⟩ (fun _ _ => rfl) fun a ha => ?_
            have hag := h.agrees old hmem a (by rw [hold]; exact ha)
            exact ⟨hag.once, hag.ran, hag.order, hag.owed, hag.done, fun t ht => le_trans (hag.past t ht) hts⟩

theorem Kept.step (h : s.Kept) {e : Event} (hf : s.fair e) : (s.step zone e).Kept := by
  cases e with
  | tick t =>
    unfold fair at hf
    rw [Bool.and_eq_true] at hf
    exact h.tick (of_decide_eq_true hf.1)
  | request now req => exact h.request hf

/-- Every arming of a one-shot job is served: its action once, its restore once, and then
    the job is disabled. -/
theorem armings_served {zone : Int → Int} {s : Sched} {es : List Event} (hs : s.Start)
    (hf : Along (step zone) (fun s e => s.fair e) s es) : Along (step zone) (Serves zone) s es :=
  along_of_invariant (I := Kept) (fun _ _ h hf => h.step hf) (fun _ e h _ => h.serves e) hs.kept hf

section

def empty : Sched := ⟨[], 0, fun _ => none, 0⟩

def utc : Int → Int := fun _ => 0

/-- A tick one second into minute `n` after 22:14 on 14 November 2023. -/
def minuteTick (n : Nat) : Event := .tick ⟨1700000041 + 60 * n, fun _ => ⟨200, none⟩⟩

def wifiOff : Action := ⟨"PUT", "/api/wifi/guest", some "off"⟩

/-- Guest WiFi off at 22:15, and on again at 22:16. -/
def offAndOn : List Event :=
  [.request 1700000000 (.create (.ok ⟨"Guest", .once 1700000100, wifiOff, some ⟨"22:16", some "on"⟩⟩)),
    minuteTick 0, minuteTick 1, minuteTick 2, minuteTick 3]

theorem off_and_on_served :
    Along (step utc) (Serves utc) empty offAndOn ∧
      (exec (step utc) empty offAndOn).jobs.map (fun j => (j.enabled, j.lastRun, j.lastRestore)) =
        [(false, some 1700000101, some 1700000161)] := by
  have h : Along (step utc) (fun s e => s.fair e = true) empty offAndOn := by decide +kernel
  exact ⟨armings_served ⟨List.nodup_nil, by simp [empty], by simp [empty]⟩ h, by decide +kernel⟩

/-- A job runs at 22:15 and is then given 22:17. -/
def rearmed : List Event :=
  [.request 1700000000 (.create (.ok ⟨"Guest", .once 1700000100, wifiOff, none⟩)), minuteTick 1,
    .request 1700000110 (.update (.ok ⟨1, "Guest", true, .once 1700000220, wifiOff, none⟩))]

/-- The update is accepted, and nothing runs at 22:17. -/
theorem rearmed_job_never_runs :
    let s := exec (step utc) empty rearmed
    (s.jobs.map (fun j => (j.enabled, j.schedule, j.lastRun)) = [(true, .once 1700000220, some 1700000101)] ∧
      s.armed 1 = some ⟨false, false⟩) ∧ ¬ s.Serves utc (minuteTick 3) := by
  intro s
  have h : s.jobs.map (fun j => (j.enabled, j.schedule, j.lastRun)) = [(true, .once 1700000220, some 1700000101)] ∧
      s.armed 1 = some ⟨false, false⟩ ∧ s.jobs.all (fun j => decide (j.id = 1)) = true ∧
      executed (nowLocal utc 1700000221) s.jobs = [] := by decide +kernel
  obtain ⟨hjobs, harmed, hid, hnone⟩ := h
  refine ⟨⟨hjobs, harmed⟩, fun hs => ?_⟩
  obtain ⟨job, hj, hfields⟩ : ∃ j ∈ s.jobs, (j.enabled, j.schedule, j.lastRun) = (true, .once 1700000220, some 1700000101) :=
    List.mem_map.mp (hjobs ▸ List.mem_singleton_self _)
  have h1 : job.id = 1 := by simpa using List.all_eq_true.mp hid job hj
  simp only [Prod.mk.injEq] at hfields
  have hcount := (hs job hj ⟨false, false⟩ 1700000220 (by rw [h1]; exact harmed) hfields.2.1).1
  simp [hnone, hfields.1] at hcount

end

end Sched

end OpenU60.Scheduler
