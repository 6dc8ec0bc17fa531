/-
  OpenU60.Scheduler.Tick — the minute tick and the requests (`zte-agent/src/scheduler.rs`).

  A tick has three phases: `collect` under the lock, `execute` without it, `record` under
  it again. `tick` is the three with nothing in between. With distinct ids each job is on
  its own in a tick: `tick_eq_map` says what becomes of one.

  `server::route` is the environment's answer to an action. A reply is its status and
  `{"ok": true, "data": ..}` or `{"ok": false, "error": ..}`. The file `save` writes is
  left out: nothing reads it before the next start of the agent.
-/

import OpenU60.Lib.Json
import OpenU60.Scheduler.Job

namespace OpenU60.Scheduler

open OpenU60.Lib OpenU60.Lib.FirstMatch

structure PendingAction where
  jobId : UInt32
  method : String
  path : String
  body : String
  isRestore : Bool
  /-- Ghost: the serial of the job it was collected from. -/
  maker : Nat
  deriving DecidableEq

structure ExecResult where
  jobId : UInt32
  isRestore : Bool
  status : Nat
  error : Option String
  maker : Nat
  deriving DecidableEq

/-- A status and the answer's `error`, if that is a text. -/
structure Response where
  status : Nat
  error : Option String
  deriving DecidableEq

/-! ## A tick -/

def actionBody (body : Option String) : String := body.getD ""

/-- More than a minute after `last`, or never before. -/
def guard (ts : Int) (last : Option Int) : Bool := last.all (ts - · > 60)

namespace Job

def runsNow (now : Now) (job : Job) : Bool :=
  match job.schedule with
  | .recurring time days => time == hm now.hour now.minute && days.contains now.dow && guard now.ts job.lastRun
  | .once ts => decide (ts ≤ now.ts) && job.lastRun.isNone

def shouldRestore (job : Job) : Bool :=
  match job.lastRun, job.lastRestore with
  | some lr, some lrest => lr > lrest
  | some _, none => true
  | none, _ => false

def restoresNow (now : Now) (job : Job) : Bool :=
  job.restore.any fun r => r.time == hm now.hour now.minute && job.shouldRestore && guard now.ts job.lastRestore

def pendingRun (job : Job) : PendingAction :=
  ⟨job.id, job.action.method, job.action.path, actionBody job.action.body, false, job.serial⟩

def pendingRestore (job : Job) : PendingAction :=
  ⟨job.id, job.action.method, job.action.path, actionBody (job.restore.bind (·.body)), true, job.serial⟩

def collect (now : Now) (job : Job) : List PendingAction :=
  if job.enabled then
    (if job.runsNow now then [job.pendingRun] else []) ++ if job.restoresNow now then [job.pendingRestore] else []
  else []

/-- What the record of a result does to the job it is found for. -/
def mark (ts : Int) (r : ExecResult) (job : Job) : Job :=
  if r.isRestore then { job with lastRestore := some ts, enabled := job.enabled && !job.schedule.isOnce }
  else
    { job with
      lastRun := some ts
      lastStatus := some r.status
      lastError := r.error
      enabled := job.enabled && !(job.schedule.isOnce && job.restore.isNone) }

end Job

def collect (now : Now) (jobs : List Job) : List PendingAction := jobs.flatMap (·.collect now)

def execute (answer : PendingAction → Response) (pa : PendingAction) : Option ExecResult :=
  (parseMethod pa.method).map fun _ =>
    let r := answer pa
    ⟨pa.jobId, pa.isRestore, r.status, if r.status ≥ 400 then r.error else none, pa.maker⟩

def recordOne (ts : Int) (jobs : List Job) (r : ExecResult) : List Job := updateFirst (·.id == r.jobId) (Job.mark ts r) jobs

def record (ts : Int) (jobs : List Job) (results : List ExecResult) : List Job := results.foldl (recordOne ts) jobs

def tick (now : Now) (answer : PendingAction → Response) (jobs : List Job) : List Job :=
  record now.ts jobs ((collect now jobs).filterMap (execute answer))

/-- The actions a tick hands to the router. -/
def executed (now : Now) (jobs : List Job) : List PendingAction :=
  (collect now jobs).filter fun pa => (parseMethod pa.method).isSome

/-! ## The requests -/

structure CreateReq where
  name : String
  schedule : Schedule
  action : Action
  restore : Option Restore

structure UpdateReq where
  id : UInt32
  name : String
  enabled : Bool
  schedule : Schedule
  action : Action
  restore : Option Restore

inductive Data where
  | none
  | job (j : Job)
  deriving DecidableEq

structure Reply where
  status : Nat
  body : Except String Data
  deriving DecidableEq

/-- One more than the largest id, in 32 bits. -/
def nextId (jobs : List Job) : UInt32 := UInt32.ofNat ((jobs.map (·.id.toNat)).foldr max 0 + 1)

/-- `serial` is the ghost serial of the job to be made. -/
def jobsCreate (serial : Nat) (now : Int) (jobs : List Job) (body : Except String CreateReq) : List Job × Reply :=
  match body with
  | .error e => (jobs, ⟨400, .error ("invalid JSON: " ++ e)⟩)
  | .ok req =>
    match validateJob req.action req.schedule req.restore with
    | .error e => (jobs, ⟨400, .error e⟩)
    | .ok () =>
      let job : Job :=
        ⟨nextId jobs, req.name, true, req.schedule, req.action, req.restore, none, none, none, none, now, serial⟩
      (jobs ++ [job], ⟨201, .ok (.job job)⟩)

def Job.edit (req : UpdateReq) (job : Job) : Job :=
  { job with name := req.name, enabled := req.enabled, schedule := req.schedule, action := req.action, restore := req.restore }

/-- Edit the first job with this id, or answer 404. -/
def editJob (jobs : List Job) (id : UInt32) (edit : Job → Job) : List Job × Reply :=
  match jobs.find? (·.id == id) with
  | none => (jobs, ⟨404, .error "job not found"⟩)
  | some job => (updateFirst (·.id == id) edit jobs, ⟨200, .ok (.job (edit job))⟩)

def jobsUpdate (jobs : List Job) (body : Except String UpdateReq) : List Job × Reply :=
  match body with
  | .error e => (jobs, ⟨400, .error ("invalid JSON: " ++ e)⟩)
  | .ok req =>
    match validateJob req.action req.schedule req.restore with
    | .error e => (jobs, ⟨400, .error e⟩)
    | .ok () => editJob jobs req.id (Job.edit req)

def jobsDelete (jobs : List Job) (body : Option Json) : List Job × Reply :=
  match body with
  | none => (jobs, ⟨400, .error "invalid JSON"⟩)
  | some parsed =>
    match (parsed.get "id").asU64 with
    | none => (jobs, ⟨400, .error "missing 'id' field"⟩)
    | some id =>
      -- `id as u32`
      let id := UInt32.ofNat id
      let rest := jobs.filter (·.id != id)
      if rest.length = jobs.length then (jobs, ⟨404, .error "job not found"⟩) else (rest, ⟨200, .ok .none⟩)

def jobsToggle (jobs : List Job) (body : Option Json) : List Job × Reply :=
  match body with
  | none => (jobs, ⟨400, .error "invalid JSON"⟩)
  | some parsed =>
    match (parsed.get "id").asU64 with
    | none => (jobs, ⟨400, .error "missing 'id' field"⟩)
    | some id =>
      match (parsed.get "enabled").asBool with
      | none => (jobs, ⟨400, .error "missing 'enabled' field"⟩)
      | some enabled => editJob jobs (UInt32.ofNat id) fun job => { job with enabled := enabled }

inductive Request where
  | create (body : Except String CreateReq)
  | update (body : Except String UpdateReq)
  | delete (body : Option Json)
  | toggle (body : Option Json)

def handle (serial : Nat) (now : Int) (jobs : List Job) : Request → List Job × Reply
  | .create body => jobsCreate serial now jobs body
  | .update body => jobsUpdate jobs body
  | .delete body => jobsDelete jobs body
  | .toggle body => jobsToggle jobs body

/-! ## One job in a tick -/

/-- No two jobs have one id. -/
def Distinct (jobs : List Job) : Prop := (jobs.map (·.id)).Nodup

/-- A tick, for a job whose results are found for it. -/
def Job.tick (now : Now) (answer : PendingAction → Response) (job : Job) : Job :=
  ((job.collect now).filterMap (execute answer)).foldl (fun j r => j.mark now.ts r) job

@[simp] theorem mark_id (ts : Int) (r : ExecResult) (job : Job) : (job.mark ts r).id = job.id := by
  unfold Job.mark
  split <;> rfl

theorem collect_jobId {now : Now} {job : Job} {pa : PendingAction} (h : pa ∈ job.collect now) :
    pa.jobId = job.id ∧ pa.maker = job.serial ∧ pa.method = job.action.method := by
  unfold Job.collect at h
  split at h
  · rcases List.mem_append.mp h with h | h
    · split at h
      · rw [List.mem_singleton.mp h]
        exact ⟨rfl, rfl, rfl⟩
      · cases h
    · split at h
      · rw [List.mem_singleton.mp h]
        exact ⟨rfl, rfl, rfl⟩
      · cases h
  · cases h

theorem execute_fields {answer : PendingAction → Response} {pa : PendingAction} {r : ExecResult}
    (h : execute answer pa = some r) : r.jobId = pa.jobId ∧ r.isRestore = pa.isRestore ∧ r.maker = pa.maker := by
  unfold execute at h
  obtain ⟨m, -, rfl⟩ := Option.map_eq_some_iff.mp h
  exact ⟨rfl, rfl, rfl⟩

theorem map_id_recordOne (ts : Int) (jobs : List Job) (r : ExecResult) :
    (recordOne ts jobs r).map (·.id) = jobs.map (·.id) :=
  map_updateFirst (fun j _ => mark_id ts r j) jobs

theorem map_id_record (ts : Int) (results : List ExecResult) (jobs : List Job) :
    (record ts jobs results).map (·.id) = jobs.map (·.id) := by
  induction results generalizing jobs with
  | nil => rfl
  | cons r rs ih => exact (ih _).trans (map_id_recordOne ts jobs r)

/-- With distinct ids every job takes the results that carry its id. -/
theorem record_eq_map {jobs : List Job} (hd : Distinct jobs) (ts : Int) (results : List ExecResult) :
    record ts jobs results =
      jobs.map fun job => (results.filter (·.jobId == job.id)).foldl (fun j r => j.mark ts r) job := by
  induction results generalizing jobs with
  | nil => simp [record]
  | cons r rs ih =>
    have hd' : Distinct (recordOne ts jobs r) := by
      rw [Distinct, map_id_recordOne]
      exact hd
    show record ts (recordOne ts jobs r) rs = _
    rw [ih hd']
    simp only [recordOne, updateFirst_eq_map hd, List.map_map]
    refine List.map_congr_left fun job _ => ?_
    by_cases hj : job.id = r.jobId
    · simp [hj]
    · simp [hj, Ne.symm hj]

/-- What is collected under a job's id is the job's own. -/
theorem collect_of_job {jobs : List Job} (hd : Distinct jobs) {job : Job} (hj : job ∈ jobs) (now : Now) :
    (collect now jobs).filter (·.jobId == job.id) = job.collect now := by
  have own : ∀ j : Job, (j.collect now).filter (·.jobId == job.id) = if j.id = job.id then j.collect now else [] := by
    intro j
    by_cases hid : j.id = job.id
    · rw [if_pos hid, List.filter_eq_self]
      intro pa hpa
      simp [(collect_jobId hpa).1, hid]
    · rw [if_neg hid, List.filter_eq_nil_iff]
      intro pa hpa
      simp [(collect_jobId hpa).1, hid]
  rw [collect, List.filter_flatMap]
  simp only [own]
  exact flatMap_of_key hd hj

theorem results_of_job {jobs : List Job} (hd : Distinct jobs) {job : Job} (hj : job ∈ jobs) (now : Now)
    (answer : PendingAction → Response) :
    ((collect now jobs).filterMap (execute answer)).filter (·.jobId == job.id) =
      (job.collect now).filterMap (execute answer) := by
  rw [← collect_of_job hd hj now]
  induction collect now jobs with
  | nil => rfl
  | cons pa pas ih =>
    cases he : execute answer pa with
    | none =>
      by_cases hid : pa.jobId = job.id <;> simp [he, hid, ih]
    | some r =>
      have hr := (execute_fields he).1
      by_cases hid : pa.jobId = job.id <;> simp [he, hr, hid, ih]

theorem tick_eq_map {jobs : List Job} (hd : Distinct jobs) (now : Now) (answer : PendingAction → Response) :
    Scheduler.tick now answer jobs = jobs.map (·.tick now answer) := by
  rw [Scheduler.tick, record_eq_map hd]
  refine List.map_congr_left fun job hj => ?_
  rw [results_of_job hd hj]
  rfl

/-- How often a tick executes a job's action, and its restore. -/
theorem executed_of_job {jobs : List Job} (hd : Distinct jobs) {job : Job} (hj : job ∈ jobs)
    (hm : (parseMethod job.action.method).isSome) (now : Now) :
    (executed now jobs).countP (fun pa => pa.jobId == job.id && !pa.isRestore) = (job.enabled && job.runsNow now).toNat ∧
      (executed now jobs).countP (fun pa => pa.jobId == job.id && pa.isRestore) =
        (job.enabled && job.restoresNow now).toNat := by
  have own : ∀ q : PendingAction → Bool, (executed now jobs).countP (fun pa => pa.jobId == job.id && q pa) =
      (job.collect now).countP fun pa => q pa && (parseMethod pa.method).isSome := by
    intro q
    rw [executed, List.countP_filter, ← collect_of_job hd hj, List.countP_filter]
    congr 1
    funext pa
    cases pa.jobId == job.id <;> cases q pa <;> cases (parseMethod pa.method).isSome <;> rfl
  rw [own, own]
  unfold Job.collect
  by_cases he : job.enabled
  · by_cases hr : job.runsNow now <;> by_cases hs : job.restoresNow now <;>
      simp [he, hr, hs, Job.pendingRun, Job.pendingRestore, hm]
  · simp [he]

/-- All a tick does to a job. -/
theorem tick_fields {job : Job} (hm : (parseMethod job.action.method).isSome) (now : Now)
    (answer : PendingAction → Response) :
    let runs := job.enabled && job.runsNow now
    let restores := job.enabled && job.restoresNow now
    (job.tick now answer).id = job.id ∧ (job.tick now answer).schedule = job.schedule ∧
      (job.tick now answer).action = job.action ∧ (job.tick now answer).restore = job.restore ∧
      (job.tick now answer).lastRun = (if runs then some now.ts else job.lastRun) ∧
      (job.tick now answer).lastRestore = (if restores then some now.ts else job.lastRestore) ∧
      (job.tick now answer).enabled =
        (job.enabled && !(job.schedule.isOnce && (runs && job.restore.isNone || restores))) := by
  obtain ⟨method, hm⟩ := Option.isSome_iff_exists.mp hm
  unfold Job.tick Job.collect
  by_cases he : job.enabled
  · by_cases hr : job.runsNow now <;> by_cases hs : job.restoresNow now <;>
      simp [he, hr, hs, execute, Job.pendingRun, Job.pendingRestore, hm, Job.mark]
    cases job.schedule.isOnce <;> simp
  · simp [he]

end OpenU60.Scheduler
