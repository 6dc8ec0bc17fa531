/-
  OpenU60.Scheduler.Results — the phases of a tick interleaved with the requests: which
  job a result is recorded for.

  The lock is released between `collect` and `record`, and a result finds its job by id.
  `jobs_create` hands out the largest id plus one, so the id of a deleted job comes back.
  - `results_go_home`: in every interleaving where no new job takes an id the running tick
    has collected, a record marks exactly the jobs its results were collected from, no
    request touches what a record writes, and delete and toggle act on exactly the job
    the request names, provided its number is not narrowed onto another job's.
  - `recycled_id_marked`: the id of a collected job that is deleted goes to a new one-shot
    job, which is marked as run and disabled and never runs.
  - `narrowed_id_deletes`: `2^32 + 1` deletes job 1.
-/

import OpenU60.Lib.Machine
import OpenU60.Scheduler.Tick

namespace OpenU60.Scheduler

open OpenU60.Lib OpenU60.Lib.Machine OpenU60.Lib.FirstMatch

/-- Where the scheduler thread is in a tick. -/
inductive Phase where
  | idle
  | executing (now : Now) (pending : List PendingAction) (results : List ExecResult)
  deriving DecidableEq

structure Shared where
  jobs : List Job
  phase : Phase
  /-- Ghost: the number of jobs made. -/
  serial : Nat

inductive Move where
  | collect (ts : Int)
  | execute (answer : Response)
  | record
  | request (now : Int) (req : Request)

namespace Shared

def step (zone : Int → Int) (s : Shared) : Move → Shared
  | .collect ts =>
    match s.phase with
    | .idle =>
      let now := nowLocal zone ts
      let pending := Scheduler.collect now s.jobs
      if pending.isEmpty then s else { s with phase := .executing now pending [] }
    | .executing .. => s
  | .execute answer =>
    match s.phase with
    | .executing now (pa :: rest) results =>
      { s with phase := .executing now rest (results ++ (Scheduler.execute (fun _ => answer) pa).toList) }
    | _ => s
  | .record =>
    match s.phase with
    | .executing now [] results => { s with jobs := Scheduler.record now.ts s.jobs results, phase := .idle }
    | _ => s
  | .request now req => { s with jobs := (handle s.serial now s.jobs req).1, serial := s.serial + 1 }

/-- What a record is about to mark with. -/
def marks (s : Shared) : List ExecResult :=
  match s.phase with
  | .executing _ [] results => results
  | _ => []

/-- The jobs the running tick has collected from: id and serial. -/
def collected (s : Shared) : List (UInt32 × Nat) :=
  match s.phase with
  | .idle => []
  | .executing _ pending results => pending.map (fun p => (p.jobId, p.maker)) ++ results.map fun r => (r.jobId, r.maker)

end Shared

/-- What only a record writes. -/
def Job.marks (job : Job) : Option Int × Option Nat × Option String × Option Int :=
  (job.lastRun, job.lastStatus, job.lastError, job.lastRestore)

/-- The integer of a delete or toggle. -/
def Request.target : Request → Option Nat
  | .delete (some body) => (body.get "id").asU64
  | .toggle (some body) => (body.get "id").asU64
  | _ => none

/-- A delete or toggle changes the job with the request's integer and no other, and is
    refused if there is none. -/
def Request.ActsOn (jobs : List Job) (r : List Job × Reply) : Request → Prop
  | .delete (some body) =>
    ∀ n, (body.get "id").asU64 = some n →
      r.1 = jobs.filter (·.id.toNat != n) ∧ r.2.status = if jobs.any (·.id.toNat == n) then 200 else 404
  | .toggle (some body) =>
    ∀ n enabled, (body.get "id").asU64 = some n → (body.get "enabled").asBool = some enabled →
      r.1 = (jobs.map fun job => if job.id.toNat = n then { job with enabled := enabled } else job) ∧
        r.2.status = if jobs.any (·.id.toNat == n) then 200 else 404
  | _ => True

namespace Shared

/-- A record marks each job with the results collected from it and with no other; a
    request leaves what records write, and acts on the job it names. -/
def Home (zone : Int → Int) (s : Shared) (e : Move) : Prop :=
  match e with
  | .record =>
    ∀ now results, s.phase = .executing now [] results →
      (s.step zone e).jobs =
        s.jobs.map fun job => (results.filter (·.maker == job.serial)).foldl (fun j r => j.mark now.ts r) job
  | .request now req =>
    (∀ job ∈ (s.step zone e).jobs,
      (∃ old ∈ s.jobs, old.serial = job.serial ∧ old.marks = job.marks) ∨
        (∀ old ∈ s.jobs, old.serial ≠ job.serial) ∧ job.marks = (none, none, none, none)) ∧
    req.ActsOn s.jobs (handle s.serial now s.jobs req)
  | _ => (s.step zone e).jobs = s.jobs

/-- A new job's id is neither another's nor one the running tick has collected from, and
    a delete's or toggle's integer fits 32 bits or is narrowed to an id no job has. -/
def apart (s : Shared) : Move → Bool
  | .request _ req =>
    (match req with
      | .create _ => !(s.jobs.map (·.id)).contains (nextId s.jobs) && !(s.collected.map (·.1)).contains (nextId s.jobs)
      | _ => true) &&
      req.target.all fun n => decide (n < 2 ^ 32) || !(s.jobs.map (·.id)).contains (UInt32.ofNat n)
  | _ => true

/-- No two jobs have one id or one serial, and no tick is under way. -/
structure Start (s : Shared) : Prop where
  distinct : Distinct s.jobs
  serials : (s.jobs.map (·.serial)).Nodup
  made : ∀ job ∈ s.jobs, job.serial < s.serial
  idle : s.phase = .idle

/-- The id of what the running tick has collected still names the job it was collected
    from, or none. -/
structure Kept (s : Shared) : Prop where
  distinct : Distinct s.jobs
  serials : (s.jobs.map (·.serial)).Nodup
  made : ∀ job ∈ s.jobs, job.serial < s.serial
  collected : ∀ c ∈ s.collected, c.2 < s.serial ∧ ∀ job ∈ s.jobs, job.id = c.1 ↔ job.serial = c.2

end Shared

/-! ## Requests -/

variable {jobs : List Job}

theorem editJob_spec (id : UInt32) (edit : Job → Job) (hd : Distinct jobs) :
    (editJob jobs id edit).1 = (jobs.map fun job => if job.id = id then edit job else job) ∧
      (editJob jobs id edit).2.status = if jobs.any (·.id == id) then 200 else 404 := by
  unfold editJob
  cases hf : jobs.find? (·.id == id) with
  | none =>
    have hno : ∀ job ∈ jobs, job.id ≠ id := by simpa using hf
    have hany : jobs.any (·.id == id) = false := by simpa using hno
    refine ⟨?_, by simp [hany]⟩
    rw [List.map_congr_left (g := fun job => job), List.map_id']
    intro job hj
    rw [if_neg (hno job hj)]
  | some old =>
    have hany : jobs.any (·.id == id) := by
      have hold : (old.id == id) = true := List.find?_some (p := fun j : Job => j.id == id) hf
      rw [List.any_eq_true]
      exact ⟨old, List.mem_of_find?_eq_some hf, hold⟩
    exact ⟨updateFirst_eq_map hd, by simp [hany]⟩

/-- The jobs after a request: some of those before, with what records write as it was, and
    one more if the request makes one. -/
theorem handle_jobs (hd : Distinct jobs) (serial : Nat) (now : Int) (req : Request) :
    (∃ kept : List Job, kept.Sublist jobs ∧ ∃ f : Job → Job, (∀ j, (f j).id = j.id ∧ (f j).serial = j.serial ∧
      (f j).marks = j.marks) ∧ (handle serial now jobs req).1 = kept.map f) ∨
    (∃ body new, req = .create body ∧ new.id = nextId jobs ∧ new.serial = serial ∧ new.marks = (none, none, none, none) ∧
      (handle serial now jobs req).1 = jobs ++ [new]) := by
  have same : ∃ kept : List Job, kept.Sublist jobs ∧ ∃ f : Job → Job, (∀ j, (f j).id = j.id ∧ (f j).serial = j.serial ∧
      (f j).marks = j.marks) ∧ jobs = kept.map f :=
    ⟨jobs, List.Sublist.refl _, id, fun _ => ⟨rfl, rfl, rfl⟩, (List.map_id _).symm⟩
  have edited : ∀ (id : UInt32) (edit : Job → Job), (∀ j, (edit j).id = j.id ∧ (edit j).serial = j.serial ∧
      (edit j).marks = j.marks) → ∃ kept : List Job, kept.Sublist jobs ∧ ∃ f : Job → Job, (∀ j, (f j).id = j.id ∧
      (f j).serial = j.serial ∧ (f j).marks = j.marks) ∧ (editJob jobs id edit).1 = kept.map f := by
    intro id edit he
    refine ⟨jobs, List.Sublist.refl _, _, fun j => ?_, (editJob_spec _ _ hd).1⟩
    split
    · exact he j
    · exact ⟨rfl, rfl, rfl⟩
  cases req with
  | create body =>
    simp only [handle, jobsCreate]
    split
    · exact .inl same
    · split
      · exact .inl same
      · exact .inr ⟨_, _, rfl, rfl, rfl, rfl, rfl⟩
  | update body =>
    left
    simp only [handle, jobsUpdate]
    split
    · exact same
    · split
      · exact same
      · exact edited _ _ fun _ => ⟨rfl, rfl, rfl⟩
  | delete body =>
    left
    simp only [handle, jobsDelete]
    split
    · exact same
    · split
      · exact same
      · split
        · exact same
        · exact ⟨_, List.filter_sublist, id, fun _ => ⟨rfl, rfl, rfl⟩, (List.map_id _).symm⟩
  | toggle body =>
    left
    simp only [handle, jobsToggle]
    split
    · exact same
    · split
      · exact same
      · split
        · exact same
        · exact edited _ _ fun _ => ⟨rfl, rfl, rfl⟩

/-- An integer narrowed to 32 bits: the id it is, or one that no job has. -/
theorem narrowed_iff {n : Nat}
    (h : decide (n < 2 ^ 32) || !(jobs.map (·.id)).contains (UInt32.ofNat n)) {job : Job} (hj : job ∈ jobs) :
    job.id = UInt32.ofNat n ↔ job.id.toNat = n := by
  by_cases hn : n < 2 ^ 32
  · constructor
    · intro e
      rw [e, UInt32.toNat_ofNat']
      exact Nat.mod_eq_of_lt hn
    · rintro rfl
      exact UInt32.ofNat_toNat.symm
  · have hno : UInt32.ofNat n ∉ jobs.map (·.id) := by
      rw [decide_eq_false hn, Bool.false_or, Bool.not_eq_true'] at h
      simpa using h
    constructor
    · intro e
      exact absurd (e ▸ List.mem_map_of_mem hj) hno
    · intro e
      have := job.id.toNat_lt
      omega

theorem handle_actsOn (hd : Distinct jobs) {serial : Nat} {now : Int} {req : Request}
    (hn : req.target.all fun n => decide (n < 2 ^ 32) || !(jobs.map (·.id)).contains (UInt32.ofNat n)) :
    req.ActsOn jobs (handle serial now jobs req) := by
  have hany : ∀ n, (decide (n < 2 ^ 32) || !(jobs.map (·.id)).contains (UInt32.ofNat n)) = true →
      jobs.any (·.id == UInt32.ofNat n) = jobs.any (·.id.toNat == n) := by
    intro n h
    rw [Bool.eq_iff_iff, List.any_eq_true, List.any_eq_true]
    simp only [beq_iff_eq]
    exact exists_congr fun job => and_congr_right fun hj => narrowed_iff h hj
  cases req with
  | create body => trivial
  | update body => trivial
  | delete body =>
    cases body with
    | none => trivial
    | some body =>
      intro n hid
      simp only [Request.target, hid, Option.all_some] at hn
      have hfilter : jobs.filter (·.id != UInt32.ofNat n) = jobs.filter (·.id.toNat != n) := by
        refine List.filter_congr fun job hj => ?_
        rw [Bool.eq_iff_iff, bne_iff_ne, bne_iff_ne, ne_eq, ne_eq, narrowed_iff hn hj]
      rw [← hany n hn, ← hfilter]
      simp only [handle, jobsDelete, hid]
      by_cases hlen : (jobs.filter (·.id != UInt32.ofNat n)).length = jobs.length
      · have hall : jobs.filter (·.id != UInt32.ofNat n) = jobs := List.filter_sublist.eq_of_length hlen
        have hno : jobs.any (·.id == UInt32.ofNat n) = false := by
          simpa using List.filter_eq_self.mp hall
        rw [if_pos hlen, hno]
        exact ⟨hall.symm, rfl⟩
      · have hyes : jobs.any (·.id == UInt32.ofNat n) := by
          by_contra hno
          exact hlen (by rw [List.filter_eq_self.mpr (by simpa using hno)])
        rw [if_neg hlen, hyes]
        exact ⟨rfl, rfl⟩
  | toggle body =>
    cases body with
    | none => trivial
    | some body =>
      intro n enabled hid hen
      simp only [Request.target, hid, Option.all_some] at hn
      simp only [handle, jobsToggle, hid, hen]
      obtain ⟨hjobs, hstatus⟩ := editJob_spec (UInt32.ofNat n) (fun job => { job with enabled := enabled }) hd
      rw [hjobs, hstatus, hany n hn]
      refine ⟨List.map_congr_left fun job hj => ?_, rfl⟩
      simp only [narrowed_iff hn hj]

/-! ## The invariant -/

theorem mark_serial (ts : Int) (r : ExecResult) (job : Job) : (job.mark ts r).serial = job.serial := by
  unfold Job.mark
  split <;> rfl

theorem foldl_mark (ts : Int) (results : List ExecResult) (job : Job) :
    (results.foldl (fun j r => j.mark ts r) job).id = job.id ∧
      (results.foldl (fun j r => j.mark ts r) job).serial = job.serial := by
  induction results generalizing job with
  | nil => exact ⟨rfl, rfl⟩
  | cons r rs ih => exact ⟨(ih _).1.trans (mark_id ts r job), (ih _).2.trans (mark_serial ts r job)⟩

namespace Shared

variable {s : Shared}

theorem Start.kept (h : s.Start) : s.Kept :=
  ⟨h.distinct, h.serials, h.made, by simp [collected, h.idle]⟩

/-- A step that leaves every job its id and serial, and collects nothing more. -/
theorem Kept.same {s s' : Shared} (h : s.Kept) (hjobs : s'.jobs.map (fun j => (j.id, j.serial)) = s.jobs.map fun j => (j.id, j.serial))
    (hserial : s'.serial = s.serial) (hc : ∀ c ∈ s'.collected, c ∈ s.collected) : s'.Kept := by
  have hids : s'.jobs.map (·.id) = s.jobs.map (·.id) := by
    simpa [Function.comp_def] using congrArg (List.map Prod.fst) hjobs
  have hsers : s'.jobs.map (·.serial) = s.jobs.map (·.serial) := by
    simpa [Function.comp_def] using congrArg (List.map Prod.snd) hjobs
  have hmem : ∀ job ∈ s'.jobs, ∃ old ∈ s.jobs, old.id = job.id ∧ old.serial = job.serial := by
    intro job hj
    have : (job.id, job.serial) ∈ s.jobs.map fun j => (j.id, j.serial) := hjobs ▸ List.mem_map_of_mem hj
    obtain ⟨old, ho, he⟩ := List.mem_map.mp this
    simp only [Prod.mk.injEq] at he
    exact ⟨old, ho, he⟩
  refine ⟨by rw [Distinct, hids]; exact h.distinct, hsers ▸ h.serials, fun job hj => ?_, fun c hcs => ⟨?_, fun job hj => ?_⟩⟩
  · obtain ⟨old, ho, -, hs⟩ := hmem job hj
    rw [← hs, hserial]
    exact h.made old ho
  · rw [hserial]
    exact (h.collected c (hc c hcs)).1
  · obtain ⟨old, ho, hi, hs⟩ := hmem job hj
    rw [← hi, ← hs]
    exact (h.collected c (hc c hcs)).2 old ho

theorem map_key_record (ts : Int) (results : List ExecResult) {jobs : List Job} (hd : Distinct jobs) :
    (record ts jobs results).map (fun j => (j.id, j.serial)) = jobs.map fun j => (j.id, j.serial) := by
  rw [record_eq_map hd, List.map_map]
  refine List.map_congr_left fun job _ => ?_
  obtain ⟨h1, h2⟩ := foldl_mark ts (results.filter (·.jobId == job.id)) job
  simp only [Function.comp_apply, h1, h2]

/-- A tick collects from the jobs there are. -/
theorem Kept.collects (h : s.Kept) (now : Now) :
    Kept ⟨s.jobs, .executing now (Scheduler.collect now s.jobs) [], s.serial⟩ := by
  refine ⟨h.distinct, h.serials, h.made, fun c hc => ?_⟩
  simp only [Shared.collected, List.map_nil, List.append_nil, List.mem_map] at hc
  obtain ⟨pa, hpa, rfl⟩ := hc
  obtain ⟨job, hj, hpa⟩ := List.mem_flatMap.mp hpa
  obtain ⟨hid, hmaker, -⟩ := collect_jobId hpa
  dsimp only
  rw [hid, hmaker]
  refine ⟨h.made job hj, fun other ho => ⟨fun e => ?_, fun e => ?_⟩⟩
  · rw [List.inj_on_of_nodup_map h.distinct ho hj e]
  · rw [List.inj_on_of_nodup_map h.serials ho hj e]

variable {zone : Int → Int}

theorem Kept.request (h : s.Kept) {now : Int} {req : Request}
    (hf : s.apart (.request now req)) : (s.step zone (.request now req)).Kept := by
  rcases handle_jobs h.distinct s.serial now req with ⟨kept, hsub, f, hf', hjobs⟩ | ⟨body, new, rfl, hid, hser, -, hjobs⟩
  · have hids : (kept.map f).map (·.id) = kept.map (·.id) := by
      rw [List.map_map]
      exact List.map_congr_left fun j _ => (hf' j).1
    have hsers : (kept.map f).map (·.serial) = kept.map (·.serial) := by
      rw [List.map_map]
      exact List.map_congr_left fun j _ => (hf' j).2.1
    have hmem : ∀ job ∈ kept.map f, ∃ old ∈ s.jobs, old.id = job.id ∧ old.serial = job.serial := by
      intro job hj
      obtain ⟨old, ho, rfl⟩ := List.mem_map.mp hj
      exact ⟨old, hsub.subset ho, (hf' old).1.symm, (hf' old).2.1.symm⟩
    refine ⟨?_, ?_, fun job hj => ?_, fun c hc => ⟨?_, fun job hj => ?_⟩⟩
    · show ((handle s.serial now s.jobs req).1.map (·.id)).Nodup
      rw [hjobs, hids]
      exact h.distinct.sublist (hsub.map _)
    · show ((handle s.serial now s.jobs req).1.map (·.serial)).Nodup
      rw [hjobs, hsers]
      exact h.serials.sublist (hsub.map _)
    · obtain ⟨old, ho, -, hs⟩ := hmem job (hjobs ▸ hj)
      exact lt_of_lt_of_le (hs ▸ h.made old ho) (Nat.le_succ _)
    · exact lt_of_lt_of_le (h.collected c hc).1 (Nat.le_succ _)
    · obtain ⟨old, ho, hi, hs⟩ := hmem job (hjobs ▸ hj)
      rw [← hi, ← hs]
      exact (h.collected c hc).2 old ho
  · unfold apart at hf
    rw [Bool.and_eq_true, Bool.and_eq_true, Bool.not_eq_true', Bool.not_eq_true'] at hf
    have hnew : new.id ∉ s.jobs.map (·.id) := by
      rw [hid]
      simpa using hf.1.1
    have hfree : ∀ c ∈ s.collected, c.1 ≠ new.id := by
      intro c hc e
      have hno : nextId s.jobs ∉ s.collected.map (·.1) := by simpa using hf.1.2
      exact hno (hid ▸ e ▸ List.mem_map_of_mem hc)
    have hlt : ∀ job ∈ s.jobs, job.serial ≠ new.serial := fun job hj => by
      rw [hser]
      exact (h.made job hj).ne
    have hmem : ∀ {job}, job ∈ (handle s.serial now s.jobs (.create body)).1 → job ∈ s.jobs ∨ job = new := by
      intro job hj
      rw [hjobs] at hj
      simpa using hj
    refine ⟨?_, ?_, fun job hj => ?_, fun c hc => ⟨?_, fun job hj => ?_⟩⟩
    · show ((handle s.serial now s.jobs (.create body)).1.map (·.id)).Nodup
      rw [hjobs, List.map_append]
      exact List.Nodup.append h.distinct (List.nodup_singleton _) (by simpa using hnew)
    · show ((handle s.serial now s.jobs (.create body)).1.map (·.serial)).Nodup
      rw [hjobs, List.map_append]
      exact List.Nodup.append h.serials (List.nodup_singleton _) (by simpa using hlt)
    · rcases hmem hj with hj | rfl
      · exact lt_of_lt_of_le (h.made job hj) (Nat.le_succ _)
      · rw [hser]
        exact Nat.lt_succ_self _
    · exact lt_of_lt_of_le (h.collected c hc).1 (Nat.le_succ _)
    · rcases hmem hj with hj | rfl
      · exact (h.collected c hc).2 job hj
      · -- the tick had not collected from a job with this id, nor from one of this serial
        refine ⟨fun e => absurd e.symm (hfree c hc), fun e => ?_⟩
        have := (h.collected c hc).1
        omega

theorem Kept.step (h : s.Kept) {e : Move} (hf : s.apart e) : (s.step zone e).Kept := by
  cases e with
  | collect ts =>
    simp only [Shared.step]
    split
    · split
      · exact h
      · exact h.collects _
    · exact h
  | execute answer =>
    simp only [Shared.step]
    split
    · next now pa rest results hphase =>
      refine h.same rfl rfl fun c hc => ?_
      simp only [Shared.collected, hphase, List.mem_append, List.mem_map, List.mem_cons] at hc ⊢
      rcases hc with ⟨p, hp, rfl⟩ | ⟨r, hr | hr, rfl⟩
      · exact .inl ⟨p, .inr hp, rfl⟩
      · exact .inr ⟨r, hr, rfl⟩
      · obtain ⟨h1, -, h3⟩ := execute_fields (by simpa using hr)
        exact .inl ⟨pa, .inl rfl, by rw [h1, h3]⟩
    · exact h
  | record =>
    simp only [Shared.step]
    split
    · exact h.same (map_key_record _ _ h.distinct) rfl (by simp [Shared.collected])
    · exact h
  | request now req => exact h.request hf

theorem Kept.home (h : s.Kept) {e : Move} (hf : s.apart e) : s.Home zone e := by
  cases e with
  | collect ts =>
    simp only [Home, Shared.step]
    split
    · split <;> rfl
    · rfl
  | execute answer =>
    simp only [Home, Shared.step]
    split <;> rfl
  | record =>
    intro now results hphase
    simp only [Shared.step, hphase]
    rw [record_eq_map h.distinct]
    refine List.map_congr_left fun job hj => ?_
    have hsame : results.filter (·.jobId == job.id) = results.filter (·.maker == job.serial) := by
      refine List.filter_congr fun r hr => ?_
      have hc := (h.collected (r.jobId, r.maker) (by
        simp only [Shared.collected, hphase, List.map_nil, List.nil_append]
        exact List.mem_map_of_mem hr)).2 job hj
      rw [Bool.eq_iff_iff, beq_iff_eq, beq_iff_eq, eq_comm, hc, eq_comm]
    rw [hsame]
  | request now req =>
    refine ⟨fun job hj => ?_, handle_actsOn h.distinct ?_⟩
    · rcases handle_jobs h.distinct s.serial now req with ⟨kept, hsub, f, hf', hjobs⟩ | ⟨-, new, -, -, hser, hmarks, hjobs⟩
      · simp only [Shared.step, hjobs] at hj
        obtain ⟨old, ho, rfl⟩ := List.mem_map.mp hj
        exact .inl ⟨old, hsub.subset ho, (hf' old).2.1.symm, (hf' old).2.2.symm⟩
      · simp only [Shared.step, hjobs] at hj
        rcases List.mem_append.mp hj with hj | hj
        · exact .inl ⟨job, hj, rfl, rfl⟩
        · rw [List.mem_singleton.mp hj]
          refine .inr ⟨fun old ho => ?_, hmarks⟩
          rw [hser]
          exact (h.made old ho).ne
    · unfold apart at hf
      rw [Bool.and_eq_true] at hf
      exact hf.2

/-- Without a request in between the phases are the tick. -/
theorem phases_eq_tick (hs : s.phase = .idle) (ts : Int) (answer : PendingAction → Response) :
    let now := nowLocal zone ts
    (exec (step zone) s (.collect ts :: ((Scheduler.collect now s.jobs).map fun pa => .execute (answer pa)) ++ [.record])).jobs =
      tick now answer s.jobs := by
  intro now
  have executes : ∀ (pending : List PendingAction) (results : List ExecResult),
      exec (step zone) ⟨s.jobs, .executing now pending results, s.serial⟩ (pending.map fun pa => .execute (answer pa)) =
        ⟨s.jobs, .executing now [] (results ++ pending.filterMap (Scheduler.execute answer)), s.serial⟩ := by
    intro pending
    induction pending with
    | nil => intro results; simp
    | cons pa rest ih =>
      intro results
      rw [List.map_cons, exec_cons]
      show exec (step zone) ⟨s.jobs, .executing now rest (results ++ (Scheduler.execute answer pa).toList), s.serial⟩ _ = _
      rw [ih, List.append_assoc]
      cases he : Scheduler.execute answer pa <;> simp [he]
  cases hp : Scheduler.collect now s.jobs with
  | nil =>
    have hidle : s.step zone (.collect ts) = s := by
      simp only [Shared.step, hs]
      rw [if_pos (by simpa using hp)]
    simp only [List.map_nil, List.cons_append, List.nil_append, exec_cons, exec_nil, hidle]
    simp [Shared.step, hs, tick, hp, record]
  | cons pa rest =>
    have hgo : s.step zone (.collect ts) = ⟨s.jobs, .executing now (pa :: rest) [], s.serial⟩ := by
      simp only [Shared.step, hs]
      rw [if_neg (by show ¬ (Scheduler.collect now s.jobs).isEmpty; simp [hp])]
      rw [← hp]
    rw [List.cons_append, exec_cons, hgo, exec_append, executes, List.nil_append, tick, hp]
    rfl

/-- Results go to the jobs that ran, and requests to the jobs they name. -/
theorem results_go_home {zone : Int → Int} {s : Shared} {es : List Move} (hs : s.Start)
    (hf : Along (step zone) (fun s e => s.apart e) s es) : Along (step zone) (Home zone) s es :=
  along_of_invariant (I := Kept) (fun _ _ h hf => h.step hf) (fun _ _ h hf => h.home hf) hs.kept hf

section

def nothing : Shared := ⟨[], .idle, 0⟩

/-- A one-shot reboot at a time. -/
def rebootOnce (ts : Int) : Request := .create (.ok ⟨"Reboot", .once ts, ⟨"POST", "/api/device/reboot", none⟩, none⟩)

def byId (id : Int) : Option Json := some (.obj [("id", .int id)])

def ok : Response := ⟨200, none⟩

/-- While the first job runs a second one is made, and the first deleted. -/
def secondMade : List Move :=
  [.request 1700000000 (rebootOnce 1700000030), .collect 1700000041, .request 1700000042 (rebootOnce 1700009000),
    .request 1700000043 (.delete (byId 1)), .execute ok, .record]

theorem second_job_untouched :
    Along (step fun _ => 0) (Home fun _ => 0) nothing secondMade ∧
      (exec (step fun _ => 0) nothing secondMade).jobs.map (fun j => (j.id, j.enabled, j.lastRun)) = [(2, true, none)] := by
  have h : Along (step fun _ => 0) (fun s e => s.apart e = true) nothing secondMade := by decide +kernel
  exact ⟨results_go_home ⟨List.nodup_nil, List.nodup_nil, by simp [nothing], rfl⟩ h, by decide +kernel⟩

/-- The other way round: the second job gets the first one's id. -/
def idRecycled : List Move :=
  [.request 1700000000 (rebootOnce 1700000030), .collect 1700000041, .request 1700000042 (.delete (byId 1)),
    .request 1700000043 (rebootOnce 1700009000), .execute ok]

/-- It is marked as run and disabled, hours before its time. -/
theorem recycled_id_marked :
    let s := exec (step fun _ => 0) nothing idRecycled
    s.jobs.map (fun j => (j.id, j.serial, j.enabled, j.lastRun)) = [(1, 2, true, none)] ∧
      s.marks.map (·.maker) = [0] ∧
      (s.step (fun _ => 0) .record).jobs.map (fun j => (j.schedule, j.enabled, j.lastRun)) =
        [(.once 1700009000, false, some 1700000041)] ∧
      ¬ s.Home (fun _ => 0) .record := by
  intro s
  have h : s.jobs.map (fun j => (j.id, j.serial, j.enabled, j.lastRun)) = [(1, 2, true, none)] ∧
      s.marks.map (·.maker) = [0] ∧
      (s.step (fun _ => 0) .record).jobs.map (fun j => (j.schedule, j.enabled, j.lastRun)) =
        [(.once 1700009000, false, some 1700000041)] ∧
      s.phase = .executing (nowLocal (fun _ => 0) 1700000041) [] [⟨1, false, 200, none, 0⟩] ∧
      (s.jobs.map fun job => (([⟨1, false, 200, none, 0⟩] : List ExecResult).filter (·.maker == job.serial)).foldl
        (fun j r => j.mark 1700000041 r) job).map (·.lastRun) = [none] := by decide +kernel
  obtain ⟨hjobs, hmarks, hafter, hphase, hown⟩ := h
  refine ⟨hjobs, hmarks, hafter, fun hhome => ?_⟩
  have hsame := congrArg (List.map (·.lastRun)) (hhome _ _ hphase)
  have hran : (s.step (fun _ => 0) .record).jobs.map (·.lastRun) = [some 1700000041] := by
    simpa [Function.comp_def] using congrArg (List.map fun p => p.2.2) hafter
  rw [hran] at hsame
  exact absurd (hsame.trans hown) (by decide)

/-- The id `2^32 + 1` is taken for 1. -/
theorem narrowed_id_deletes :
    let s := exec (step fun _ => 0) nothing [.request 1700000000 (rebootOnce 1700000030)]
    s.jobs.map (·.id) = [1] ∧ (s.step (fun _ => 0) (.request 1700000001 (.delete (byId (2 ^ 32 + 1))))).jobs = [] := by
  decide +kernel

end

end Shared

end OpenU60.Scheduler
