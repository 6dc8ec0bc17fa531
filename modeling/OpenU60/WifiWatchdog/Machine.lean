/-
  OpenU60.WifiWatchdog.Machine — the watchdog of the firmware script that never ends
  (`zte-agent/src/wifi_watchdog.rs`, `Machine::step` and `on_scanned`).

  Instants are nanoseconds since boot. A scan lists the copies of the script that run, each once: the processes come
  from the entries of `/proc`, which has one for each pid.
  - `judge`: what a scan decides on one copy, from what is on record of it;
  - `Looked`, `onScanned_looked`: a scan kills the copies whose verdict is to kill and tracks the others, with the
    first of their re-checks as the deadline.
-/

import Mathlib

namespace OpenU60.WifiWatchdog

def secs (n : Nat) : Nat := n * 10 ^ 9

def maxAge : Nat := secs 120
def stuckAge : Nat := secs 5
def monitorRetry : Nat := secs 5
def slack : Nat := secs 1
def scanRetry : Nat := secs 30

/-- What the script's loop waits for, by the configuration. -/
structure Outlook where
  wanted : Nat
  /-- The monitors the loop can ever start. -/
  reachable : Nat
  ssidOnRadioOff : Bool
  deriving DecidableEq

/-- The loop can never count the monitors it wants. -/
def Outlook.endless (o : Outlook) : Bool := o.ssidOnRadioOff && o.reachable < o.wanted

structure Copy where
  pid : Int
  start : Nat
  deriving DecidableEq

/-- A process whose command line matched. -/
structure Found where
  pid : Int
  ppid : Int
  start : Nat
  deriving DecidableEq

/-- The subshells of a copy have its command line, so a match whose parent is a match is dropped. -/
def topLevel (found : List Found) : List Copy :=
  (found.filter fun f => f.ppid ∉ found.map (·.pid)).map fun f => ⟨f.pid, f.start⟩

structure Scan where
  copies : List Copy
  /-- The start times of the monitors that are up. -/
  monitors : List Nat
  outlook : Option Outlook
  /-- One entry for each pid. -/
  pids : (copies.map (·.pid)).Nodup

/-- The entries of `/proc` make such a scan. -/
theorem topLevel_pids {found : List Found} (h : (found.map (·.pid)).Nodup) : ((topLevel found).map (·.pid)).Nodup := by
  unfold topLevel
  rw [List.map_map]
  exact h.sublist (List.filter_sublist.map _)

inductive Event where
  | trigger
  | timer
  | scanned (scan : Scan)
  | scanFailed

/-- When a copy is stopped, chosen when a scan first sees it. -/
inductive Rule where
  | age
  | endless (reachable : Nat)
  deriving DecidableEq

def Rule.forOutlook (outlook : Option Outlook) : Rule :=
  match outlook with
  | some o => if o.endless then .endless o.reachable else .age
  | none => .age

inductive Action where
  | scan
  | kill (pid : Int) (age : Nat) (rule : Rule)
  | watch (pid : Int) (check : Nat) (rule : Rule)
  | wait (pid : Int) (monitors reachable : Nat)
  | relax (pid : Int) (check : Nat)
  deriving DecidableEq

structure Tracked where
  start : Nat
  rule : Rule
  /-- The wait has been told. -/
  waited : Bool
  deriving DecidableEq

structure Machine where
  deadline : Option Nat := none
  /-- The copies of the last scan that were not stopped. -/
  tracked : Int → Option Tracked := fun _ => none

/-- What a scan decides on a copy: when to look at it again, or to kill it. -/
structure Verdict where
  tracked : Tracked
  check : Option Nat
  wait : Option Nat := none
  relaxed : Bool := false

/-- The monitors this copy's loop, or what launched it, has started. -/
def Scan.fresh (scan : Scan) (copy : Copy) : Nat := scan.monitors.countP (copy.start ≤ ·)

def judge (scan : Scan) (now : Nat) (copy : Copy) (t : Tracked) : Verdict :=
  let age := now - copy.start
  let lastChance := copy.start + maxAge + slack
  if maxAge ≤ age then { tracked := t, check := none }
  else
    match t.rule with
    | .age => { tracked := t, check := some lastChance }
    | .endless _ =>
      if age < stuckAge then { tracked := t, check := some (copy.start + stuckAge + slack) }
      else
        -- due: judged again by the configuration now
        match scan.outlook.filter (·.endless) with
        | some o =>
          let t := { t with rule := .endless o.reachable }
          if o.reachable ≤ scan.fresh copy then { tracked := t, check := none }
          else
            { tracked := { t with waited := true }
              check := some (min (now + monitorRetry) lastChance)
              wait := if t.waited then none else some o.reachable }
        | none => { tracked := { t with rule := .age }, check := some lastChance, relaxed := true }

/-- A scan half done: the copies already on record that it has yet to come to, and what it has done. -/
structure Pass where
  machine : Machine
  before : Int → Option Tracked
  actions : List Action

/-- The copy as it is on record, or anew; a reused pid is a new copy. -/
def known (before : Int → Option Tracked) (scan : Scan) (copy : Copy) : Tracked × Bool :=
  match before copy.pid with
  | some t =>
    if t.start = copy.start then (t, false) else ({ start := copy.start, rule := .forOutlook scan.outlook, waited := false }, true)
  | none => ({ start := copy.start, rule := .forOutlook scan.outlook, waited := false }, true)

def look (scan : Scan) (now : Nat) (p : Pass) (copy : Copy) : Pass :=
  let k := known p.before scan copy
  let v := judge scan now copy k.1
  let before := Function.update p.before copy.pid none
  match v.check with
  | none => { p with before, actions := p.actions ++ [.kill copy.pid (now - copy.start) v.tracked.rule] }
  | some check =>
    { machine :=
        { deadline := some ((p.machine.deadline.map (min · check)).getD check)
          tracked := Function.update p.machine.tracked copy.pid (some v.tracked) }
      before
      actions := p.actions ++ (if k.2 then [.watch copy.pid check v.tracked.rule] else []) ++
        (match v.wait with | some reachable => [.wait copy.pid (scan.fresh copy) reachable] | none => []) ++
        (if v.relaxed then [.relax copy.pid check] else []) }

namespace Machine

def onScanned (m : Machine) (scan : Scan) (now : Nat) : Machine × List Action :=
  let p := scan.copies.foldl (look scan now) ⟨{}, m.tracked, []⟩
  (p.machine, p.actions)

def step (m : Machine) (e : Event) (now : Nat) : Machine × List Action :=
  match e with
  | .trigger => (m, [.scan])
  | .timer => if m.deadline.any (· ≤ now) then ({ m with deadline := none }, [.scan]) else (m, [])
  | .scanned scan => m.onScanned scan now
  | .scanFailed =>
    let check := now + scanRetry
    ({ m with deadline := some ((m.deadline.map (min · check)).getD check) }, [])

end Machine

/-! ## A verdict -/

variable {scan : Scan} {now : Nat} {copy : Copy} {t : Tracked}

/-- A copy that is not killed is looked at again, later, and soon after it has had its time. -/
theorem judge_check {check : Nat} (h : (judge scan now copy t).check = some check) :
    now < check ∧ check ≤ copy.start + maxAge + slack := by
  unfold judge at h
  have hmax : maxAge = 120000000000 := rfl
  have hstuck : stuckAge = 5000000000 := rfl
  have hslack : slack = 1000000000 := rfl
  have hretry : monitorRetry = 5000000000 := rfl
  dsimp only at h
  split at h
  · cases h
  · rename_i hyoung
    split at h
    · obtain rfl := Option.some.inj h
      omega
    · split at h
      · obtain rfl := Option.some.inj h
        omega
      · split at h
        · split at h
          · cases h
          · obtain rfl := Option.some.inj h
            omega
        · obtain rfl := Option.some.inj h
          omega

/-- A copy is killed at the maximum age, or as one that cannot end. -/
theorem judge_kill (h : (judge scan now copy t).check = none) : maxAge ≤ now - copy.start ∨
    ∃ r o, t.rule = .endless r ∧ scan.outlook = some o ∧ o.endless = true ∧ stuckAge ≤ now - copy.start ∧
      o.reachable ≤ scan.fresh copy := by
  unfold judge at h
  dsimp only at h
  split at h
  · rename_i hold
    exact .inl hold
  · split at h
    · cases h
    · rename_i r hrule
      split at h
      · cases h
      · rename_i hdue
        split at h
        · rename_i o ho
          obtain ⟨houtlook, hendless⟩ := Option.filter_eq_some_iff.mp ho
          split at h
          · rename_i hfresh
            exact .inr ⟨r, o, hrule, houtlook, hendless, by omega, hfresh⟩
          · cases h
        · cases h

theorem judge_old (h : maxAge ≤ now - copy.start) : (judge scan now copy t).check = none := by
  unfold judge
  dsimp only
  rw [if_pos h]

theorem judge_start : (judge scan now copy t).tracked.start = t.start := by
  unfold judge
  dsimp only
  split
  · rfl
  · split
    · rfl
    · split
      · rfl
      · split
        · split
          · rfl
          · rfl
        · rfl

/-- Nothing makes a copy endless later. -/
theorem judge_endless {r : Nat} (h : (judge scan now copy t).tracked.rule = .endless r) : ∃ r', t.rule = .endless r' := by
  unfold judge at h
  dsimp only at h
  split at h
  · exact ⟨r, h⟩
  · split at h
    · rename_i hrule
      rw [hrule] at h
      cases h
    · rename_i r' hrule
      exact ⟨r', hrule⟩

/-! ## A scan -/

/-- What a scan has on record of a copy when it comes to it. -/
def Machine.verdict (m : Machine) (scan : Scan) (now : Nat) (copy : Copy) : Verdict :=
  judge scan now copy (known m.tracked scan copy).1

/-- After the copies of `done`. -/
structure Looked (m : Machine) (scan : Scan) (now : Nat) (done : List Copy) (p : Pass) : Prop where
  before : ∀ pid, pid ∉ done.map (·.pid) → p.before pid = m.tracked pid
  kills : ∀ pid age rule, .kill pid age rule ∈ p.actions ↔ ∃ c ∈ done, c.pid = pid ∧ age = now - c.start ∧
    (m.verdict scan now c).check = none ∧ rule = (m.verdict scan now c).tracked.rule
  tracked : ∀ pid t, p.machine.tracked pid = some t ↔ ∃ c ∈ done, c.pid = pid ∧ (m.verdict scan now c).check.isSome ∧
    t = (m.verdict scan now c).tracked
  checked : ∀ c ∈ done, ∀ check, (m.verdict scan now c).check = some check → ∃ d, p.machine.deadline = some d ∧ d ≤ check
  deadline : ∀ d, p.machine.deadline = some d → ∃ c ∈ done, (m.verdict scan now c).check = some d

theorem Looked.look {m : Machine} {done : List Copy} {p : Pass} (h : Looked m scan now done p)
    (hnew : copy.pid ∉ done.map (·.pid)) : Looked m scan now (done ++ [copy]) (look scan now p copy) := by
  have hknown : known p.before scan copy = known m.tracked scan copy := by
    unfold known
    rw [h.before copy.pid hnew]
  have hother : ∀ c ∈ done, c.pid ≠ copy.pid := fun c hc heq => hnew (List.mem_map.mpr ⟨c, hc, heq⟩)
  have hbefore : ∀ pid, pid ∉ (done ++ [copy]).map (·.pid) → Function.update p.before copy.pid none pid = m.tracked pid := by
    intro pid hpid
    rw [List.map_append, List.mem_append, not_or] at hpid
    rw [Function.update_of_ne (fun heq => hpid.2 (by rw [heq]; exact List.mem_singleton.mpr rfl))]
    exact h.before pid hpid.1
  have hverdict : judge scan now copy (known p.before scan copy).1 = m.verdict scan now copy := by
    rw [hknown]
    rfl
  unfold WifiWatchdog.look
  dsimp only
  rw [hverdict]
  cases hcheck : (m.verdict scan now copy).check with
  | none =>
    dsimp only
    refine ⟨hbefore, fun pid age rule => ?_, fun pid t => ?_, fun c hc check hc' => ?_, fun d hd => ?_⟩
    · rw [List.mem_append, List.mem_singleton, h.kills]
      constructor
      · rintro (⟨c, hc, hrest⟩ | hkill)
        · exact ⟨c, List.mem_append_left _ hc, hrest⟩
        · obtain ⟨rfl, rfl, rfl⟩ := Action.kill.inj hkill
          exact ⟨copy, List.mem_append_right _ List.mem_cons_self, rfl, rfl, hcheck, rfl⟩
      · rintro ⟨c, hc, rfl, rfl, hnone, rfl⟩
        rcases List.mem_append.mp hc with hc | hc
        · exact .inl ⟨c, hc, rfl, rfl, hnone, rfl⟩
        · rw [List.mem_singleton.mp hc]
          exact .inr rfl
    · rw [h.tracked]
      constructor
      · rintro ⟨c, hc, hrest⟩
        exact ⟨c, List.mem_append_left _ hc, hrest⟩
      · rintro ⟨c, hc, hpid, hsome, ht⟩
        rcases List.mem_append.mp hc with hc | hc
        · exact ⟨c, hc, hpid, hsome, ht⟩
        · rw [List.mem_singleton.mp hc, hcheck] at hsome
          cases hsome
    · rcases List.mem_append.mp hc with hc | hc
      · exact h.checked c hc check hc'
      · rw [List.mem_singleton.mp hc, hcheck] at hc'
        cases hc'
    · obtain ⟨c, hc, hd⟩ := h.deadline d hd
      exact ⟨c, List.mem_append_left _ hc, hd⟩
  | some check =>
    dsimp only
    refine ⟨hbefore, fun pid age rule => ?_, fun pid t => ?_, fun c hc check' hc' => ?_, fun d hd => ?_⟩
    · have hnone : ∀ extra : List Action, (∀ a ∈ extra, ∀ pid age rule, a ≠ .kill pid age rule) →
          (.kill pid age rule ∈ p.actions ++ extra ↔ .kill pid age rule ∈ p.actions) := by
        intro extra hextra
        rw [List.mem_append]
        exact or_iff_left fun hmem => hextra _ hmem pid age rule rfl
      rw [List.append_assoc, List.append_assoc, hnone]
      · rw [h.kills]
        constructor
        · rintro ⟨c, hc, hrest⟩
          exact ⟨c, List.mem_append_left _ hc, hrest⟩
        · rintro ⟨c, hc, hpid, hage, hkilled, hrule⟩
          rcases List.mem_append.mp hc with hc | hc
          · exact ⟨c, hc, hpid, hage, hkilled, hrule⟩
          · rw [List.mem_singleton.mp hc, hcheck] at hkilled
            cases hkilled
      · intro a ha pid age rule
        rcases List.mem_append.mp ha with ha | ha
        · split at ha
          · rw [List.mem_singleton.mp ha]
            nofun
          · cases ha
        · rcases List.mem_append.mp ha with ha | ha
          · split at ha
            · rw [List.mem_singleton.mp ha]
              nofun
            · cases ha
          · split at ha
            · rw [List.mem_singleton.mp ha]
              nofun
            · cases ha
    · show Function.update p.machine.tracked copy.pid (some (m.verdict scan now copy).tracked) pid = some t ↔ _
      by_cases hpid : pid = copy.pid
      · subst hpid
        rw [Function.update_self]
        constructor
        · intro ht
          exact ⟨copy, List.mem_append_right _ List.mem_cons_self, rfl, by rw [hcheck]; rfl, (Option.some.inj ht).symm⟩
        · rintro ⟨c, hc, hpid, -, rfl⟩
          rcases List.mem_append.mp hc with hc | hc
          · exact absurd hpid (hother c hc)
          · rw [List.mem_singleton.mp hc]
      · rw [Function.update_of_ne hpid, h.tracked]
        constructor
        · rintro ⟨c, hc, hrest⟩
          exact ⟨c, List.mem_append_left _ hc, hrest⟩
        · rintro ⟨c, hc, hpid', hrest⟩
          rcases List.mem_append.mp hc with hc | hc
          · exact ⟨c, hc, hpid', hrest⟩
          · rw [List.mem_singleton.mp hc] at hpid'
            exact absurd hpid'.symm hpid
    · refine ⟨_, rfl, ?_⟩
      rcases List.mem_append.mp hc with hc | hc
      · obtain ⟨d, hd, hle⟩ := h.checked c hc check' hc'
        rw [hd]
        exact Nat.le_trans (Nat.min_le_left ..) hle
      · rw [List.mem_singleton.mp hc, hcheck] at hc'
        obtain rfl := Option.some.inj hc'
        cases p.machine.deadline with
        | none => exact Nat.le_refl _
        | some d => exact Nat.min_le_right ..
    · have hcopy : ∃ c ∈ done ++ [copy], (m.verdict scan now c).check = some check :=
        ⟨copy, List.mem_append_right _ List.mem_cons_self, hcheck⟩
      obtain rfl := Option.some.inj hd
      cases hold : p.machine.deadline with
      | none => exact hcopy
      | some d =>
        rcases Nat.le_total d check with hle | hle
        · obtain ⟨c, hc, hd⟩ := h.deadline d hold
          refine ⟨c, List.mem_append_left _ hc, hd.trans ?_⟩
          exact congrArg some (Nat.min_eq_left hle).symm
        · rw [show ((some d).map (min · check)).getD check = check from Nat.min_eq_right hle]
          exact hcopy

/-- A scan comes to each of its copies once. -/
theorem onScanned_looked (m : Machine) (scan : Scan) (now : Nat) :
    Looked m scan now scan.copies (scan.copies.foldl (look scan now) ⟨{}, m.tracked, []⟩) := by
  have hpids := scan.pids
  generalize scan.copies = copies at hpids
  induction copies using List.reverseRecOn with
  | nil => exact ⟨fun _ _ => rfl, by simp, by simp, by simp, by simp⟩
  | append_singleton copies copy ih =>
    rw [List.map_append, List.nodup_append] at hpids
    rw [List.foldl_append]
    refine (ih hpids.1).look fun hmem => ?_
    exact hpids.2.2 _ hmem _ (List.mem_singleton.mpr rfl) rfl

end OpenU60.WifiWatchdog
