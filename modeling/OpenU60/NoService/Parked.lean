/-
  OpenU60.NoService.Parked — the policy's thread, the user's own commands and restarts
  around it (`zte-agent/src/oos_policy.rs`, `OosPolicy::run` / `apply`;
  `zte-agent/src/modem_ext.rs`).

  Actors. The thread wakes for the oldest event sent to it, or for a timer (`take`), and
  then goes one effect at a time (`next`, each with its own outcome). The airplane handler
  announces ONLINE and then sends `AT+CFUN=1` itself (`announce`, `command`); LPM it sends
  first and announces when it went through (`lpm`). Services, configs and other user
  changes arrive at any time, and the agent can be restarted between any two moves; what
  was sent to the old process is lost.

  - `not_stranded`: out of the Quiet/Probing cycle the modem is never left in the policy's
    LPM, in every run where no rescue goes wrong (`sound`).
  - `failed_go_online_strands`: a stand-down whose `GoOnline` fails leaves it parked.
-/

import OpenU60.NoService.Executor

namespace OpenU60.NoService

open OpenU60.Lib OpenU60.Lib.Machine

/-- Where the thread is. -/
inductive Stage where
  | leftover
  | leftoverMode
  | readService
  | apply (e : Event) (rounds : Nat)
  | batch (actions : List Action) (rounds : Nat)
  | ready
  deriving DecidableEq

structure World where
  config : Config
  machine : Machine
  station : Station
  stage : Stage
  clock : Nat
  /-- When the thread last looked at the clock. -/
  now : Nat
  userActivity : Option Nat
  sent : List Event
  /-- The user's `AT+CFUN=1` is announced but not sent. -/
  commanding : Bool
  deriving DecidableEq

inductive Move where
  | wait (elapsed : Nat)
  | next (e : Env)
  | take (e : Env)
  | service (has : Bool)
  | update (c : Config)
  | activity
  | announce
  | command (ok : Bool)
  | lpm (ok : Bool)
  | restart (readable : Bool)

namespace World

/-- `OosPolicy::run`, up to the loop. -/
def boot (w : World) (readable : Bool) : World :=
  { w with
    machine := .new w.config
    station := w.station.start readable
    stage := .leftover
    now := w.clock
    userActivity := none
    sent := []
    commanding := false }

/-- One round of `apply`, up to the first action. A user's LPM is the user's from here. -/
def round (w : World) (ev : Event) (rounds : Nat) (e : Env) : World :=
  let m := { w.machine with userActivity := w.userActivity }
  let r := m.step ev e.busy w.now
  { w with
    machine := r.1
    station := if ev = .userMode false then { w.station with parked := false } else w.station
    stage := .batch r.2 rounds }

/-- One action of a batch; a `Standby` drops the rest of it and goes another round. -/
def act (w : World) (a : Action) (rest : List Action) (rounds : Nat) (e : Env) : World :=
  let r := w.station.perform a w.now e
  let w := { w with station := r.1 }
  if r.2 then
    match rounds with
    | 0 => { w with stage := .ready }
    | rounds + 1 => w.round .standby rounds e
  else { w with stage := .batch rest rounds }

def next (w : World) (e : Env) : World :=
  if w.station.left.isSome then { w with station := w.station.resume e }
  else
    match w.stage with
    | .leftover =>
      { w with
        station := w.station.restoreLeftover w.now e
        stage := if w.station.exec.backup.isNone then .readService else .leftoverMode }
    | .leftoverMode =>
      -- an unreadable mode is treated as LPM
      { w with
        station := if e.operateMode.all (· == "LPM") then w.station.goOnline e else w.station
        stage := .readService }
    | .readService =>
      match e.service with
      | some has => { w with stage := .apply (.service has) 3, now := w.clock }
      | none => { w with stage := .ready }
    | .apply ev rounds => w.round ev rounds e
    | .batch [] _ => { w with stage := .ready }
    | .batch (a :: rest) rounds => w.act a rest rounds e
    | .ready => w

def take (w : World) (e : Env) : World :=
  if w.stage != .ready || w.station.left.isSome then w
  else
    { w with
      now := w.clock
      station := w.station.retryRestore w.clock e
      stage := .apply (w.sent.head?.getD .timer) 3
      sent := w.sent.tail }

def step (w : World) : Move → World
  | .wait elapsed => { w with clock := w.clock + elapsed }
  | .next e => w.next e
  | .take e => w.take e
  | .service has => { w with sent := w.sent ++ [.service has] }
  | .update c => if c = w.config then w else { w with config := c, sent := w.sent ++ [.config c] }
  | .activity => { w with userActivity := some w.clock }
  | .announce =>
    if w.commanding then w
    else { w with userActivity := some w.clock, sent := w.sent ++ [.userMode true], commanding := true }
  | .command ok =>
    if !w.commanding then w
    else { w with commanding := false, station := if ok then { w.station with lpm := false, parked := false } else w.station }
  | .lpm ok =>
    if !ok then { w with userActivity := some w.clock }
    else
      { w with
        userActivity := some w.clock
        station := { w.station with lpm := true, parked := false }
        sent := w.sent ++ [.userMode false] }
  | .restart readable => w.boot readable

/-- The thread waits for events, the policy is not in its cycle, and the modem is parked. -/
def Stranded (w : World) : Prop :=
  w.stage = .ready ∧ w.commanding = false ∧ w.machine.state.inCycle = false ∧ w.station.parked = true

/-- Parked, and the user's command is not on its way to the modem. -/
def stuck (w : World) : Bool := w.station.parked && !w.commanding

/-- No rescue of a parked modem goes wrong:
    - a `GoOnline` after a stand-down, or for a modem left by a previous run, succeeds;
    - a cycle that ends without a `GoOnline` finds the modem online, or the user's
      `AT+CFUN=1` on its way to it;
    - that command succeeds;
    - a restart finds the knob backup. -/
def sound (w : World) : Move → Bool
  | .next e =>
    if w.station.left.isSome then true
    else
      match w.stage with
      | .leftoverMode => !w.stuck || e.operateMode.all (· == "LPM") && e.online
      | .apply ev _ => !w.stuck || ev = .userMode false || !ev.abandons w.machine.state
      | .batch (.goOnline :: _) _ => !w.stuck || w.machine.state.inCycle || e.online
      | _ => true
  | .command ok => ok || !w.station.parked
  | .restart readable => readable && w.station.file.isSome || !w.station.parked
  | _ => true

/-- A first start: the policy has set no LPM yet. -/
structure Start (w : World) : Prop where
  machine : w.machine = .new w.config
  stage : w.stage = .leftover
  parked : w.station.parked = false

/-! ## The invariant -/

/-- What is still to come brings a parked modem online. -/
def rescue (w : World) : Prop :=
  match w.stage with
  | .leftover => w.station.exec.backup.isSome
  | .leftoverMode => True
  | .batch acts _ => .goOnline ∈ acts
  | _ => False

/-- What can be left of a batch. -/
inductive Pending (inCycle stuck : Bool) : List Action → Prop
  | nil : Pending inCycle stuck []
  | begins (hc : inCycle) (hs : stuck = false) : Pending inCycle stuck [.setQuietKnobs, .setLpm]
  | parks (hc : inCycle) : Pending inCycle stuck [.setLpm]
  | online : Pending inCycle stuck [.goOnline]
  | leaves : Pending inCycle stuck [.restoreKnobs, .goOnline]
  | ends : Pending inCycle stuck [.restoreKnobs]

structure Guarded (w : World) : Prop where
  rescued : w.stuck → w.machine.state.inCycle ∨ w.rescue
  batch : ∀ acts n, w.stage = .batch acts n → Pending w.machine.state.inCycle w.stuck acts

theorem Pending.mono {c k k' : Bool} {acts : List Action} (hk : k' → k) (h : Pending c k acts) : Pending c k' acts := by
  cases h with
  | nil => exact .nil
  | begins hc hs => exact .begins hc (by cases k' <;> simp_all)
  | parks hc => exact .parks hc
  | online => exact .online
  | leaves => exact .leaves
  | ends => exact .ends

/-- A move that parks nothing, and leaves the thread where it is. -/
theorem Guarded.of_same {w w' : World} (h : Guarded w) (hm : w'.machine = w.machine) (hst : w'.stage = w.stage)
    (hb : w'.station.exec.backup = w.station.exec.backup) (hk : w'.stuck → w.stuck) : Guarded w' := by
  refine ⟨fun hs => ?_, fun acts n hb => ?_⟩
  · rw [hm]
    refine (h.rescued (hk hs)).imp_right fun hr => ?_
    unfold rescue at hr ⊢
    rw [hst, hb]
    exact hr
  · rw [hm]
    exact (h.batch acts n (hst ▸ hb)).mono hk

variable {w : World}

/-- Where nothing is parked any guard holds. -/
theorem Guarded.of_free (hk : w.stuck = false) (hb : ∀ acts n, w.stage = .batch acts n → Pending w.machine.state.inCycle false acts) :
    Guarded w :=
  ⟨fun h => by simp [hk] at h, fun acts n hst => hk ▸ hb acts n hst⟩

theorem parked_of_restore (s : Station) (now : Nat) (e : Env) :
    (s.restoreKnobs now e).parked = s.parked ∧ (s.restoreLeftover now e).parked = s.parked ∧
      (s.retryRestore now e).parked = s.parked := by
  have h : (s.restoreKnobs now e).parked = s.parked := by
    unfold Station.restoreKnobs
    split
    · split <;> rfl
    · rfl
  refine ⟨h, ?_, ?_⟩
  · rw [Station.restoreLeftover_eq]
    exact h
  · unfold Station.retryRestore
    split
    · rfl
    · split
      · rfl
      · exact h

theorem parked_of_quiet (s : Station) (e : Env) : (s.setQuietKnobs e).1.parked = s.parked := by
  unfold Station.setQuietKnobs
  split
  · rfl
  · dsimp only
    split
    · rfl
    · split
      · cases e.saved <;> rfl
      · rfl

theorem parked_of_resume (s : Station) (e : Env) : (s.resume e).parked = s.parked := by
  unfold Station.resume
  split
  · split <;> rfl
  · rfl
  · rfl

/-- What a step emits leaves a rescue for a modem that is stuck. -/
theorem pending_of_emits {m : Machine} {ev : Event} {s : State} {acts : List Action} {k k' : Bool} (h : m.Emits ev s acts)
    (hk : k' → k) (hc : k → m.state.inCycle) (ha : k' → ev.abandons m.state = false) :
    (k' → s.inCycle ∨ .goOnline ∈ acts) ∧ Pending s.inCycle k' acts := by
  cases h with
  | quiet s hs => exact ⟨fun h => .inl (hs ▸ hc (hk h)), .nil⟩
  | begins since he hs =>
    refine ⟨fun _ => .inl rfl, .begins rfl ?_⟩
    -- a grace period is no cycle: nothing is stuck
    cases k' with
    | false => rfl
    | true => simpa [hs, State.inCycle] using hc (hk rfl)
  | probes p he hs => exact ⟨fun _ => .inl rfl, .online⟩
  | parks p he hs => exact ⟨fun _ => .inl rfl, .parks rfl⟩
  | leaves p hs => exact ⟨fun _ => .inr (by simp), .leaves⟩
  | ends s hs he => exact ⟨fun h => by simp [ha h] at he, .ends⟩

variable {e : Env}

/-- A round of `apply`, where a parked modem means the cycle. -/
theorem guarded_round {ev : Event} {rounds : Nat} (hc : w.stuck → w.machine.state.inCycle)
    (ha : w.stuck → ev = .userMode false ∨ ev.abandons w.machine.state = false) : Guarded (w.round ev rounds e) := by
  -- the round frees the modem or leaves it as it is
  have hk : (w.round ev rounds e).stuck → w.stuck ∧ ev ≠ .userMode false := by
    unfold round stuck
    dsimp only
    split
    · simp
    · next h => exact fun hs => ⟨hs, h⟩
  obtain ⟨h1, h2⟩ := pending_of_emits (Machine.step_emits { w.machine with userActivity := w.userActivity } ev e.busy w.now)
    (fun h => (hk h).1) hc (fun h => (ha (hk h).1).resolve_left (hk h).2)
  exact ⟨h1, fun acts n hst => by obtain ⟨rfl, -⟩ := Stage.batch.inj hst; exact h2⟩

/-- What is left of a batch after an action that does not abort it. -/
theorem guarded_rest {rest : List Action} {rounds : Nat} (hst : w.stage = .batch rest rounds)
    (hr : w.stuck → w.machine.state.inCycle ∨ .goOnline ∈ rest) (hp : Pending w.machine.state.inCycle w.stuck rest) :
    Guarded w := by
  refine ⟨fun h => (hr h).imp_right fun hm => ?_, fun acts n hb => ?_⟩
  · unfold rescue
    rw [hst]
    exact hm
  · obtain ⟨rfl, -⟩ := Stage.batch.inj (hst.symm.trans hb)
    exact hp

theorem guarded_act {a : Action} {rest : List Action} {rounds : Nat} (h : Guarded w)
    (hst : w.stage = .batch (a :: rest) rounds) (hs : w.stuck → a = .goOnline → w.machine.state.inCycle ∨ e.online) :
    Guarded (w.act a rest rounds e) := by
  have hp := h.batch _ _ hst
  have hres := h.rescued
  simp only [rescue, hst] at hres
  have hrestore : ∀ st : Stage, ({ w with station := w.station.restoreKnobs w.now e, stage := st } : World).stuck = w.stuck :=
    fun st => by simp only [stuck, (parked_of_restore w.station w.now e).1]
  -- a `GoOnline` that succeeds frees the modem
  have honline : ∀ st : Stage, ({ w with station := w.station.goOnline e, stage := st } : World).stuck → w.stuck ∧ e.online = false := by
    intro st hk
    unfold stuck Station.goOnline at hk
    by_cases he : e.online
    · simp [he] at hk
    · simp only [he, Bool.false_eq_true, if_false] at hk
      exact ⟨hk, by simpa using he⟩
  cases hp with
  | begins hc hk =>
    have hk' : ∀ st : Stage, ({ w with station := (w.station.setQuietKnobs e).1, stage := st } : World).stuck = false := by
      intro st
      rw [← hk]
      unfold stuck
      rw [parked_of_quiet]
    by_cases hq : (w.station.setQuietKnobs e).2
    · simp only [act, Station.perform, hq, if_true]
      cases rounds with
      | zero => exact .of_free (hk' .ready) fun _ _ hb => by cases hb
      | succ rounds =>
        exact guarded_round (fun h => by simp [hk' w.stage] at h) (fun h => by simp [hk' w.stage] at h)
    · simp only [act, Station.perform, hq, Bool.false_eq_true, if_false]
      exact guarded_rest rfl (fun _ => .inl hc) (.parks hc)
  | parks hc => exact guarded_rest rfl (fun _ => .inl hc) .nil
  | online =>
    refine guarded_rest rfl (fun h => .inl ?_) .nil
    obtain ⟨hk, he⟩ := honline _ h
    exact (hs hk rfl).resolve_right (by simp [he])
  | leaves => exact guarded_rest rfl (fun h => .inr (by simp)) .online
  | ends =>
    refine guarded_rest rfl (fun h => ?_) .nil
    exact (hres ((hrestore _).symm.trans h)).imp_right (by simp)

theorem guarded_next (h : Guarded w) (hm : w.sound (.next e)) : Guarded (w.next e) := by
  unfold next
  by_cases hl : w.station.left.isSome
  · rw [if_pos hl]
    refine h.of_same rfl rfl (Station.resume_cases w.station e).1 fun hk => ?_
    unfold stuck at hk ⊢
    rwa [parked_of_resume] at hk
  · rw [if_neg hl]
    simp only [sound, hl, Bool.false_eq_true, if_false] at hm
    have hres := h.rescued
    cases hst : w.stage with
    | leftover =>
      simp only [rescue, hst] at hres
      refine ⟨fun hk => ?_, fun acts n hb => by dsimp only at hb; split at hb <;> cases hb⟩
      have hk' : w.stuck := by
        unfold stuck at hk ⊢
        rwa [(parked_of_restore w.station w.now e).2.1] at hk
      refine (hres hk').imp_right fun hb => ?_
      have hb' : w.station.exec.backup.isNone = false := by simpa using hb
      simp only [rescue, hb', Bool.false_eq_true, if_false]
    | leftoverMode =>
      simp only [hst] at hm
      refine ⟨fun hk => ?_, nofun⟩
      -- `AT+CFUN=1` is sent, and goes through
      by_cases hw : w.stuck
      · obtain ⟨ho, hon⟩ : e.operateMode.all (· == "LPM") = true ∧ e.online = true := by simpa [hw] using hm
        simp [stuck, ho, Station.goOnline, hon] at hk
      · refine absurd ?_ hw
        unfold stuck at hk ⊢
        dsimp only at hk
        split at hk
        · by_cases hon : e.online
          · simp [Station.goOnline, hon] at hk
          · simpa [Station.goOnline, hon] using hk
        · exact hk
    | readService =>
      simp only [rescue, hst, or_false] at hres
      cases e.service with
      | none => exact ⟨fun hk => .inl (hres hk), nofun⟩
      | some has => exact ⟨fun hk => .inl (hres hk), nofun⟩
    | apply ev rounds =>
      simp only [rescue, hst, or_false] at hres
      simp only [hst] at hm
      refine guarded_round hres fun hk => ?_
      simpa [hk] using hm
    | batch acts rounds =>
      cases acts with
      | nil =>
        simp only [rescue, hst, List.not_mem_nil, or_false] at hres
        exact ⟨fun hk => .inl (hres hk), nofun⟩
      | cons a rest =>
        refine guarded_act h hst ?_
        rintro hk rfl
        simpa [hst, hk] using hm
    | ready => exact h

theorem guarded_take (h : Guarded w) : Guarded (w.take e) := by
  unfold take
  split
  · exact h
  · next hidle =>
    have hst : w.stage = .ready := by
      simp only [Bool.or_eq_true, bne_iff_ne, ne_eq, not_or, not_not] at hidle
      exact hidle.1
    have hres := h.rescued
    simp only [rescue, hst, or_false] at hres
    refine ⟨fun hk => .inl (hres ?_), nofun⟩
    unfold stuck at hk ⊢
    rwa [(parked_of_restore w.station w.clock e).2.2] at hk

theorem guarded_boot {readable : Bool} (hm : w.sound (.restart readable)) : Guarded (w.boot readable) := by
  refine ⟨fun hk => .inr ?_, nofun⟩
  have hp : w.station.parked := by
    unfold stuck at hk
    exact (Bool.and_eq_true_iff.mp hk).1
  obtain ⟨rfl, hf⟩ : readable = true ∧ w.station.file.isSome = true := by simpa [sound, hp] using hm
  simpa [rescue, boot, Station.start, Executor.new] using hf

theorem Guarded.step (h : Guarded w) (m : Move) (hm : w.sound m) : Guarded (w.step m) := by
  cases m with
  | wait elapsed => exact h.of_same rfl rfl rfl id
  | next e => exact guarded_next h hm
  | take e => exact guarded_take h
  | service has => exact h.of_same rfl rfl rfl id
  | update c =>
    simp only [World.step]
    split
    · exact h
    · exact h.of_same rfl rfl rfl id
  | activity => exact h.of_same rfl rfl rfl id
  | announce =>
    simp only [World.step]
    split
    · exact h
    · exact h.of_same rfl rfl rfl (by simp [stuck])
  | command ok =>
    simp only [World.step]
    split
    · exact h
    · -- the user's command goes through, or nothing was parked
      refine h.of_same rfl rfl ?_ ?_
      · dsimp only
        split <;> rfl
      · cases ok with
        | true => simp [stuck]
        | false =>
          have hp : w.station.parked = false := by simpa [sound] using hm
          simp [stuck, hp]
  | lpm ok =>
    cases ok with
    | true => exact h.of_same rfl rfl rfl (by simp [stuck, World.step])
    | false => exact h.of_same rfl rfl rfl id
  | restart readable => exact guarded_boot hm

theorem guarded_of_start (h : w.Start) : Guarded w :=
  .of_free (by simp [stuck, h.parked]) fun acts n hst => by simp [h.stage] at hst

/-- Out of its cycle the policy leaves no modem in its LPM, while every rescue goes well. -/
theorem not_stranded {w : World} {ms : List Move} (hs : w.Start) (hm : Along step (fun w m => w.sound m = true) w ms) :
    ¬ (exec step w ms).Stranded := by
  rintro ⟨hst, hcmd, hc, hp⟩
  have h := (invariant_along (fun _ m h hm => h.step m hm) (guarded_of_start hs) hm).rescued (by simp [stuck, hp, hcmd])
  simp [hc, rescue, hst] at h

def outOfService : World :=
  let on : Config := { Config.default with enabled := true }
  ⟨on, .new on, ⟨.new none, none, Custody.firmwareKnobs, none, false, false⟩, .leftover, 0, 0, none, [], false⟩

/-- The grace period is over: the knobs are quiet and the modem is parked. -/
def untilParked : List Move :=
  [.next .fine, .next .fine, .next .fine, .next .fine, .wait (secs 600), .take .fine, .next .fine, .next .fine, .next .fine,
    .next .fine, .next .fine]

/-- A restart while the modem is parked. -/
def restarted : List Move :=
  let inLpm : Env := { Env.fine with operateMode := some "LPM" }
  untilParked ++ [.restart true, .next inLpm, .next inLpm, .next inLpm, .next .fine, .next .fine, .next .fine]

theorem restart_unparks :
    ¬ (exec step outOfService restarted).Stranded ∧
      (exec step outOfService untilParked).station.parked ∧ (exec step outOfService restarted).stage = .ready :=
  ⟨not_stranded ⟨rfl, rfl, rfl⟩ (by decide +kernel), by decide +kernel⟩

/-- The policy is disabled in Quiet, and the modem does not answer `AT+CFUN=1`. -/
def disabled : List Move :=
  let deaf : Env := { Env.fine with online := false }
  untilParked ++
    [.update .default, .take deaf, .next deaf, .next deaf, .next deaf, .next deaf, .next deaf]

theorem failed_go_online_strands : ¬ ∀ (w : World) (ms : List Move), w.Start → ¬ (exec step w ms).Stranded := by
  intro h
  refine h outOfService disabled ⟨rfl, rfl, rfl⟩ ?_
  unfold Stranded
  decide +kernel

end World

end OpenU60.NoService
