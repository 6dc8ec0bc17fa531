/-
  OpenU60.NoService.Laws — what the no-service policy's machine keeps to, whatever it is told and when
  (`zte-agent/src/oos_policy.rs`).

  A `Watch` is the machine with ghosts: when the outage began, when the user last asked for ONLINE, and when the
  last probe began and with what window. An input is an event at an instant (with whether something is
  busy), or the time of a user's change, which the runtime tells the machine.
  - `Fit`: it has a deadline exactly when it is not idle, the knobs are quiet exactly in its cycle, and it is
    idle where the policy is disabled or suspended, or there is service.
  - `Inv`: the deadline of a grace period is no earlier than the grace after both beginnings, that of a
    probe no earlier than its window.
  - `policy_laws`: both along every run, and what it takes to quiet the knobs or to park the modem.
-/

import OpenU60.Lib.Machine
import OpenU60.NoService.Machine

namespace OpenU60.NoService

open OpenU60.Lib

/-! ## The machine alone -/

namespace Machine

structure Fit (m : Machine) : Prop where
  deadline : m.deadline.isSome ↔ m.state ≠ .idle
  knobs : m.knobsQuiet = m.state.inCycle
  active : m.state ≠ .idle → m.config.enabled = true ∧ m.suspended = false ∧ m.hasService = some false

variable {m : Machine} {now : Nat} {busy : Bool}

theorem Fit.idle (h : m.Fit) (hs : m.state = .idle) : m.deadline = none ∧ m.knobsQuiet = false := by
  refine ⟨?_, by rw [h.knobs, hs]; rfl⟩
  cases hd : m.deadline with
  | none => rfl
  | some d => exact absurd hs (h.deadline.mp (by rw [hd]; rfl))

/-- Standing down ends in the same place from everywhere. -/
theorem standDown_fst (h : m.state = .idle → m.deadline = none ∧ m.knobsQuiet = false) (goOnline : Bool) :
    (m.standDown goOnline).1 = { m with state := .idle, deadline := none, knobsQuiet := false } := by
  unfold standDown
  cases hs : m.state with
  | idle =>
    obtain ⟨hd, hk⟩ := h hs
    obtain ⟨config, state, deadline, hasService, noServiceSince, knobsQuiet, suspended, userActivity⟩ := m
    obtain rfl : state = .idle := hs
    obtain rfl : deadline = none := hd
    obtain rfl : knobsQuiet = false := hk
    rfl
  | grace | quiet | probing => rfl

theorem fit_idle (m : Machine) (hs : m.state = .idle) (hd : m.deadline = none) (hk : m.knobsQuiet = false) : m.Fit :=
  ⟨by simp [hs, hd], by rw [hs, hk]; rfl, fun h => absurd hs h⟩

theorem fit_standDown (h : m.state = .idle → m.deadline = none ∧ m.knobsQuiet = false) (goOnline : Bool) :
    (m.standDown goOnline).1.Fit := by
  rw [standDown_fst h]
  exact fit_idle _ rfl rfl rfl

theorem fit_startGrace (hk : m.knobsQuiet = false) (hactive : m.config.enabled = true ∧ m.suspended = false ∧ m.hasService = some false) (now : Nat) :
    (m.startGrace now).Fit := ⟨by simp [startGrace], hk, fun _ => hactive⟩

theorem blockedUntil_none (h : m.blockedUntil busy now = none) : busy = false ∧ ∀ t ∈ m.userActivity, t + userActivityGuard ≤ now := by
  unfold blockedUntil at h
  cases busy with
  | true => cases h
  | false =>
    refine ⟨rfl, fun t ht => ?_⟩
    rw [if_neg Bool.false_ne_true, show m.userActivity = some t from ht] at h
    dsimp only at h
    split at h
    · cases h
    · omega

theorem blockedUntil_some {u : Nat} (h : m.blockedUntil busy now = some u) : now ≤ u := by
  unfold blockedUntil at h
  split at h
  · cases h
    exact Nat.le_add_right ..
  · split at h
    · split at h
      · cases h
        omega
      · cases h
    · cases h

/-- What a timer does: nothing, put it off, or go round the cycle. -/
inductive Fires (m : Machine) (busy : Bool) (now : Nat) : Machine → List Action → Prop
  | early : Fires m busy now m []
  | spent : m.state = .idle → Fires m busy now { m with deadline := none } []
  | deferred (d u : Nat) : m.deadline = some d → d ≤ now → m.state ≠ .idle → now ≤ u → Fires m busy now { m with deadline := some u } []
  | parks (d since : Nat) : m.deadline = some d → d ≤ now → m.blockedUntil busy now = none → m.state = .grace since →
      Fires m busy now { m with state := .quiet 0, knobsQuiet := true, deadline := some (now + m.config.probeInterval 0) }
        [.setQuietKnobs, .setLpm]
  | probes (p : Nat) : m.state = .quiet p →
      Fires m busy now { m with state := .probing (p + 1), deadline := some (now + m.config.probeWindow) } [.goOnline]
  | returns (d p : Nat) : m.deadline = some d → d ≤ now → m.blockedUntil busy now = none → m.state = .probing p →
      Fires m busy now { m with state := .quiet p, deadline := some (now + m.config.probeInterval p) } [.setLpm]

theorem onTimer_fires (m : Machine) (busy : Bool) (now : Nat) : Fires m busy now (m.onTimer busy now).1 (m.onTimer busy now).2 := by
  unfold onTimer
  split
  · exact .early
  · rename_i hdue
    obtain ⟨d, hd, hle⟩ : ∃ d, m.deadline = some d ∧ d ≤ now := by
      cases hd : m.deadline with
      | none =>
        rw [hd] at hdue
        exact absurd rfl hdue
      | some d =>
        rw [hd] at hdue
        exact ⟨d, rfl, by simpa using hdue⟩
    split
    · rename_i hidle
      exact .spent hidle
    · rename_i hactive
      split
      · rename_i u hu
        exact .deferred d u hd hle hactive (blockedUntil_some hu)
      · rename_i hfree
        split
        · exact .early
        · rename_i since hs
          exact .parks d since hd hle hfree hs
        · rename_i p hs
          exact .probes p hs
        · rename_i p hs
          exact .returns d p hd hle hfree hs

theorem Fit.timer (h : m.Fit) (busy : Bool) (now : Nat) : (m.onTimer busy now).1.Fit := by
  have hfires := onTimer_fires m busy now
  revert hfires
  generalize (m.onTimer busy now).1 = m'
  generalize (m.onTimer busy now).2 = actions
  intro hfires
  cases hfires with
  | early => exact h
  | spent hs => exact fit_idle _ hs rfl (h.idle hs).2
  | deferred d u _ _ hs _ => exact ⟨iff_of_true rfl hs, h.knobs, h.active⟩
  | parks d since _ _ _ hs => exact ⟨by simp, rfl, fun _ => h.active (by rw [hs]; nofun)⟩
  | probes p hs => exact ⟨by simp, h.knobs.trans (by rw [hs]; rfl), fun _ => h.active (by rw [hs]; nofun)⟩
  | returns d p _ _ _ hs => exact ⟨by simp, h.knobs.trans (by rw [hs]; rfl), fun _ => h.active (by rw [hs]; nofun)⟩

theorem Fit.service (h : m.Fit) (has : Bool) (now : Nat) : (m.onService has now).1.Fit := by
  unfold onService
  cases has with
  | true =>
    rw [if_pos rfl]
    unfold recover
    refine fit_standDown ?_ true
    exact h.idle
  | false =>
    rw [if_neg Bool.false_ne_true]
    dsimp only
    split
    · rename_i hstart
      obtain ⟨henabled, hidle⟩ := Bool.and_eq_true_iff.mp hstart
      obtain ⟨henabled, hsuspended⟩ := Bool.and_eq_true_iff.mp henabled
      refine fit_startGrace ?_ ?_ now
      · exact (h.idle (by simpa using hidle)).2
      · exact ⟨henabled, by simpa using hsuspended, rfl⟩
    · exact ⟨h.deadline, h.knobs, fun hs => ⟨(h.active hs).1, (h.active hs).2.1, rfl⟩⟩

/-- Out of the cycle, where it is in one. -/
def leave (m : Machine) : Machine × List Action := if m.state.inCycle then m.standDown false else (m, [])

theorem Fit.leave (h : m.Fit) : m.leave.1.Fit ∧ m.leave.1.knobsQuiet = false ∧ m.leave.1.suspended = m.suspended := by
  unfold Machine.leave
  split
  · rw [standDown_fst h.idle]
    exact ⟨fit_idle _ rfl rfl rfl, rfl, rfl⟩
  · rename_i hcycle
    exact ⟨h, h.knobs.trans (by simpa using hcycle), rfl⟩

theorem onUserMode_true (m : Machine) (now : Nat) : m.onUserMode true now =
    (fun r : Machine × List Action => if r.1.config.enabled && r.1.hasService = some false then
      ({ r.1 with noServiceSince := some (r.1.noServiceSince.getD now) }.startGrace now, r.2) else r)
      { m with userActivity := some now, suspended := false }.leave := rfl

theorem Fit.asked (h : m.Fit) (now : Nat) : Fit { m with userActivity := some now, suspended := false } :=
  ⟨h.deadline, h.knobs, fun hs => ⟨(h.active hs).1, rfl, (h.active hs).2.2⟩⟩

theorem Fit.userMode (h : m.Fit) (online : Bool) (now : Nat) : (m.onUserMode online now).1.Fit := by
  cases online with
  | false =>
    unfold onUserMode
    rw [Bool.not_false, if_pos rfl]
    refine fit_standDown ?_ false
    exact h.idle
  | true =>
    obtain ⟨hfit, hknobs, hsuspended⟩ := (h.asked now).leave
    rw [onUserMode_true]
    generalize ({ m with userActivity := some now, suspended := false } : Machine).leave = r at hfit hknobs hsuspended
    dsimp only
    split
    · rename_i hstart
      obtain ⟨henabled, hservice⟩ := Bool.and_eq_true_iff.mp hstart
      refine fit_startGrace ?_ ?_ now
      · exact hknobs
      · exact ⟨henabled, hsuspended, of_decide_eq_true hservice⟩
    · exact hfit

theorem Fit.config (h : m.Fit) (config : Config) (now : Nat) : (m.onConfig config now).1.Fit := by
  unfold onConfig
  dsimp only
  split
  · refine fit_standDown ?_ true
    exact h.idle
  · rename_i henabled
    have henabled : config.enabled = true := by simpa using henabled
    have hkept : Fit { m with config } := ⟨h.deadline, h.knobs, fun hs => ⟨henabled, (h.active hs).2⟩⟩
    split
    · rename_i since hs
      exact ⟨iff_of_true rfl (by rw [show m.state = .grace since from hs]; nofun), h.knobs, hkept.active⟩
    · rename_i hs
      split
      · rename_i hstart
        obtain ⟨hsuspended, hservice⟩ := Bool.and_eq_true_iff.mp hstart
        refine fit_startGrace ?_ ?_ now
        · exact (h.idle hs).2
        · exact ⟨henabled, by simpa using hsuspended, of_decide_eq_true hservice⟩
      · exact hkept
    · exact hkept

theorem Fit.step (h : m.Fit) (e : Event) (busy : Bool) (now : Nat) : (m.step e busy now).1.Fit := by
  cases e with
  | service has => exact h.service has now
  | userMode online => exact h.userMode online now
  | standby =>
    exact fit_standDown h.idle false
  | timer => exact h.timer busy now
  | config config => exact h.config config now

theorem standDown_state (m : Machine) (goOnline : Bool) : (m.standDown goOnline).1.state = .idle := by
  unfold standDown
  cases hs : m.state with
  | idle => exact hs
  | grace | quiet | probing => rfl

theorem standDown_hasService (m : Machine) (goOnline : Bool) : (m.standDown goOnline).1.hasService = m.hasService := by
  unfold standDown
  cases m.state with
  | idle | grace | quiet | probing => rfl

theorem step_hasService (m : Machine) (e : Event) (busy : Bool) (now : Nat) :
    (m.step e busy now).1.hasService = match e with | .service has => some has | _ => m.hasService := by
  cases e with
  | service has =>
    show (m.onService has now).1.hasService = some has
    unfold onService
    cases has with
    | true => exact standDown_hasService _ true
    | false =>
      rw [if_neg Bool.false_ne_true]
      dsimp only
      split
      · rfl
      · rfl
  | userMode online =>
    cases online with
    | false => exact standDown_hasService _ false
    | true =>
      show (m.onUserMode true now).1.hasService = m.hasService
      have hleave : ({ m with userActivity := some now, suspended := false } : Machine).leave.1.hasService = m.hasService := by
        unfold leave
        split
        · exact standDown_hasService _ false
        · rfl
      rw [onUserMode_true]
      dsimp only
      split
      · exact hleave
      · exact hleave
  | standby => exact standDown_hasService _ false
  | timer =>
    show (m.onTimer busy now).1.hasService = m.hasService
    have hfires := onTimer_fires m busy now
    generalize (m.onTimer busy now).1 = m' at hfires
    generalize (m.onTimer busy now).2 = actions at hfires
    cases hfires with
    | early | spent | deferred | parks | probes | returns => rfl
  | config config =>
    show (m.onConfig config now).1.hasService = m.hasService
    unfold onConfig
    dsimp only
    split
    · exact standDown_hasService _ true
    · split
      · rfl
      · split
        · rfl
        · rfl
      · rfl

/-- A grace period that a step leaves began now, or the step found it and the user has not asked to be online; and it is
    still to be waited for. -/
theorem Fit.graced (h : m.Fit) {e : Event} {since : Nat} (hs : (m.step e busy now).1.state = .grace since) :
    (since = now ∨ m.state = .grace since ∧ e ≠ .userMode true) ∧
      ((m.state = .grace since → ∀ d ∈ m.deadline, since + m.config.grace ≤ d) →
        ∀ d ∈ (m.step e busy now).1.deadline, since + (m.step e busy now).1.config.grace ≤ d) := by
  have hstart : ∀ {m' : Machine}, (m'.startGrace now).state = .grace since →
      since = now ∧ ∀ d ∈ (m'.startGrace now).deadline, since + (m'.startGrace now).config.grace ≤ d := by
    intro m' hs'
    obtain rfl := State.grace.inj hs'
    refine ⟨rfl, fun d hd => ?_⟩
    obtain rfl := Option.some.inj hd
    exact Nat.le_refl _
  have hdown : ∀ (m' : Machine) (goOnline : Bool), (m'.standDown goOnline).1.state ≠ .grace since := by
    intro m' goOnline heq
    rw [standDown_state] at heq
    cases heq
  cases e with
  | service has =>
    change (m.onService has now).1.state = _ at hs
    show _ ∧ (_ → ∀ d ∈ (m.onService has now).1.deadline, since + (m.onService has now).1.config.grace ≤ d)
    unfold onService at hs ⊢
    cases has with
    | true =>
      rw [if_pos rfl] at hs
      exact absurd hs (hdown _ true)
    | false =>
      rw [if_neg Bool.false_ne_true] at hs ⊢
      dsimp only at hs ⊢
      split at hs
      · rename_i hif
        rw [if_pos hif]
        exact ⟨.inl (hstart hs).1, fun _ => (hstart hs).2⟩
      · rename_i hif
        rw [if_neg hif]
        exact ⟨.inr ⟨hs, nofun⟩, fun hdue => hdue hs⟩
  | userMode online =>
    cases online with
    | false => exact absurd hs (hdown _ false)
    | true =>
      change (m.onUserMode true now).1.state = _ at hs
      show _ ∧ (_ → ∀ d ∈ (m.onUserMode true now).1.deadline, since + (m.onUserMode true now).1.config.grace ≤ d)
      have hleft := (h.asked now).leave.1
      rw [onUserMode_true] at hs ⊢
      generalize ({ m with userActivity := some now, suspended := false } : Machine).leave = r at hs hleft
      dsimp only at hs ⊢
      split at hs
      · rename_i hif
        rw [if_pos hif]
        exact ⟨.inl (hstart hs).1, fun _ => (hstart hs).2⟩
      · rename_i hif
        have hactive := hleft.active (by rw [hs]; nofun)
        exact absurd (Bool.and_eq_true_iff.mpr ⟨hactive.1, decide_eq_true hactive.2.2⟩) hif
  | standby => exact absurd hs (hdown _ false)
  | timer =>
    have hfires := onTimer_fires m busy now
    change (m.onTimer busy now).1.state = _ at hs
    show _ ∧ (_ → ∀ d ∈ (m.onTimer busy now).1.deadline, since + (m.onTimer busy now).1.config.grace ≤ d)
    generalize (m.onTimer busy now).1 = m' at hs hfires
    generalize (m.onTimer busy now).2 = actions at hfires
    cases hfires with
    | early => exact ⟨.inr ⟨hs, nofun⟩, fun hdue => hdue hs⟩
    | spent hidle => exact absurd (hidle.symm.trans hs) nofun
    | deferred d u hd hle _ hu =>
      refine ⟨.inr ⟨hs, nofun⟩, fun hdue u' hu' => ?_⟩
      obtain rfl := Option.some.inj hu'
      have := hdue hs d hd
      show since + m.config.grace ≤ u
      omega
    | parks | probes | returns => cases hs
  | config config =>
    change (m.onConfig config now).1.state = _ at hs
    show _ ∧ (_ → ∀ d ∈ (m.onConfig config now).1.deadline, since + (m.onConfig config now).1.config.grace ≤ d)
    unfold onConfig at hs ⊢
    dsimp only at hs ⊢
    split at hs
    · exact absurd hs (hdown _ true)
    · rename_i henabled
      rw [if_neg henabled]
      cases hstate : m.state with
      | grace began =>
        simp only [hstate] at hs ⊢
        obtain rfl := State.grace.inj hs
        refine ⟨.inr ⟨rfl, nofun⟩, fun _ d hd => ?_⟩
        obtain rfl := Option.some.inj hd
        exact Nat.le_max_left ..
      | idle =>
        simp only [hstate] at hs ⊢
        split at hs
        · rename_i hif
          rw [if_pos hif]
          exact ⟨.inl (hstart hs).1, fun _ => (hstart hs).2⟩
        · cases hs
      | quiet | probing =>
        simp only [hstate] at hs
        cases hs

/-- A probe that a step leaves began now, or the step found it, and it is not cut short. -/
theorem probed {e : Event} {p : Nat} (hs : (m.step e busy now).1.state = .probing p) :
    (e = .timer ∧ .goOnline ∈ (m.step e busy now).2 ∧ (m.step e busy now).1.deadline = some (now + m.config.probeWindow)) ∨
      (m.state = .probing p ∧ ¬(e = .timer ∧ .goOnline ∈ (m.step e busy now).2) ∧
        ∀ d' ∈ (m.step e busy now).1.deadline, ∃ d ∈ m.deadline, d ≤ d') := by
  have hdown : ∀ (m' : Machine) (goOnline : Bool), (m'.standDown goOnline).1.state ≠ .probing p := by
    intro m' goOnline heq
    rw [standDown_state] at heq
    cases heq
  have hkept : ∀ d' ∈ m.deadline, ∃ d ∈ m.deadline, d ≤ d' := fun d' hd' => ⟨d', hd', Nat.le_refl _⟩
  cases e with
  | service has =>
    change (m.onService has now).1.state = _ at hs
    refine .inr ?_
    show _ ∧ _ ∧ ∀ d' ∈ (m.onService has now).1.deadline, _
    unfold onService at hs ⊢
    cases has with
    | true =>
      rw [if_pos rfl] at hs
      exact absurd hs (hdown _ true)
    | false =>
      rw [if_neg Bool.false_ne_true] at hs ⊢
      dsimp only at hs ⊢
      split at hs
      · cases hs
      · rename_i hif
        rw [if_neg hif]
        exact ⟨hs, nofun, hkept⟩
  | userMode online =>
    cases online with
    | false => exact absurd hs (hdown _ false)
    | true =>
      change (m.onUserMode true now).1.state = _ at hs
      rw [onUserMode_true] at hs
      dsimp only at hs
      split at hs
      · cases hs
      · unfold Machine.leave at hs
        split at hs
        · exact absurd hs (hdown _ false)
        · rename_i hcycle
          rw [show m.state = .probing p from hs] at hcycle
          exact absurd rfl hcycle
  | standby => exact absurd hs (hdown _ false)
  | timer =>
    have hfires := onTimer_fires m busy now
    change (m.onTimer busy now).1.state = _ at hs
    show (_ ∧ .goOnline ∈ (m.onTimer busy now).2 ∧ (m.onTimer busy now).1.deadline = _) ∨
      _ ∧ ¬(_ ∧ .goOnline ∈ (m.onTimer busy now).2) ∧ ∀ d' ∈ (m.onTimer busy now).1.deadline, _
    generalize (m.onTimer busy now).1 = m' at hs hfires
    generalize (m.onTimer busy now).2 = actions at hfires
    cases hfires with
    | early => exact .inr ⟨hs, nofun, hkept⟩
    | spent hidle => exact absurd (hidle.symm.trans hs) nofun
    | deferred d u hd hle _ hu =>
      refine .inr ⟨hs, nofun, fun u' hu' => ⟨d, hd, ?_⟩⟩
      obtain rfl := Option.some.inj hu'
      omega
    | parks | returns => cases hs
    | probes => exact .inl ⟨rfl, List.mem_singleton.mpr rfl, rfl⟩
  | config config =>
    change (m.onConfig config now).1.state = _ at hs
    refine .inr ?_
    show _ ∧ _ ∧ ∀ d' ∈ (m.onConfig config now).1.deadline, _
    unfold onConfig at hs ⊢
    dsimp only at hs ⊢
    split at hs
    · exact absurd hs (hdown _ true)
    · rename_i henabled
      rw [if_neg henabled]
      cases hstate : m.state with
      | grace =>
        simp only [hstate] at hs
        cases hs
      | idle =>
        simp only [hstate] at hs
        split at hs
        · cases hs
        · cases hs
      | quiet | probing =>
        simp only [hstate] at hs ⊢
        exact ⟨hs, nofun, hkept⟩

end Machine

/-! ## The watch -/

/-- An event, or the time of the user's last change, as the runtime tells it. -/
inductive Input where
  | told (at_ : Option Nat)
  | event (e : Event) (busy : Bool) (now : Nat)

structure Watch where
  machine : Machine
  clock : Nat
  /-- Since when service is known to be gone. -/
  outage : Option Nat
  online : Option Nat
  /-- When the last probe began, and its window. -/
  probe : Option (Nat × Nat)

namespace Watch

def step (w : Watch) : Input → Watch
  | .told at_ => { w with machine := { w.machine with userActivity := at_ } }
  | .event e busy now =>
    { machine := (w.machine.step e busy now).1
      clock := now
      outage := match e with
        | .service true => none
        | .service false => some (w.outage.getD now)
        | _ => w.outage
      online := if e = .userMode true then some now else w.online
      probe := if e = .timer ∧ .goOnline ∈ (w.machine.step e busy now).2 then some (now, w.machine.config.probeWindow) else w.probe }

def start (config : Config) (now : Nat) : Watch := ⟨.new config, now, none, none, none⟩

/-- Time does not fall. -/
def Timed (w : Watch) : Input → Prop
  | .told _ => True
  | .event _ _ now => w.clock ≤ now

/-- To quiet the knobs or park the modem takes a timer, nothing busy, no recent change of the user's, and the whole
    grace since the outage and the user's last wish to be online; or, to park it again, a whole probe. -/
def Careful (w : Watch) : Input → Prop
  | .told _ => True
  | .event e busy now => ∀ a ∈ (w.machine.step e busy now).2, a = .setQuietKnobs ∨ a = .setLpm →
      e = .timer ∧ busy = false ∧ (∀ t ∈ w.machine.userActivity, t + userActivityGuard ≤ now) ∧
        ((∃ began, w.outage = some began ∧ began + w.machine.config.grace ≤ now ∧ ∀ t ∈ w.online, t + w.machine.config.grace ≤ now) ∨
          a = .setLpm ∧ ∃ began window, w.probe = some (began, window) ∧ began + window ≤ now)

structure Inv (w : Watch) : Prop where
  fit : w.machine.Fit
  outage : w.machine.hasService = some false ↔ w.outage.isSome
  pastOutage : ∀ t ∈ w.outage, t ≤ w.clock
  pastOnline : ∀ t ∈ w.online, t ≤ w.clock
  grace : ∀ since, w.machine.state = .grace since → (∀ t ∈ w.outage, t ≤ since) ∧ (∀ t ∈ w.online, t ≤ since) ∧
    ∀ d ∈ w.machine.deadline, since + w.machine.config.grace ≤ d
  probing : ∀ p, w.machine.state = .probing p → ∃ began window, w.probe = some (began, window) ∧ ∀ d ∈ w.machine.deadline, began + window ≤ d

variable {w : Watch}

theorem Inv.careful (h : w.Inv) (i : Input) : w.Careful i := by
  cases i with
  | told => trivial
  | event e busy now =>
    intro a ha hkind
    have hemits := Machine.step_emits w.machine e busy now
    generalize hactions : (w.machine.step e busy now).2 = actions at ha hemits
    generalize (w.machine.step e busy now).1.state = s' at hemits
    have htimer : e = .timer := by
      cases hemits with
      | quiet => cases ha
      | begins _ he | probes _ he | parks _ he => exact he
      | leaves => simp at ha; rcases hkind with rfl | rfl <;> simp at ha
      | ends => simp at ha; rcases hkind with rfl | rfl <;> simp at ha
    subst htimer
    have hfires := Machine.onTimer_fires w.machine busy now
    rw [show (w.machine.onTimer busy now).2 = actions from hactions] at hfires
    generalize (w.machine.onTimer busy now).1 = m' at hfires
    cases hfires with
    | early | spent | deferred => cases ha
    | parks d since hd hle hfree hs =>
      obtain ⟨hbusy, hguard⟩ := Machine.blockedUntil_none hfree
      obtain ⟨houtage, honline, hgrace⟩ := h.grace since hs
      have hdue := hgrace d hd
      obtain ⟨began, hbegan⟩ := Option.isSome_iff_exists.mp (h.outage.mp (h.fit.active (by rw [hs]; nofun)).2.2)
      refine ⟨rfl, hbusy, hguard, .inl ⟨began, hbegan, ?_, fun t ht => ?_⟩⟩
      · have := houtage began hbegan
        omega
      · have := honline t ht
        omega
    | probes p hs =>
      rw [List.mem_singleton.mp ha] at hkind
      rcases hkind with hkind | hkind <;> cases hkind
    | returns d p hd hle hfree hs =>
      obtain ⟨hbusy, hguard⟩ := Machine.blockedUntil_none hfree
      obtain ⟨began, window, hprobe, hwindow⟩ := h.probing p hs
      have hover := hwindow d hd
      exact ⟨rfl, hbusy, hguard, .inr ⟨List.mem_singleton.mp ha, began, window, hprobe, by omega⟩⟩

theorem Inv.step (h : w.Inv) {i : Input} (htimed : w.Timed i) : (w.step i).Inv := by
  cases i with
  | told at_ =>
    exact { h with fit := { h.fit with } }
  | event e busy now =>
    have hclock : w.clock ≤ now := htimed
    have hservice := Machine.step_hasService w.machine e busy now
    have hpastOutage : ∀ t ∈ (w.step (.event e busy now)).outage, t ≤ now := by
      intro t ht
      have hold : ∀ t' ∈ w.outage, t' ≤ now := fun t' ht' => Nat.le_trans (h.pastOutage t' ht') hclock
      cases e with
      | service has =>
        cases has with
        | true => cases ht
        | false =>
          obtain rfl := Option.some.inj ht
          cases houtage : w.outage with
          | none => exact Nat.le_refl _
          | some began => exact hold began houtage
      | userMode | standby | timer | config => exact hold t ht
    have hpastOnline : ∀ t ∈ (w.step (.event e busy now)).online, t ≤ now := by
      intro t ht
      change t ∈ ite _ _ _ at ht
      split at ht
      · obtain rfl := Option.some.inj ht
        exact Nat.le_refl _
      · exact Nat.le_trans (h.pastOnline t ht) hclock
    refine ⟨h.fit.step e busy now, ?_, hpastOutage, hpastOnline, fun since hs => ?_, fun p hs => ?_⟩
    · show (w.machine.step e busy now).1.hasService = some false ↔ _
      rw [hservice]
      cases e with
      | service has =>
        cases has with
        | true => exact ⟨nofun, nofun⟩
        | false => exact iff_of_true rfl rfl
      | userMode | standby | timer | config => exact h.outage
    · obtain ⟨hbegan, hdue⟩ := h.fit.graced hs
      refine ⟨fun t ht => ?_, fun t ht => ?_, hdue fun hs' => (h.grace since hs').2.2⟩
      · rcases hbegan with rfl | ⟨hs', -⟩
        · exact hpastOutage t ht
        · refine (h.grace since hs').1 t ?_
          obtain ⟨began, hgone⟩ := Option.isSome_iff_exists.mp (h.outage.mp (h.fit.active (by rw [hs']; nofun)).2.2)
          cases e with
          | service has =>
            cases has with
            | true => cases ht
            | false =>
              -- still the same outage
              obtain rfl := Option.some.inj ht
              rw [hgone]
              rfl
          | userMode | standby | timer | config => exact ht
      · rcases hbegan with rfl | ⟨hs', hother⟩
        · exact hpastOnline t ht
        · rw [show (w.step (.event e busy now)).online = w.online from if_neg hother] at ht
          exact (h.grace since hs').2.1 t ht
    · rcases Machine.probed hs with ⟨he, hgo, hdeadline⟩ | ⟨hs', hno, hlater⟩
      · refine ⟨now, w.machine.config.probeWindow, if_pos ⟨he, hgo⟩, fun d hd => ?_⟩
        obtain rfl := Option.some.inj (hdeadline.symm.trans hd)
        exact Nat.le_refl _
      · obtain ⟨began, window, hprobe, hwindow⟩ := h.probing p hs'
        refine ⟨began, window, (if_neg hno).trans hprobe, fun d' hd' => ?_⟩
        obtain ⟨d, hd, hle⟩ := hlater d' hd'
        exact Nat.le_trans (hwindow d hd) hle

theorem inv_start (config : Config) (now : Nat) : (start config now).Inv where
  fit := Machine.fit_idle _ rfl rfl rfl
  outage := ⟨nofun, nofun⟩
  pastOutage := nofun
  pastOnline := nofun
  grace := nofun
  probing := nofun

end Watch

open Watch in
/-- However it is told of service, of the user's wishes, of the modem and of its own configuration: it waits exactly when
    it is not idle, is idle when it has nothing to do, quiets the knobs in its cycle only, and is careful at every
    step. -/
theorem policy_laws (config : Config) (now : Nat) (inputs : List Input)
    (h : Machine.Along Watch.step Timed (start config now) inputs) :
    Machine.Along Watch.step Careful (start config now) inputs ∧
      let m := (Machine.exec Watch.step (start config now) inputs).machine
      (m.deadline.isSome ↔ m.state ≠ .idle) ∧
        (m.config.enabled = false ∨ m.suspended = true ∨ m.hasService = some true → m.state = .idle) ∧
        (m.knobsQuiet = true ↔ (∃ p, m.state = .quiet p) ∨ ∃ p, m.state = .probing p) := by
  refine ⟨Machine.along_of_invariant (fun w i hw hi => hw.step hi) (fun w i hw _ => hw.careful i) (inv_start config now) h, ?_⟩
  have hinv : (Machine.exec Watch.step (start config now) inputs).Inv :=
    Machine.invariant_along (I := Inv) (fun w i hw hi => hw.step hi) (inv_start config now) h
  have hfit := hinv.fit
  generalize (Machine.exec Watch.step (start config now) inputs).machine = m at hfit ⊢
  refine ⟨hfit.deadline, fun hwhy => ?_, ?_⟩
  · by_cases hs : m.state = .idle
    · exact hs
    · obtain ⟨henabled, hsuspended, hservice⟩ := hfit.active hs
      rw [henabled, hsuspended, hservice] at hwhy
      simp at hwhy
  · rw [hfit.knobs]
    cases m.state with
    | idle | grace => exact ⟨nofun, by rintro (⟨_, h⟩ | ⟨_, h⟩) <;> cases h⟩
    | quiet p => exact iff_of_true rfl (.inl ⟨p, rfl⟩)
    | probing p => exact iff_of_true rfl (.inr ⟨p, rfl⟩)

/-- Ten minutes without service, and the knobs are quiet. -/
theorem parked_after_grace : (Machine.exec Watch.step (Watch.start ⟨true, 10, 20, 3⟩ 0)
    [.event (.service false) false 0, .event .timer false (secs 600)]).machine.knobsQuiet = true :=
  (policy_laws ⟨true, 10, 20, 3⟩ 0 [.event (.service false) false 0, .event .timer false (secs 600)]
    ⟨Nat.zero_le _, Nat.zero_le _, trivial⟩).2.2.2.mpr (.inl ⟨0, by decide⟩)

end OpenU60.NoService
