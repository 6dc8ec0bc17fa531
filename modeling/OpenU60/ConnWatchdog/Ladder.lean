/-
  OpenU60.ConnWatchdog.Ladder — runs of the watchdog's machine: what holds of every rung
  that is run, and how the runs are spaced.

  - `ladder_respected_iff`: a rung is run only with the watchdog enabled and the WAN up,
    with nothing busy and no recent user change, in the order of the ladder, with its
    cooldown and its daily cap, in exactly the runs where no deferred reboot falls due
    after the owner has turned `allow_reboot` off.
  - `deferred_reboot_ignores_setting`: `on_config` leaves the deferred rung, and the timer
    runs it.
-/

import OpenU60.ConnWatchdog.Machine
import OpenU60.Lib.Machine

namespace OpenU60.ConnWatchdog

open OpenU60.Lib OpenU60.Lib.Machine OpenU60.Lib.Window

/-- Ghost: the last rung that was run in the current ladder. -/
structure Ran where
  rung : Rung
  actedAt : Int
  /-- A probe has failed since. -/
  failed : Bool
  deriving DecidableEq

structure Ladder where
  m : Machine
  now : Int
  /-- Ghost: every rung run. -/
  ran : List (Rung × Int)
  last : Option Ran
  deriving DecidableEq

structure Input where
  elapsed : Nat
  event : Event
  userActivity : Option Int
  busy : Bool

namespace Ladder

variable (l : Ladder) (i : Input)

/-- When the event is handled. -/
def at' : Int := l.now + i.elapsed

def machine : Machine := { l.m with userActivity := i.userActivity }

def outcome : Machine × Option Rung := (l.machine i).step i.event i.busy (l.at' i)

/-- The state after a step of the machine; a ladder ends where it is idle again. -/
def after (r : Machine × Option Rung) : Ladder :=
  { m := r.1
    now := l.at' i
    ran := l.ran ++ (r.2.map fun rung => (rung, l.at' i)).toList
    last :=
      match r.2 with
      | some rung => some ⟨rung, l.at' i, false⟩
      | none =>
        if r.1.state = .idle then none
        else l.last.map fun p => { p with failed := p.failed || i.event = .probe false } }

def step : Ladder := l.after i (l.outcome i)

/-- The rung below ran in this ladder at least the recovery window ago, and a probe has
    failed since. -/
def Climbs (last : Option Ran) (rung : Rung) (now : Int) (failing : Bool) : Prop :=
  ∃ p, last = some p ∧ p.rung.next true = some rung ∧ p.actedAt + recoveryWindow ≤ now ∧ (p.failed || failing) = true

/-- The guards of a rung that the step runs. -/
structure Guards (rung : Rung) : Prop where
  enabled : l.m.config.enabled
  wan : l.m.wanConnected = some true
  busy : i.busy = false
  user : ∀ t, i.userActivity = some t → t + userActivityGuard ≤ l.at' i
  reboot : rung = .reboot → l.m.config.allowReboot
  order : rung ≠ .pdnReconnect → Climbs l.last rung (l.at' i) (i.event = .probe false)

def Respects : Prop := ∀ rung, (l.outcome i).2 = some rung → Guards l i rung

/-- The deferred reboot rung is due and nothing blocks it. -/
def rebootFallsDue : Bool :=
  i.event = .timer && (match l.m.state with | .cooling .reboot _ => true | _ => false) && l.m.deadline.any (l.at' i ≥ ·) &&
    ((l.machine i).blockedUntil .reboot i.busy (l.at' i)).isNone

/-- When a deferred reboot falls due, the owner still allows it. -/
def heeds : Bool := !l.rebootFallsDue i || l.m.config.allowReboot

/-- Cooldowns between runs of a rung, and its daily cap. -/
structure Paced (ran : List (Rung × Int)) : Prop where
  cooldown : ran.Pairwise fun x y => x.1 = y.1 → x.2 + x.1.cooldown ≤ y.2
  cap : ∀ rung cap, rung.dailyCap = some cap → Capped rung day cap ran

/-- A machine that has just been made, with whatever history it was given. -/
structure Start (l : Ladder) : Prop where
  state : l.m.state = .idle
  ran : l.ran = []

/-! ## The invariant -/

structure Fit (l : Ladder) : Prop where
  enabled : l.m.state ≠ .idle → l.m.config.enabled
  wan : ∀ r u, l.m.state = .cooling r u → l.m.wanConnected = some true
  due : ∀ r t f d, l.m.state = .waiting r t f → l.m.deadline = some d → d = t + recoveryWindow
  acted : ∀ r t f, l.m.state = .waiting r t f → ∃ b, l.last = some ⟨r, t, b⟩ ∧ (0 < f → b = true)
  climbs : ∀ r u, l.m.state = .cooling r u → r ≠ .pdnReconnect → Climbs l.last r l.now false
  history : ∃ seeds, l.m.history = seeds ++ l.ran
  past : ∀ x ∈ l.ran, x.2 ≤ l.now
  paced : Paced l.ran

variable {l : Ladder} {i : Input}

theorem next_true {r rung : Rung} {b : Bool} (h : r.next b = some rung) : r.next true = some rung := by
  cases r <;> cases b <;> first | exact h | cases h

theorem next_reboot {r : Rung} {b : Bool} (h : r.next b = some .reboot) : b = true := by
  cases r <;> cases b <;> first | rfl | cases h

theorem now_le (l : Ladder) (i : Input) : l.now ≤ l.at' i := by
  unfold at'
  omega

/-- A rung that is asked for has its guards, but for what `tryAct` checks and the owner's
    leave for a deferred reboot. -/
theorem asks_guards (h : Fit l) {rung : Rung} (ha : (l.machine i).Asks (l.at' i) i.event rung) :
    l.m.config.enabled ∧ l.m.wanConnected = some true ∧
      (rung = .reboot → l.m.config.allowReboot ∨ i.event = .timer ∧ ∃ u d, l.m.state = .cooling rung u ∧ l.m.deadline = some d ∧ d ≤ l.at' i) ∧
      (rung ≠ .pdnReconnect → Climbs l.last rung (l.at' i) (i.event = .probe false)) := by
  generalize he : i.event = e at ha ⊢
  cases ha with
  | trigger hs hen hw => exact ⟨hen, hw, by simp, by simp⟩
  | @failing below rung t f hs ht hn hw =>
    obtain ⟨b, hlast, -⟩ := h.acted _ _ _ hs
    refine ⟨h.enabled (by rw [show l.m.state = _ from hs]; simp), hw, ?_, fun _ => ⟨_, hlast, next_true hn, ht, by simp⟩⟩
    rintro rfl
    exact .inl (next_reboot hn)
  | @window below rung t d f hs hf hd ht hn hw =>
    obtain ⟨b, hlast, hb⟩ := h.acted _ _ _ hs
    obtain rfl := h.due _ _ _ _ hs hd
    refine ⟨h.enabled (by rw [show l.m.state = _ from hs]; simp), hw, ?_, fun _ => ⟨_, hlast, next_true hn, ht, by simp [hb hf]⟩⟩
    rintro rfl
    exact .inl (next_reboot hn)
  | @deferred rung u d hs hd ht =>
    refine ⟨h.enabled (by rw [show l.m.state = _ from hs]; simp), h.wan _ _ hs, fun _ => .inr ⟨rfl, u, d, hs, hd, ht⟩, fun hne => ?_⟩
    obtain ⟨p, hp, hn, hw, hf⟩ := h.climbs _ _ hs hne
    exact ⟨p, hp, hn, hw.trans (now_le l i), by simpa using hf⟩

theorem outcome_does (l : Ladder) (i : Input) : (l.machine i).Does i.event i.busy (l.at' i) (l.outcome i) :=
  Machine.step_does _ _ _ _

theorem respects_of_heeds (h : Fit l) (hh : l.heeds i) : Respects l i := by
  unfold Respects
  have hd := outcome_does l i
  generalize l.outcome i = r at hd
  cases hd with
  | stays m' hst => nofun
  | asks m' rung ha hm =>
    intro rung' hrun
    rcases Machine.tryAct_cases m' rung i.busy (l.at' i) with ⟨u, htry⟩ | ⟨hblock, htry⟩
    · rw [htry] at hrun
      cases hrun
    · rw [htry] at hrun
      obtain rfl := Option.some.inj hrun
      obtain ⟨hen, hw, hre, hcl⟩ := asks_guards h ha
      rw [hm.blockedUntil] at hblock
      have hfree := Machine.free_of_unblocked hblock
      refine ⟨hen, hw, hfree.busy, hfree.user, fun hr => ?_, hcl⟩
      rcases hre hr with hallow | ⟨he, u, d, hs, hdl, hle⟩
      · exact hallow
      · -- the deferred reboot falls due: the owner still allows it
        subst hr
        have hdue : l.rebootFallsDue i = true := by simp [rebootFallsDue, he, hs, hdl, hle, hblock]
        simpa [heeds, hdue] using hh

theorem heeds_of_respects (hr : Respects l i) : l.heeds i := by
  unfold heeds
  cases hdue : l.rebootFallsDue i with
  | false => rfl
  | true =>
    simp only [rebootFallsDue, Bool.and_eq_true, decide_eq_true_eq, Option.isNone_iff_eq_none] at hdue
    obtain ⟨⟨⟨he, hs⟩, hd⟩, hb⟩ := hdue
    -- the timer runs the reboot rung
    have hrun : (l.outcome i).2 = some .reboot := by
      cases hst : l.m.state with
      | idle => simp [hst] at hs
      | waiting r t f => simp [hst] at hs
      | cooling r u =>
        cases r with
        | reboot =>
          have hb' : Machine.blockedUntil { l.machine i with state := .cooling .reboot u, deadline := none } .reboot i.busy (l.at' i) = none := hb
          have hstate : (l.machine i).state = .cooling .reboot u := hst
          have hdl : (l.machine i).deadline.any (l.at' i ≥ ·) = true := hd
          simp only [outcome, he, Machine.step, Machine.onTimer, hdl, Bool.not_true, Bool.false_eq_true, if_false, hstate,
            Machine.tryAct]
          rw [hb']
        | pdnReconnect => simp [hst] at hs
        | lpmOnline => simp [hst] at hs
        | modemReset => simp [hst] at hs
    exact (hr .reboot hrun).reboot rfl

theorem Climbs.mono {last : Option Ran} {rung : Rung} {now now' : Int} {f g : Bool} (h : Climbs last rung now f) (hn : now ≤ now')
    (hfg : f → g) : Climbs (last.map fun p => { p with failed := p.failed || g }) rung now' false := by
  obtain ⟨p, rfl, hnext, ht, hf⟩ := h
  refine ⟨_, rfl, hnext, ht.trans hn, ?_⟩
  cases hp : p.failed with
  | true => simp [hp]
  | false => simpa [hp] using hfg (by simpa [hp] using hf)

/-- A run that was free keeps the pace. -/
theorem Paced.snoc {ran : List (Rung × Int)} (h : Paced ran) {m : Machine} {seeds : List (Rung × Int)} (hh : m.history = seeds ++ ran)
    {rung : Rung} {busy : Bool} {now : Int} (hf : m.Free rung busy now) : Paced (ran ++ [(rung, now)]) := by
  refine ⟨?_, fun r cap hc => ?_⟩
  · rw [List.pairwise_append]
    refine ⟨h.cooldown, List.pairwise_singleton _ _, fun x hx y hy => ?_⟩
    obtain rfl := List.mem_singleton.mp hy
    intro heq
    have hr : x.1 = rung := heq
    have hmem : (rung, x.2) ∈ m.history := by
      rw [hh, ← hr]
      exact List.mem_append_right _ hx
    rw [hr]
    exact hf.cooldown _ hmem
  · refine (h.cap r cap hc).snoc _ fun hr a ha => ?_
    obtain rfl : rung = r := hr
    have hlt := hf.cap cap hc a ha
    rw [hh, since_append] at hlt
    omega

theorem Fit.step (h : Fit l) (i : Input) : Fit (l.step i) := by
  have hd := outcome_does l i
  obtain ⟨seeds, hseeds⟩ := h.history
  have hpast : ∀ x ∈ l.ran, x.2 ≤ l.at' i := fun x hx => (h.past x hx).trans (now_le l i)
  unfold Ladder.step
  generalize l.outcome i = r at hd
  cases hd with
  | asks m' rung ha hm =>
    obtain ⟨hen, hw, -, hcl⟩ := asks_guards h ha
    have hen' : m'.config.enabled := by rw [hm.config]; exact hen
    have hw' : m'.wanConnected = some true := by rw [hm.wan]; exact hw
    have hh : m'.history = seeds ++ l.ran := hm.history.trans hseeds
    rcases Machine.tryAct_cases m' rung i.busy (l.at' i) with ⟨u, htry⟩ | ⟨hblock, htry⟩
    · rw [htry]
      refine ⟨fun _ => hen', fun _ _ _ => hw', nofun, nofun, fun r u' hs hne => ?_, ⟨seeds, by simpa [after] using hh⟩, ?_, ?_⟩
      · obtain ⟨rfl, -⟩ := State.cooling.inj hs
        exact (hcl hne).mono le_rfl id
      · simpa [after] using hpast
      · simpa [after] using h.paced
    · rw [htry]
      have hpaced := h.paced.snoc hh (Machine.free_of_unblocked hblock)
      refine ⟨fun _ => hen', nofun, fun r t f d hs hdl => ?_, fun r t f hs => ?_, nofun, ⟨seeds, by simp [after, hh]⟩, fun x hx => ?_, hpaced⟩
      · obtain ⟨rfl, rfl, rfl⟩ := State.waiting.inj hs
        exact (Option.some.inj hdl).symm
      · obtain ⟨rfl, rfl, rfl⟩ := State.waiting.inj hs
        exact ⟨false, rfl, by simp⟩
      · rcases List.mem_append.mp hx with hx | hx
        · exact hpast x hx
        · obtain rfl := List.mem_singleton.mp hx
          exact le_rfl
  | stays m' hst =>
    have hran : (l.after i (m', none)).ran = l.ran := List.append_nil _
    have hlast : m'.state ≠ .idle →
        (l.after i (m', none)).last = l.last.map fun p => { p with failed := p.failed || i.event = .probe false } :=
      fun hne => if_neg hne
    have hh : m'.history = seeds ++ l.ran := by cases hst <;> exact Eq.trans ‹_› hseeds
    refine ⟨?_, ?_, ?_, ?_, ?_, ⟨seeds, hran ▸ hh⟩, hran ▸ hpast, hran ▸ h.paced⟩
    · intro hne
      cases hst with
      | idle hs => exact absurd hs hne
      | same hs _ _ he => exact he (h.enabled fun hi => hne (hs.trans hi))
      | failed _ hs _ _ _ hc =>
        show m'.config.enabled
        rw [hc]
        exact h.enabled (by rw [show l.m.state = _ from hs]; simp)
    · intro r u hs'
      have hs' : m'.state = .cooling r u := hs'
      cases hst with
      | idle hs => simp [hs] at hs'
      | same hs _ _ _ hw => exact hw r u (hs.symm.trans hs') (h.wan r u (hs.symm.trans hs'))
      | failed _ _ hs => simp [hs] at hs'
    · intro r t f d hs' hdl
      have hs' : m'.state = .waiting r t f := hs'
      have hdl : m'.deadline = some d := hdl
      cases hst with
      | idle hs => simp [hs] at hs'
      | same hs _ hd =>
        rcases hd with hd | hd
        · exact h.due r t f d (hs.symm.trans hs') (hd.symm.trans hdl)
        · simp [hd] at hdl
      | failed _ hs hsf _ hd =>
        obtain ⟨rfl, rfl, rfl⟩ := State.waiting.inj (hsf.symm.trans hs')
        exact h.due _ _ _ d hs (hd.symm.trans hdl)
    · intro r t f hs'
      have hs' : m'.state = .waiting r t f := hs'
      rw [hlast (by simp [hs'])]
      cases hst with
      | idle hs => simp [hs] at hs'
      | same hs =>
        obtain ⟨b, hb, hf⟩ := h.acted r t f (hs.symm.trans hs')
        exact ⟨_, by rw [hb]; rfl, fun hpos => by simp [hf hpos]⟩
      | failed he hs hsf =>
        obtain ⟨rfl, rfl, rfl⟩ := State.waiting.inj (hsf.symm.trans hs')
        obtain ⟨b, hb, -⟩ := h.acted _ _ _ hs
        exact ⟨_, by rw [hb]; rfl, fun _ => by simp [he]⟩
    · intro r u hs' hne
      have hs' : m'.state = .cooling r u := hs'
      rw [hlast (by simp [hs'])]
      cases hst with
      | idle hs => simp [hs] at hs'
      | same hs =>
        exact (h.climbs r u (hs.symm.trans hs') hne).mono (now_le l i) (by simp)
      | failed _ _ hsf => simp [hsf] at hs'

theorem fit_of_start (h : l.Start) : Fit l := by
  refine ⟨fun hne => absurd h.state hne, fun r u hs => ?_, fun r t f d hs => ?_, fun r t f hs => ?_, fun r u hs => ?_,
    ⟨l.m.history, by simp [h.ran]⟩, by simp [h.ran], ?_⟩
  · simp [h.state] at hs
  · simp [h.state] at hs
  · simp [h.state] at hs
  · simp [h.state] at hs
  · rw [h.ran]
    exact ⟨.nil, fun _ _ _ => .nil _ _ _⟩

/-- The ladder is respected in exactly the runs where no deferred reboot falls due against
    the owner's setting. -/
theorem ladder_respected_iff {is : List Input} (hs : l.Start) :
    Along step Respects l is ∧ Paced (exec step l is).ran ↔ Along step (fun l i => l.heeds i = true) l is := by
  refine ⟨fun h => along_mono (fun _ _ => heeds_of_respects) h.1, fun h => ⟨?_, ?_⟩⟩
  · exact along_of_invariant (fun _ i hf _ => hf.step i) (fun _ _ => respects_of_heeds) (fit_of_start hs) h
  · exact (invariant (fun _ i hf => hf.step i) (fit_of_start hs)).paced

def armed : Ladder := ⟨.new ⟨true, true⟩, 0, [], none⟩

/-- The WAN comes up, and every probe fails: three rungs run, and the user changes the
    modem just before the fourth. -/
def outage : List Input :=
  let after (mins : Nat) (e : Event) : Input := ⟨mins * 60 * 10 ^ 9, e, none, false⟩
  [after 0 (.wan true), after 0 (.probe false), after 5 (.probe false), after 5 (.probe false), after 4 (.probe false),
    after 1 .timer, after 4 (.probe false), after 1 .timer, after 4 (.probe false),
    ⟨60 * 10 ^ 9, .timer, some (secs (24 * 60)), false⟩]

/-- The deferred reboot falls due with the owner's leave. -/
def allowed : List Input := outage ++ [⟨60 * 10 ^ 9, .timer, some (secs (24 * 60)), false⟩]

theorem reboot_respected :
    (Along step Respects armed allowed ∧ Paced (exec step armed allowed).ran) ∧
      (exec step armed allowed).ran.map (·.1) = [.pdnReconnect, .lpmOnline, .modemReset, .reboot] :=
  ⟨(ladder_respected_iff ⟨rfl, rfl⟩).mpr (by decide +kernel), by decide +kernel⟩

/-- The owner turns `allow_reboot` off while the reboot is deferred. -/
def forbidden : List Input :=
  outage ++ [⟨0, .config ⟨true, false⟩, none, false⟩, ⟨60 * 10 ^ 9, .timer, some (secs (24 * 60)), false⟩]

theorem deferred_reboot_ignores_setting :
    ¬ ∀ (l : Ladder) (is : List Input), l.Start → Along step Respects l is ∧ Paced (exec step l is).ran := by
  intro h
  have hheeds := along_mono (fun _ _ => heeds_of_respects) (h armed forbidden ⟨rfl, rfl⟩).1
  exact absurd hheeds (by decide +kernel)

end Ladder

end OpenU60.ConnWatchdog
