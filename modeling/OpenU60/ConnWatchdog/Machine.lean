/-
  OpenU60.ConnWatchdog.Machine — the connectivity watchdog's ladder
  (`zte-agent/src/conn_watchdog.rs`, `Machine`).

  Instants are nanoseconds; one from before the start of the device is negative. What the
  machine asks when a rung is about to run (is a call, USSD session or speed test going
  on) is an argument. A step returns the rung to run, if any; the `Log` actions and the
  reasons in them are left out.
-/

import Mathlib
import OpenU60.Lib.Window

namespace OpenU60.ConnWatchdog

def secs (n : Nat) : Int := n * 10 ^ 9

def triggerFailures : Nat := 3
def triggerMinAge : Int := secs (10 * 60)
def recoveryWindow : Int := secs (5 * 60)
def settle : Int := secs 60
def userActivityGuard : Int := secs 120
def guardRetry : Int := secs 60
def day : Int := secs (24 * 3600)

inductive Rung where
  | pdnReconnect
  | lpmOnline
  | modemReset
  | reboot
  deriving DecidableEq

namespace Rung

def cooldown : Rung → Int
  | pdnReconnect => secs (10 * 60)
  | lpmOnline => secs (20 * 60)
  | modemReset => secs 3600
  | reboot => day

def dailyCap : Rung → Option Nat
  | pdnReconnect | lpmOnline => none
  | modemReset => some 3
  | reboot => some 1

def next (allowReboot : Bool) : Rung → Option Rung
  | pdnReconnect => some lpmOnline
  | lpmOnline => some modemReset
  | modemReset => if allowReboot then some reboot else none
  | reboot => none

end Rung

structure Config where
  enabled : Bool
  allowReboot : Bool
  deriving DecidableEq

inductive Event where
  | wan (connected : Bool)
  | probe (ok : Bool)
  | timer
  | config (c : Config)
  deriving DecidableEq

inductive State where
  | idle
  | waiting (rung : Rung) (actedAt : Int) (fails : Nat)
  | cooling (rung : Rung) (until' : Int)
  deriving DecidableEq

structure Machine where
  config : Config
  state : State
  deadline : Option Int
  wanConnected : Option Bool
  failures : Nat
  firstFailure : Option Int
  history : List (Rung × Int)
  userActivity : Option Int
  deriving DecidableEq

/-- `saturating_duration_since`. -/
def durationSince (now t : Int) : Int := max (now - t) 0

/-- The later of a pending block and one that ends at `t`. -/
def consider (now : Int) (block : Option Int) (t : Int) : Option Int :=
  if t > now && block.all (t > ·) then some t else block

namespace Machine

def new (config : Config) : Machine := ⟨config, .idle, none, none, 0, none, [], none⟩

/-- An action taken before the agent restarted. -/
def recordAction (m : Machine) (rung : Rung) (t : Int) : Machine := { m with history := m.history ++ [(rung, t)] }

/-- Back to idle with a fresh trigger count. -/
def reset (m : Machine) : Machine := { m with state := .idle, deadline := none, failures := 0, firstFailure := none }

def runsOf (m : Machine) (rung : Rung) : List Int := (m.history.filter (·.1 = rung)).map (·.2)

def runsToday (m : Machine) (rung : Rung) (now : Int) : List Int := (m.runsOf rung).filter (durationSince now · < day)

/-- What can block `rung`, in the order it is considered. -/
def blocks (m : Machine) (rung : Rung) (busy : Bool) (now : Int) : List Int :=
  let today := m.runsToday rung now
  (if busy then [now + guardRetry] else []) ++
    (m.userActivity.map (· + userActivityGuard)).toList ++
    ((m.runsOf rung).max?.map (· + rung.cooldown)).toList ++
    match rung.dailyCap with
    | some cap =>
      -- when the oldest of the last `cap` runs leaves the day
      if today.length ≥ cap then [(today.insertionSort (· ≤ ·)).getD (today.length - cap) 0 + day] else []
    | none => []

def blockedUntil (m : Machine) (rung : Rung) (busy : Bool) (now : Int) : Option Int :=
  (m.blocks rung busy now).foldl (consider now) none

/-- Run `rung` now, or wait for what blocks it. -/
def tryAct (m : Machine) (rung : Rung) (busy : Bool) (now : Int) : Machine × Option Rung :=
  match m.blockedUntil rung busy now with
  | some until' => ({ m with state := .cooling rung until', deadline := some until' }, none)
  | none =>
    ({ m with
        history := m.history ++ [(rung, now)]
        state := .waiting rung now 0
        deadline := some (now + recoveryWindow) }, some rung)

/-- `rung` did not restore the probe: the next one, or give up. -/
def escalate (m : Machine) (rung : Rung) (busy : Bool) (now : Int) : Machine × Option Rung :=
  match rung.next m.config.allowReboot with
  | some next => m.tryAct next busy now
  | none => (m.reset, none)

def onWan (m : Machine) (connected : Bool) (now : Int) : Machine :=
  let prev := m.wanConnected
  let m := { m with wanConnected := some connected }
  if connected then
    match m.state with
    | .waiting _ actedAt _ =>
      -- a reconnect after the recovery window is a new session
      if prev != some true && now ≥ actedAt + recoveryWindow then m.reset else m
    | _ => m
  else if prev = some false then m
  else
    let m := { m with failures := 0, firstFailure := none }
    match m.state with
    | .cooling _ _ => m.reset
    | _ => m

def onProbe (m : Machine) (ok : Bool) (busy : Bool) (now : Int) : Machine × Option Rung :=
  if ok then
    let m := { m with failures := 0, firstFailure := none }
    if m.state = .idle then (m, none) else ({ m with state := .idle, deadline := none }, none)
  else if !m.config.enabled || m.wanConnected != some true then (m, none)
  else
    match m.state with
    | .idle =>
      let first := m.firstFailure.getD now
      let m := { m with failures := m.failures + 1, firstFailure := some first }
      if m.failures ≥ triggerFailures && durationSince now first ≥ triggerMinAge then m.tryAct .pdnReconnect busy now else (m, none)
    | .waiting rung actedAt fails =>
      if now < actedAt + settle then (m, none)
      else
        let m := { m with state := .waiting rung actedAt (fails + 1) }
        if now ≥ actedAt + recoveryWindow then m.escalate rung busy now else (m, none)
    | .cooling _ _ => (m, none)

def onTimer (m : Machine) (busy : Bool) (now : Int) : Machine × Option Rung :=
  -- early or spurious wakeup
  if !m.deadline.any (now ≥ ·) then (m, none)
  else
    let m := { m with deadline := none }
    match m.state with
    | .idle => (m, none)
    | .waiting rung _ fails =>
      if m.wanConnected != some true then (m.reset, none)
      else if fails > 0 then m.escalate rung busy now
      else (m, none)
    | .cooling rung _ => m.tryAct rung busy now

def onConfig (m : Machine) (config : Config) : Machine :=
  let m := { m with config := config }
  if config.enabled then m else m.reset

def step (m : Machine) (e : Event) (busy : Bool) (now : Int) : Machine × Option Rung :=
  match e with
  | .wan connected => (m.onWan connected now, none)
  | .probe ok => m.onProbe ok busy now
  | .timer => m.onTimer busy now
  | .config config => (m.onConfig config, none)

/-! ## What blocks a rung -/

theorem consider_eq_none {now t : Int} {block : Option Int} : consider now block t = none ↔ block = none ∧ t ≤ now := by
  unfold consider
  split
  · next h =>
    simp only [Bool.and_eq_true, decide_eq_true_eq] at h
    simp only [reduceCtorEq, false_iff, not_and]
    intro _
    omega
  · next h =>
    refine ⟨fun hb => ⟨hb, ?_⟩, fun hb => hb.1⟩
    rw [hb] at h
    simpa using h

/-- A rung that nothing blocks. -/
structure Free (m : Machine) (rung : Rung) (busy : Bool) (now : Int) : Prop where
  busy : busy = false
  user : ∀ t, m.userActivity = some t → t + userActivityGuard ≤ now
  cooldown : ∀ t, (rung, t) ∈ m.history → t + rung.cooldown ≤ now
  cap : ∀ cap, rung.dailyCap = some cap → ∀ a, now - day < a → Lib.Window.since rung a m.history < cap

variable {m : Machine} {rung : Rung}

theorem mem_runsOf {t : Int} : t ∈ m.runsOf rung ↔ (rung, t) ∈ m.history := by
  simp [runsOf]

theorem runsToday_length (m : Machine) (rung : Rung) (now : Int) :
    (m.runsToday rung now).length = m.history.countP fun x => decide (x.1 = rung ∧ durationSince now x.2 < day) := by
  rw [List.countP_eq_length_filter, runsToday, runsOf, List.filter_map, List.length_map, List.filter_filter]
  congr 2
  funext x
  simp [Bool.and_comm]

theorem dailyCap_pos {cap : Nat} (h : rung.dailyCap = some cap) : 0 < cap := by
  cases rung <;> simp_all [Rung.dailyCap]
  all_goals omega

variable {busy : Bool}

theorem blockedUntil_eq_none {now : Int} :
    m.blockedUntil rung busy now = none ↔ ∀ t ∈ m.blocks rung busy now, t ≤ now := by
  unfold blockedUntil
  generalize m.blocks rung busy now = ts
  -- nothing blocks so far, and nothing to come does
  suffices ∀ block : Option Int, ts.foldl (consider now) block = none ↔ block = none ∧ ∀ t ∈ ts, t ≤ now by simpa using this none
  induction ts with
  | nil => intro block; simp
  | cons t ts ih => intro block; simp [ih, consider_eq_none, and_assoc]

theorem runsToday_lt_cap {now : Int} (h : m.blockedUntil rung busy now = none) {cap : Nat}
    (hc : rung.dailyCap = some cap) : (m.runsToday rung now).length < cap := by
  by_contra hlen
  have hpos := dailyCap_pos hc
  have hidx : (m.runsToday rung now).length - cap < ((m.runsToday rung now).insertionSort (· ≤ ·)).length := by
    rw [List.length_insertionSort]
    omega
  have hold : ((m.runsToday rung now).insertionSort (· ≤ ·))[(m.runsToday rung now).length - cap] + day ≤ now := by
    refine blockedUntil_eq_none.mp h _ ?_
    simp only [blocks, hc, ge_iff_le, if_pos (Nat.not_lt.mp hlen), List.getD_eq_getElem _ _ hidx]
    exact List.mem_append_right _ (List.mem_singleton_self _)
  -- the oldest of them is a run of the last day
  have hmem := (List.mem_insertionSort (r := (· ≤ ·))).mp (List.getElem_mem hidx)
  generalize ((m.runsToday rung now).insertionSort (· ≤ ·))[(m.runsToday rung now).length - cap] = oldest at hold hmem
  have hday : durationSince now oldest < day := by simpa using (List.mem_filter.mp hmem).2
  unfold durationSince at hday
  omega

theorem free_of_unblocked {now : Int} (h : m.blockedUntil rung busy now = none) :
    Free m rung busy now := by
  have hb := blockedUntil_eq_none.mp h
  refine ⟨?_, fun t ht => ?_, fun t ht => ?_, fun cap hc a ha => ?_⟩
  · cases busy with
    | false => rfl
    | true =>
      have := hb (now + guardRetry) (by simp [blocks])
      simp [guardRetry, secs] at this
  · exact hb _ (by simp [blocks, ht])
  · -- the last of them is later still
    have hmem := mem_runsOf.mpr ht
    cases hl : (m.runsOf rung).max? with
    | none => simp [List.max?_eq_none_iff.mp hl] at hmem
    | some last =>
      have hle : t ≤ last := (List.max?_eq_some_iff.mp hl).2 t hmem
      have := hb (last + rung.cooldown) (by simp [blocks, hl])
      omega
  · refine lt_of_le_of_lt ?_ (runsToday_lt_cap h hc)
    rw [runsToday_length]
    refine List.countP_mono_left fun x _ hx => ?_
    simp only [decide_eq_true_eq] at hx ⊢
    refine ⟨hx.1, ?_⟩
    have hpos : (0 : Int) < day := by decide
    unfold durationSince
    omega

/-! ## What a step does -/

/-- The events that ask for a rung. -/
inductive Asks (m : Machine) (now : Int) : Event → Rung → Prop
  | trigger (hs : m.state = .idle) (he : m.config.enabled) (hw : m.wanConnected = some true) : Asks m now (.probe false) .pdnReconnect
  | failing {below rung : Rung} {t : Int} {f : Nat} (hs : m.state = .waiting below t f) (ht : t + recoveryWindow ≤ now)
      (hn : below.next m.config.allowReboot = some rung) (hw : m.wanConnected = some true) : Asks m now (.probe false) rung
  | window {below rung : Rung} {t d : Int} {f : Nat} (hs : m.state = .waiting below t f) (hf : 0 < f) (hd : m.deadline = some d)
      (ht : d ≤ now) (hn : below.next m.config.allowReboot = some rung) (hw : m.wanConnected = some true) : Asks m now .timer rung
  | deferred {rung : Rung} {u d : Int} (hs : m.state = .cooling rung u) (hd : m.deadline = some d) (ht : d ≤ now) :
      Asks m now .timer rung

/-- A step that asks for none. -/
inductive Stays (m : Machine) : Event → Machine → Prop
  | idle {e : Event} {m' : Machine} (hs : m'.state = .idle) (hh : m'.history = m.history) : Stays m e m'
  | same {e : Event} {m' : Machine} (hs : m'.state = m.state) (hh : m'.history = m.history)
      (hd : m'.deadline = m.deadline ∨ m'.deadline = none) (he : m.config.enabled → m'.config.enabled)
      (hw : ∀ r u, m.state = .cooling r u → m.wanConnected = some true → m'.wanConnected = some true) : Stays m e m'
  | failed {e : Event} {m' : Machine} {r : Rung} {t : Int} {f : Nat} (he : e = .probe false) (hs : m.state = .waiting r t f)
      (hs' : m'.state = .waiting r t (f + 1)) (hh : m'.history = m.history) (hd : m'.deadline = m.deadline)
      (hc : m'.config = m.config) : Stays m e m'

/-- What the ladder does not change when it looks for a rung to run. -/
structure SameGuards (m m' : Machine) : Prop where
  config : m'.config = m.config
  wan : m'.wanConnected = m.wanConnected
  history : m'.history = m.history
  user : m'.userActivity = m.userActivity

theorem SameGuards.blockedUntil {m m' : Machine} (h : SameGuards m m') (rung : Rung) (busy : Bool) (now : Int) :
    m'.blockedUntil rung busy now = m.blockedUntil rung busy now := by
  unfold Machine.blockedUntil blocks runsToday runsOf
  rw [h.history, h.user]

/-- What a step does: ask for a rung, which is then run or deferred, or stay. -/
inductive Does (m : Machine) (e : Event) (busy : Bool) (now : Int) : Machine × Option Rung → Prop
  | asks (m' : Machine) (rung : Rung) (ha : Asks m now e rung) (hm : SameGuards m m') : Does m e busy now (m'.tryAct rung busy now)
  | stays (m' : Machine) (h : Stays m e m') : Does m e busy now (m', none)

theorem onWan_does (m : Machine) (connected busy : Bool) (now : Int) :
    Does m (.wan connected) busy now (m.onWan connected now, none) := by
  refine .stays _ ?_
  unfold onWan
  dsimp only
  cases connected with
  | true =>
    simp only [if_true]
    split
    · next r t f hs =>
      split
      · exact .idle rfl rfl
      · exact .same rfl rfl (.inl rfl) id (fun _ _ h => by simp [hs] at h)
    · exact .same rfl rfl (.inl rfl) id (fun _ _ _ _ => rfl)
  | false =>
    simp only [Bool.false_eq_true, if_false]
    split
    · next hw => exact .same rfl rfl (.inl rfl) id (fun _ _ _ h => by simp [hw] at h)
    · split
      · exact .idle rfl rfl
      · next hc => exact .same rfl rfl (.inl rfl) id (fun r u h => absurd h (hc r u))

theorem escalate_does {m m' : Machine} {e : Event} {r : Rung} {now : Int} (hm : SameGuards m m')
    (ha : ∀ rung, r.next m.config.allowReboot = some rung → Asks m now e rung) : Does m e busy now (m'.escalate r busy now) := by
  unfold escalate
  rw [hm.config]
  cases hn : r.next m.config.allowReboot with
  | some rung => exact .asks m' rung (ha rung hn) hm
  | none => exact .stays _ (.idle rfl hm.history)

theorem onProbe_does (m : Machine) (ok busy : Bool) (now : Int) : Does m (.probe ok) busy now (m.onProbe ok busy now) := by
  unfold onProbe
  cases ok with
  | true =>
    simp only [if_true]
    split
    · exact .stays _ (.idle ‹_› rfl)
    · exact .stays _ (.idle rfl rfl)
  | false =>
    simp only [Bool.false_eq_true, if_false]
    split
    · exact .stays _ (.same rfl rfl (.inl rfl) id fun _ _ _ => id)
    · next hon =>
      simp only [Bool.or_eq_true, Bool.not_eq_true', bne_iff_ne, ne_eq, not_or, Bool.not_eq_false, not_not] at hon
      split
      · next hs =>
        split
        · exact .asks _ _ (.trigger hs hon.1 hon.2) ⟨rfl, rfl, rfl, rfl⟩
        · exact .stays _ (.idle hs rfl)
      · next r t f hs =>
        split
        · exact .stays _ (.same rfl rfl (.inl rfl) id fun _ _ _ => id)
        · split
          · next ht => exact escalate_does ⟨rfl, rfl, rfl, rfl⟩ fun rung hn => .failing hs ht hn hon.2
          · exact .stays _ (.failed rfl hs rfl rfl rfl rfl)
      · exact .stays _ (.same rfl rfl (.inl rfl) id fun _ _ _ => id)

theorem onTimer_does (m : Machine) (busy : Bool) (now : Int) : Does m .timer busy now (m.onTimer busy now) := by
  unfold onTimer
  split
  · exact .stays _ (.same rfl rfl (.inl rfl) id fun _ _ _ => id)
  · next hdue =>
    obtain ⟨d, hd, ht⟩ : ∃ d, m.deadline = some d ∧ d ≤ now := by
      simpa [Option.any_eq_true] using hdue
    dsimp only
    split
    · next hs => exact .stays _ (.idle hs rfl)
    · next r t f hs =>
      split
      · exact .stays _ (.idle rfl rfl)
      · next hw =>
        split
        · next hf => exact escalate_does ⟨rfl, rfl, rfl, rfl⟩ fun rung hn => .window hs hf hd ht hn (by simpa using hw)
        · exact .stays _ (.same rfl rfl (.inr rfl) id fun _ _ _ => id)
    · next r u hs => exact .asks _ _ (.deferred hs hd ht) ⟨rfl, rfl, rfl, rfl⟩

theorem step_does (m : Machine) (e : Event) (busy : Bool) (now : Int) : Does m e busy now (m.step e busy now) := by
  cases e with
  | wan connected => exact onWan_does m connected busy now
  | probe ok => exact onProbe_does m ok busy now
  | timer => exact onTimer_does m busy now
  | config config =>
    refine .stays _ ?_
    unfold onConfig
    dsimp only
    split
    · next he => exact .same rfl rfl (.inl rfl) (fun _ => he) fun _ _ _ => id
    · exact .idle rfl rfl

/-- A rung that is asked for is run where nothing blocks it, and waits otherwise. -/
theorem tryAct_cases (m : Machine) (rung : Rung) (busy : Bool) (now : Int) :
    (∃ u, m.tryAct rung busy now = ({ m with state := .cooling rung u, deadline := some u }, none)) ∨
      m.blockedUntil rung busy now = none ∧
        m.tryAct rung busy now =
          ({ m with history := m.history ++ [(rung, now)], state := .waiting rung now 0, deadline := some (now + recoveryWindow) },
            some rung) := by
  unfold tryAct
  cases hb : m.blockedUntil rung busy now with
  | some u => exact .inl ⟨u, rfl⟩
  | none => exact .inr ⟨rfl, rfl⟩

end Machine

end OpenU60.ConnWatchdog
