/-
  OpenU60.StandbyGuard.Decisions — when the guard switches Wi-Fi off and on.

  The guard forgets; its record does not. `Story` keeps, beside the guard, every event with
  its time, what the guard answered and whether that step took the router as on. What the
  guard holds is read off the record (`Inv`), and with it what each switching stands on.

  - `guard_decides`: every turn-off and every switch-on of a run stands where the record
    allows it, at most three turn-offs and one switch-on lie between two power-ons, and a
    deadline stands exactly while a turn-off or a restore is awaited.
  - `wait_dropped_and_start_missed`: a power-on ends the wait for a turn-off, so that the next
    standby may see another within seconds; and a Wi-Fi start that is undone before the user's switch
    has been read does not hold the switch-on back.
-/

import OpenU60.Lib.History
import OpenU60.Lib.Machine
import OpenU60.StandbyGuard.Guard

namespace OpenU60.StandbyGuard

open OpenU60.Lib.Machine OpenU60.Lib.History

structure Entry where
  event : Event
  now : Nat
  actions : List Action
  /-- The router is taken as on, and was not. -/
  powerOn : Bool
  deriving DecidableEq

namespace Entry

def turnsOff (x : Entry) : Bool := decide (Action.wifiOff ∈ x.actions)
def switchesOn (x : Entry) : Bool := decide (Action.wifiOn ∈ x.actions)
def asksKeyLog (x : Entry) : Bool := decide (Action.readKeyLog ∈ x.actions)
def asksUserSwitch (x : Entry) : Bool := decide (Action.readUserSwitch ∈ x.actions)

def isKeyLog (x : Entry) : Bool :=
  match x.event with
  | .keyLog _ => true
  | _ => false

def isUserSwitch (x : Entry) : Bool :=
  match x.event with
  | .userSwitch _ => true
  | _ => false

def isPower (x : Entry) : Bool :=
  match x.event with
  | .power _ => true
  | _ => false

def standsBy (x : Entry) : Bool :=
  match x.event with
  | .power action => classifyMode action = some .standby
  | _ => false

def reportsOff (x : Entry) : Bool := x.event = .wifi .powerOff
def startsWifi (x : Entry) : Bool := x.event = .wifi .powerOn

/-- A timer at `d` or after it. -/
def due (d : Nat) (x : Entry) : Bool := x.event = .timer && d ≤ x.now

end Entry

structure Story where
  guard : Guard
  log : List Entry := []

namespace Story

def step (s : Story) (x : Event × Nat) : Story :=
  let r := s.guard.step x.1 x.2
  ⟨r.1, s.log ++ [⟨x.1, x.2, r.2, s.guard.power ≠ some .on && r.1.power = some .on⟩]⟩

end Story

/-! ## What the record says -/

/-- The turn-offs since the last power-on. -/
def turnOffs (log : List Entry) : Nat := (sinceLast Entry.powerOn log).countP Entry.turnsOff

def switchOns (log : List Entry) : Nat := (sinceLast Entry.powerOn log).countP Entry.switchesOn

/-- A key.log read is asked for and not answered, and no power-on has been taken since. -/
def Asked (log : List Entry) : Prop :=
  Since (fun _ x => x.asksKeyLog) (fun y => y.isKeyLog = false ∧ y.powerOn = false) log

/-- A turn-off is awaited until `d`: not reported off, nor ended by a power-on, nor by a
    timer at `d` or after it. -/
def AwaitedUntil (d : Nat) (log : List Entry) : Prop :=
  Since (fun _ x => x.turnsOff ∧ d = x.now + confirmWithin)
    (fun y => y.reportsOff = false ∧ y.powerOn = false ∧ y.due d = false) log

/-- A restore is due at `d`: neither a Wi-Fi start nor a standby since the power-on. -/
def PendingUntil (d : Nat) (log : List Entry) : Prop :=
  Since (fun older x => x.isPower ∧ x.powerOn ∧ 0 < turnOffs older ∧ d = x.now + restoreAfter)
    (fun y => y.startsWifi = false ∧ y.standsBy = false ∧ y.powerOn = false ∧ y.due d = false) log

/-- The user's switch is asked for and not answered, with no standby since. A timer asked,
    `now` at the latest and 90 s or more after a power-on that ended a standby with turn-offs, with
    neither a Wi-Fi start nor a standby by then. -/
def AskedSwitch (now : Nat) (log : List Entry) : Prop :=
  Since (fun before a => a.asksUserSwitch ∧ a.now ≤ now ∧
      Since (fun older x => x.isPower ∧ x.powerOn ∧ 0 < turnOffs older ∧ x.now + restoreAfter ≤ a.now)
        (fun y => y.startsWifi = false ∧ y.standsBy = false ∧ y.powerOn = false) before)
    (fun y => y.isUserSwitch = false ∧ y.standsBy = false ∧ y.powerOn = false) log

/-- At `now` a turn-off is less than 30 s old, and neither reported off nor ended by a power-on. -/
def AwaitedAt (now : Nat) (log : List Entry) : Prop :=
  Since (fun _ x => x.turnsOff ∧ now < x.now + confirmWithin) (fun y => y.reportsOff = false ∧ y.powerOn = false) log

/-- The firmware's newest report; `last` is of before the record. -/
def newestReport (last : Option WifiLine) (log : List Entry) : Option WifiLine :=
  log.foldl (fun r x => if x.startsWifi then some .powerOn else if x.reportsOff then some .powerOff else r)
    (last.filter (· ≠ .other))

/-! ## What a step does -/

/-- Lines for the log alone. -/
def Quiet (acts : List Action) : Prop := ∀ a ∈ acts, ∃ n, a = .log n

inductive Outcome (g : Guard) : Event → Nat → Guard → List Action → Prop
  /-- A power action of the class the guard is in, or of none. -/
  | samePower {action now} (h : ∀ p, classifyMode action = some p → g.power = some p) : Outcome g (.power action) now g []
  | powersOn {action now acts} (hc : classifyMode action = some .on) (h : g.power ≠ some .on) (ha : Quiet acts) :
    Outcome g (.power action) now
      { g with power := some .on, asking := false, waiting := none, acted := 0, checking := none,
               restoreAt := if 0 < g.acted then some (now + restoreAfter) else none } acts
  | standsBy {action now acts} (hc : classifyMode action = some .standby) (h : g.power ≠ some .standby) (ha : Quiet acts) :
    Outcome g (.power action) now { g with power := some .standby, asking := false, restoreAt := none } acts
  | otherLine {now} : Outcome g (.wifi .other) now g []
  | reportedOff {now acts} (ha : Quiet acts) :
    Outcome g (.wifi .powerOff) now { g with wifi := some .powerOff, waiting := none } acts
  | startIgnored {now acts} (ha : Quiet acts) :
    Outcome g (.wifi .powerOn) now { g with wifi := some .powerOn, restoreAt := none } acts
  | startAsks {now} (c : Check) (h : g.power ≠ some .on) (hw : g.waiting = none) :
    Outcome g (.wifi .powerOn) now { g with wifi := some .powerOn, restoreAt := none, checking := some c } [.readKeyLog]
  | unasked {mode now} (h : g.checking = none) : Outcome g (.keyLog mode) now g []
  | leaves {mode now acts} (ha : Quiet acts) : Outcome g (.keyLog mode) now { g with checking := none } acts
  | acts {mode now acts} (c : Check) (n : Note) (hc : g.checking = some c) (hm : classifyMode mode = some .standby)
    (he : enteringStandby mode = false) (hp : g.power ≠ some .on) (hlt : g.acted < maxActions)
    (ha : acts = [.log n, .wifiOff]) :
    Outcome g (.keyLog (some mode)) now
      { g with checking := none, power := some .standby, acted := g.acted + 1,
               waiting := some ⟨now, now + confirmWithin, c.again⟩ } acts
  | missed {mode now acts} (hc : g.checking.isSome) (hp : g.power = some .standby) (ha : Quiet acts) :
    Outcome g (.keyLog mode) now
      { g with checking := none, power := some .on, acted := 0, waiting := none, restoreAt := none } acts
  | learned {mode now acts} (hc : g.checking.isSome) (hp : g.power = none) (ha : Quiet acts) :
    Outcome g (.keyLog mode) now { g with checking := none, power := some .on } acts
  | notBack {on now acts} (ha : Action.wifiOn ∈ acts → g.asking ∧ g.wifi = some .powerOff ∧ on = some true)
    (hq : ∀ a ∈ acts, a = .wifiOn ∨ ∃ n, a = .log n) : Outcome g (.userSwitch on) now { g with asking := false } acts
  /-- Nothing is due. -/
  | early {now} (hw : ∀ w, g.waiting = some w → now < w.until') (hr : ∀ t, g.restoreAt = some t → now < t) :
    Outcome g .timer now g []
  | lapses {now acts} (w : Waiting) (hw : g.waiting = some w) (hd : w.until' ≤ now) (ha : Quiet acts) :
    Outcome g .timer now { g with waiting := none } acts
  | retries {now} (w : Waiting) (hw : g.waiting = some w) (hd : w.until' ≤ now) (hp : g.power = some .standby) (n : Note) :
    Outcome g .timer now { g with waiting := none, checking := some ⟨true, true⟩ } [.log n, .readKeyLog]
  | back {now} (t : Nat) (hr : g.restoreAt = some t) (hd : t ≤ now) : Outcome g .timer now { g with restoreAt := none } []
  | asks {now} (t : Nat) (hr : g.restoreAt = some t) (hd : t ≤ now) (hp : g.power = some .on) :
    Outcome g .timer now { g with restoreAt := none, asking := true } [.readUserSwitch]

section

variable {g : Guard} {now : Nat}

theorem Quiet.nil : Quiet [] := nofun

theorem quiet_one (n : Note) : Quiet [.log n] := by
  intro a ha
  exact ⟨n, List.mem_singleton.mp ha⟩

theorem onPower_outcome (g : Guard) (action : String) (now : Nat) :
    Outcome g (.power action) now (g.onPower action now).1 (g.onPower action now).2 := by
  unfold Guard.onPower
  cases hc : classifyMode action with
  | none => exact .samePower fun p hp => by rw [hc] at hp; cases hp
  | some p =>
    dsimp only
    split
    · rename_i hsame
      exact .samePower fun q hq => by rw [hc] at hq; cases hq; exact hsame
    · rename_i hnew
      cases p with
      | on => exact .powersOn hc hnew (quiet_one _)
      | standby => exact .standsBy hc hnew (quiet_one _)

theorem onWifi_outcome (g : Guard) (line : WifiLine) (now : Nat) :
    Outcome g (.wifi line) now (g.onWifi line now).1 (g.onWifi line now).2 := by
  unfold Guard.onWifi
  cases line with
  | other => exact .otherLine
  | powerOff =>
    dsimp only
    split
    · exact .reportedOff (quiet_one _)
    · rename_i hw
      have hsame : { g with wifi := some .powerOff } = { g with wifi := some WifiLine.powerOff, waiting := none } := by
        cases g
        cases hw
        rfl
      rw [hsame]
      exact .reportedOff Quiet.nil
  | powerOn =>
    dsimp only [Guard.onWifiOn]
    by_cases hon : g.power = some .on
    · rw [if_pos hon]
      exact .startIgnored Quiet.nil
    · rw [if_neg hon]
      by_cases hw : g.waiting.isSome
      · rw [if_pos hw]
        exact .startIgnored (quiet_one _)
      · rw [if_neg hw]
        exact .startAsks _ hon (Option.not_isSome_iff_eq_none.mp hw)

theorem onKeyLog_outcome (g : Guard) (mode : Option String) (now : Nat) :
    Outcome g (.keyLog mode) now (g.onKeyLog mode now).1 (g.onKeyLog mode now).2 := by
  unfold Guard.onKeyLog
  cases hc : g.checking with
  | none => exact .unasked hc
  | some c =>
    dsimp only
    by_cases hon : g.power = some .on
    · rw [if_pos hon]
      exact .leaves Quiet.nil
    · rw [if_neg hon]
      have hsome : g.checking.isSome := by rw [hc]; rfl
      have hstandby : g.power.isNone = false → g.power = some .standby := by
        intro h
        cases hp : g.power with
        | none => rw [hp] at h; cases h
        | some p =>
          cases p with
          | on => exact absurd hp hon
          | standby => rfl
      split
      · rename_i mode hm
        simp only [Option.bind_some] at hm
        by_cases hent : enteringStandby mode = true
        · rw [if_pos hent]
          exact .leaves (quiet_one _)
        · rw [if_neg hent]
          split
          · exact .leaves (quiet_one _)
          · split
            · exact .leaves (quiet_one _)
            · rename_i hlt
              exact .acts c _ hc hm (Bool.eq_false_iff.mpr hent) hon (Nat.lt_of_not_le hlt) rfl
      · split
        · rename_i hn
          exact .learned hsome (Option.isNone_iff_eq_none.mp hn) (quiet_one _)
        · rename_i hn
          exact .missed hsome (hstandby (Bool.eq_false_iff.mpr hn)) (quiet_one _)
      · split
        · rename_i hn
          exact .learned hsome (Option.isNone_iff_eq_none.mp hn) (quiet_one _)
        · exact .leaves (quiet_one _)
      · exact .leaves (quiet_one _)

theorem onUserSwitch_outcome (g : Guard) (on : Option Bool) (now : Nat) :
    Outcome g (.userSwitch on) now (g.onUserSwitch on).1 (g.onUserSwitch on).2 := by
  unfold Guard.onUserSwitch
  dsimp only
  split
  · exact .notBack nofun nofun
  · rename_i hok
    simp only [Bool.or_eq_true, Bool.not_eq_true', decide_eq_true_eq, not_or, Bool.not_eq_false, not_not] at hok
    refine .notBack (fun ha => ?_) fun a ha => ?_
    · split at ha
      · rename_i hon
        exact ⟨hok.1.1, hok.2, hon⟩
      · simp at ha
    · split at ha
      · simp only [List.mem_cons, List.not_mem_nil, or_false] at ha
        rcases ha with rfl | rfl
        · exact .inr ⟨_, rfl⟩
        · exact .inl rfl
      · simp only [List.mem_cons, List.not_mem_nil, or_false] at ha
        exact .inr ⟨_, ha⟩

theorem onTimer_outcome (h : g.waiting = none ∨ g.restoreAt = none) (now : Nat) :
    Outcome g .timer now (g.onTimer now).1 (g.onTimer now).2 := by
  have hno : ∀ {g : Guard}, g.restoreAt = none → g.checkBack now = (g, []) := by
    intro g hg
    unfold Guard.checkBack
    rw [hg]
  unfold Guard.onTimer
  cases hw : g.waiting with
  | none =>
    have hu : g.unconfirm now = (g, []) := by unfold Guard.unconfirm; rw [hw]
    rw [hu]
    dsimp only [List.nil_append]
    unfold Guard.checkBack
    cases hr : g.restoreAt with
    | none => exact .early (by rw [hw]; nofun) (by rw [hr]; nofun)
    | some t =>
      dsimp only
      split
      · exact .early (by rw [hw]; nofun) (by rw [hr]; intro u hu; cases hu; assumption)
      · rename_i hd
        split
        · rename_i hb
          simp only [Bool.and_eq_true, decide_eq_true_eq] at hb
          exact .asks t hr (Nat.le_of_not_lt hd) hb.1
        · exact .back t hr (Nat.le_of_not_lt hd)
  | some w =>
    have hr : g.restoreAt = none := by
      rcases h with h | h
      · rw [hw] at h
        cases h
      · exact h
    unfold Guard.unconfirm
    rw [hw]
    dsimp only
    split
    · rw [hno hr]
      exact .early (by rw [hw]; intro v hv; cases hv; assumption) (by rw [hr]; nofun)
    · rename_i hd
      split
      · rename_i hb
        simp only [Bool.and_eq_true, decide_eq_true_eq] at hb
        dsimp only
        rw [hno]
        · exact .retries w hw (Nat.le_of_not_lt hd) hb.1.2 _
        · exact hr
      · dsimp only
        rw [hno]
        · exact .lapses w hw (Nat.le_of_not_lt hd) (quiet_one _)
        · exact hr

theorem step_outcome (h : g.waiting = none ∨ g.restoreAt = none) (e : Event) (now : Nat) :
    Outcome g e now (g.step e now).1 (g.step e now).2 := by
  cases e with
  | power action => exact onPower_outcome g action now
  | wifi line => exact onWifi_outcome g line now
  | keyLog mode => exact onKeyLog_outcome g mode now
  | userSwitch on => exact onUserSwitch_outcome g on now
  | timer => exact onTimer_outcome h now

end

/-! ## What the guard holds -/

/-- What the guard holds is what the record says. -/
structure Inv (last : Option WifiLine) (s : Story) : Prop where
  acted : s.guard.acted = turnOffs s.log
  budget : s.guard.acted ≤ maxActions
  unknown : s.guard.power = none → s.guard.acted = 0
  checking : s.guard.checking.isSome → s.guard.power ≠ some .on ∧ s.guard.waiting = none ∧ Asked s.log
  inStandby : s.guard.waiting.isSome → s.guard.power = some .standby
  isOn : s.guard.restoreAt.isSome → s.guard.power = some .on
  awaited : ∀ d, s.guard.waiting.map (·.until') = some d ↔ AwaitedUntil d s.log
  pending : ∀ d, s.guard.restoreAt = some d ↔ PendingUntil d s.log
  asking : s.guard.asking = true →
    (∀ now, (∀ y ∈ s.log, y.now ≤ now) → AskedSwitch now s.log) ∧ s.guard.power = some .on ∧ s.guard.restoreAt = none
  report : s.guard.wifi = newestReport last s.log
  once : switchOns s.log ≤ 1
  unused : s.guard.asking = true ∨ s.guard.restoreAt.isSome → switchOns s.log = 0

section

variable {log : List Entry} {x : Entry}

theorem turnOffs_snoc :
    turnOffs (log ++ [x]) = if x.powerOn then 0 else turnOffs log + if x.turnsOff then 1 else 0 := by
  unfold turnOffs
  rw [sinceLast_snoc]
  split
  · rfl
  · rw [List.countP_append, List.countP_singleton]

theorem switchOns_snoc :
    switchOns (log ++ [x]) = if x.powerOn then 0 else switchOns log + if x.switchesOn then 1 else 0 := by
  unfold switchOns
  rw [sinceLast_snoc]
  split
  · rfl
  · rw [List.countP_append, List.countP_singleton]

theorem newestReport_snoc (last : Option WifiLine) :
    newestReport last (log ++ [x]) =
      if x.startsWifi then some .powerOn else if x.reportsOff then some .powerOff else newestReport last log := by
  unfold newestReport
  rw [List.foldl_append]
  rfl

theorem Quiet.not_mem {acts : List Action} (h : Quiet acts) {a : Action} (ha : ∀ n, a ≠ .log n) : a ∉ acts := by
  intro hmem
  obtain ⟨n, hn⟩ := h a hmem
  exact ha n hn

@[simp] theorem Quiet.wifiOff {acts : List Action} (h : Quiet acts) : Action.wifiOff ∉ acts := h.not_mem nofun
@[simp] theorem Quiet.wifiOn {acts : List Action} (h : Quiet acts) : Action.wifiOn ∉ acts := h.not_mem nofun
@[simp] theorem Quiet.readKeyLog {acts : List Action} (h : Quiet acts) : Action.readKeyLog ∉ acts := h.not_mem nofun
@[simp] theorem Quiet.readUserSwitch {acts : List Action} (h : Quiet acts) : Action.readUserSwitch ∉ acts := h.not_mem nofun

end

/-- The step's entry in the record. -/
def entry (g : Guard) (e : Event) (now : Nat) (g' : Guard) (acts : List Action) : Entry :=
  ⟨e, now, acts, g.power ≠ some .on && g'.power = some .on⟩

section

variable {last : Option WifiLine} {s : Story} {e : Event} {now : Nat} {g' : Guard} {acts : List Action}

theorem Inv.no_restore (h : Inv last s) (hp : s.guard.power ≠ some .on) : s.guard.restoreAt = none := by
  have hison := h.isOn
  cases hr : s.guard.restoreAt with
  | none => rfl
  | some t => exact absurd (hison (by rw [hr]; rfl)) hp

theorem Inv.no_wait (h : Inv last s) (hp : s.guard.power ≠ some .standby) : s.guard.waiting = none := by
  have hstandby := h.inStandby
  cases hw : s.guard.waiting with
  | none => rfl
  | some w => exact absurd (hstandby (by rw [hw]; rfl)) hp

/-- A turn-off and a restore are never awaited together. -/
theorem Inv.one_deadline (h : Inv last s) : s.guard.waiting = none ∨ s.guard.restoreAt = none := by
  by_cases hp : s.guard.power = some .on
  · exact .inl (h.no_wait (by rw [hp]; nofun))
  · exact .inr (h.no_restore hp)

theorem Inv.keeps_acted (h : Inv last s) (hm : Outcome s.guard e now g' acts) :
    g'.acted = turnOffs (s.log ++ [entry s.guard e now g' acts]) := by
  have hacted := h.acted
  have hunknown := h.unknown
  rw [turnOffs_snoc]
  cases hm with
  | acts c n hc hm he hp hlt ha => simp [entry, Entry.turnsOff, ha, hacted]
  | notBack ha hq =>
    have : Action.wifiOff ∉ acts := fun hmem => by rcases hq _ hmem with h | ⟨n, h⟩ <;> cases h
    simp [entry, Entry.turnsOff, hacted, this]
  | learned hc hp ha => simp [entry, hp, hunknown hp]
  | _ => simp_all [entry, Entry.turnsOff]

theorem Inv.keeps_awaited (h : Inv last s) (hm : Outcome s.guard e now g' acts) (d : Nat) :
    g'.waiting.map (·.until') = some d ↔ AwaitedUntil d (s.log ++ [entry s.guard e now g' acts]) := by
  have hawaited := h.awaited d
  have hchecking := h.checking
  unfold AwaitedUntil
  rw [since_snoc, ← AwaitedUntil, ← hawaited]
  cases hm with
  | acts c n hc hm he hp hlt ha =>
    have hw := (hchecking (by rw [hc]; rfl)).2.1
    simp only [entry, Entry.turnsOff, ha, hw]
    simpa using eq_comm
  | notBack ha hq =>
    have hno : Action.wifiOff ∉ acts := fun hmem => by rcases hq _ hmem with h | ⟨n, h⟩ <;> cases h
    simp [entry, Entry.turnsOff, Entry.reportsOff, Entry.due, hno]
  | early hw hr =>
    simp only [entry, Entry.turnsOff, Entry.reportsOff, Entry.due]
    cases hw' : s.guard.waiting with
    | none => simp
    | some w =>
      have := hw w hw'
      simp only [Option.map_some, Option.some.injEq]
      grind
  | lapses w hw hd ha =>
    simp only [entry, Entry.turnsOff, Entry.reportsOff, Entry.due, hw]
    grind [Quiet.wifiOff]
  | retries w hw hd hp n =>
    simp only [entry, Entry.turnsOff, Entry.reportsOff, Entry.due, hw]
    grind
  | back t hr hd =>
    have hw := h.no_wait (by rw [h.isOn (by rw [hr]; rfl)]; nofun)
    simp [entry, Entry.turnsOff, hw]
  | asks t hr hd hp =>
    have hw := h.no_wait (by rw [hp]; nofun)
    simp [entry, Entry.turnsOff, hw]
  | _ => simp_all [entry, Entry.turnsOff, Entry.reportsOff, Entry.due]

theorem Inv.keeps_pending (h : Inv last s) (hm : Outcome s.guard e now g' acts) (d : Nat) :
    g'.restoreAt = some d ↔ PendingUntil d (s.log ++ [entry s.guard e now g' acts]) := by
  have hpending := h.pending d
  have hacted := h.acted
  unfold PendingUntil
  rw [since_snoc, ← PendingUntil, ← hpending]
  cases hm with
  | powersOn hc hp ha =>
    simp only [entry, Entry.isPower, hacted]
    grind
  | samePower hsame =>
    have hnone := h.no_restore
    simp only [entry, Entry.isPower, Entry.startsWifi, Entry.standsBy, Entry.due]
    grind
  | early hw hr =>
    simp only [entry, Entry.isPower, Entry.startsWifi, Entry.standsBy, Entry.due]
    grind
  | lapses w hw hd ha =>
    have hnone := h.no_restore (by rw [h.inStandby (by rw [hw]; rfl)]; nofun)
    simp [entry, Entry.isPower, hnone]
  | retries w hw hd hp n =>
    have hnone := h.no_restore (by rw [hp]; nofun)
    simp [entry, Entry.isPower, hnone]
  | back t hr hd =>
    simp only [entry, Entry.isPower, Entry.startsWifi, Entry.standsBy, Entry.due]
    grind
  | asks t hr hd hp =>
    simp only [entry, Entry.isPower, Entry.startsWifi, Entry.standsBy, Entry.due]
    grind
  | learned hc hp ha =>
    have hnone := h.no_restore (by rw [hp]; nofun)
    simp [entry, Entry.isPower, hnone]
  | acts c n hc hm he hp hlt ha =>
    have hnone := h.no_restore hp
    simp [entry, Entry.isPower, hnone]
  | _ => simp_all [entry, Entry.isPower, Entry.startsWifi, Entry.standsBy, Entry.due]

theorem Inv.keeps_checking (h : Inv last s) (hm : Outcome s.guard e now g' acts) (hc : g'.checking.isSome) :
    g'.power ≠ some .on ∧ g'.waiting = none ∧ Asked (s.log ++ [entry s.guard e now g' acts]) := by
  have hchecking := h.checking
  unfold Asked at hchecking ⊢
  rw [since_snoc]
  cases hm with
  | startAsks c hp hw => simp_all [entry, Entry.asksKeyLog]
  | retries w hw hd hp n => simp_all [entry, Entry.asksKeyLog]
  | _ => simp_all [entry, Entry.isKeyLog]

theorem Inv.keeps_asking (h : Inv last s) (hm : Outcome s.guard e now g' acts) (ha : g'.asking = true) :
    (∀ t, (∀ y ∈ s.log ++ [entry s.guard e now g' acts], y.now ≤ t) →
      AskedSwitch t (s.log ++ [entry s.guard e now g' acts])) ∧ g'.power = some .on ∧ g'.restoreAt = none := by
  have hasking := h.asking
  have hpending := h.pending
  have hison := h.isOn
  -- an answer neither given nor called off leaves the question as it was
  have hkept : s.guard.asking = true → ∀ x : Entry, x.isUserSwitch = false → x.standsBy = false → x.powerOn = false →
      ∀ t, (∀ y ∈ s.log ++ [x], y.now ≤ t) → AskedSwitch t (s.log ++ [x]) := by
    intro hold x hu hs hp t ht
    exact since_snoc.mpr (.inr ⟨(hasking hold).1 t fun y hy => ht y (List.mem_append_left _ hy), hu, hs, hp⟩)
  cases hm with
  | samePower hsame =>
    obtain ⟨-, hp, hr⟩ := hasking ha
    have hno : classifyMode _ ≠ some .standby := fun hc => by
      have := hsame _ hc
      rw [hp] at this
      cases this
    exact ⟨hkept ha _ rfl (decide_eq_false hno) (by simp [entry, hp]), hp, hr⟩
  | asks t hr hd hp =>
    refine ⟨fun u hu => since_snoc.mpr (.inl ⟨by simp [entry, Entry.asksUserSwitch], hu _ (by simp), ?_⟩), hp, rfl⟩
    refine ((hpending t).mp hr).mono (fun older x hx => ?_) fun y hy => ⟨hy.1, hy.2.1, hy.2.2.1⟩
    exact ⟨hx.1, hx.2.1, hx.2.2.1, by rw [← hx.2.2.2]; exact hd⟩
  | notBack ha' hq => cases ha
  | powersOn hc hp ha' => cases ha
  | standsBy hc hp ha' => cases ha
  | missed hc hp ha' =>
    have := (hasking ha).2.1
    rw [hp] at this
    cases this
  | acts c n hc hm he hp hlt ha' => exact absurd (hasking ha).2.1 hp
  | learned hc hp ha' =>
    have := (hasking ha).2.1
    rw [hp] at this
    cases this
  | startIgnored ha' => exact ⟨hkept ha _ rfl rfl (by simp [entry]), (hasking ha).2.1, rfl⟩
  | startAsks c hp hw => exact absurd (hasking ha).2.1 hp
  | back t hr hd => exact ⟨hkept ha _ rfl rfl (by simp [entry]), (hasking ha).2.1, rfl⟩
  | _ => exact ⟨hkept ha _ rfl rfl (by simp [entry]), (hasking ha).2⟩

theorem Inv.keeps_budget (h : Inv last s) (hm : Outcome s.guard e now g' acts) :
    g'.acted ≤ maxActions ∧ (g'.power = none → g'.acted = 0) ∧ (g'.waiting.isSome → g'.power = some .standby) ∧
      (g'.restoreAt.isSome → g'.power = some .on) ∧
      g'.wifi = newestReport last (s.log ++ [entry s.guard e now g' acts]) := by
  have hbudget := h.budget
  have hunknown := h.unknown
  have hstandby := h.inStandby
  have hison := h.isOn
  have hreport := h.report
  rw [newestReport_snoc]
  refine ⟨?_, ?_, ?_, ?_, ?_⟩ <;> cases hm <;> simp_all [entry, Entry.startsWifi, Entry.reportsOff]
  all_goals omega

theorem Inv.keeps_once (h : Inv last s) (hm : Outcome s.guard e now g' acts) :
    switchOns (s.log ++ [entry s.guard e now g' acts]) ≤ 1 ∧
      (g'.asking = true ∨ g'.restoreAt.isSome → switchOns (s.log ++ [entry s.guard e now g' acts]) = 0) := by
  have honce := h.once
  have hunused := h.unused
  have hasking := h.asking
  rw [switchOns_snoc]
  cases hm with
  | notBack ha hq =>
    by_cases hmem : Action.wifiOn ∈ acts
    · obtain ⟨hasked, -, -⟩ := ha hmem
      have hzero := hunused (.inl hasked)
      have hr := (hasking hasked).2.2
      simp [entry, Entry.switchesOn, hmem, hzero, hr]
    · have hunused' : s.guard.restoreAt.isSome → switchOns s.log = 0 := fun hr => hunused (.inr hr)
      simpa [entry, Entry.switchesOn, hmem] using ⟨honce, hunused'⟩
  | _ => simp_all [entry, Entry.switchesOn]

theorem Inv.step (h : Inv last s) (x : Event × Nat) : Inv last (s.step x) := by
  have hm := step_outcome h.one_deadline x.1 x.2
  obtain ⟨hbudget, hunknown, hstandby, hison, hreport⟩ := h.keeps_budget hm
  obtain ⟨honce, hunused⟩ := h.keeps_once hm
  exact
    { acted := h.keeps_acted hm
      budget := hbudget
      unknown := hunknown
      checking := h.keeps_checking hm
      inStandby := hstandby
      isOn := hison
      awaited := h.keeps_awaited hm
      pending := h.keeps_pending hm
      asking := h.keeps_asking hm
      report := hreport
      once := honce
      unused := hunused }

theorem Inv.start (now : Nat) (last : Option WifiLine) : Inv last ⟨(Guard.start now last).1, []⟩ := by
  have hfields : ∀ p : Option Power, Inv last ⟨{ power := p, wifi := last.filter (· ≠ .other) }, []⟩ := by
    intro p
    refine ⟨rfl, Nat.zero_le _, fun _ => rfl, nofun, nofun, nofun, fun d => ?_, fun d => ?_, nofun, rfl, Nat.zero_le _, ?_⟩
    · exact ⟨nofun, fun h => absurd h not_since_nil⟩
    · exact ⟨nofun, fun h => absurd h not_since_nil⟩
    · exact fun _ => rfl
  unfold Guard.start
  split
  · exact hfields (some .on)
  · exact hfields none

end

/-! ## The law -/

/-- A turn-off answers a key.log read that was asked for, with no power-on since, and names a
    standby the firmware has entered; no other turn-off is awaited. -/
def TurnsOffRightly (past : List Entry) (x : Entry) : Prop :=
  x.turnsOff →
    (∃ mode, x.event = .keyLog (some mode) ∧ classifyMode mode = some .standby ∧ enteringStandby mode = false) ∧
      Asked past ∧ ¬ AwaitedAt x.now past

/-- A switch-on answers that the user's switch is on, as asked for after a power-on, with
    Wi-Fi last reported off. -/
def SwitchesOnRightly (last : Option WifiLine) (past : List Entry) (x : Entry) : Prop :=
  x.switchesOn → x.event = .userSwitch (some true) ∧ AskedSwitch x.now past ∧ newestReport last past = some .powerOff

/-- At most three turn-offs and one switch-on between two power-ons. -/
def Sparing (log : List Entry) : Prop :=
  ∀ before after, log = before ++ after → (∀ x ∈ after, x.powerOn = false) →
    after.countP Entry.turnsOff ≤ maxActions ∧ after.countP Entry.switchesOn ≤ 1

/-- A deadline stands exactly while something is awaited, and a timer then removes it. -/
def Deadlines (s : Story) : Prop :=
  (∀ d, s.guard.nextDeadline = some d ↔ AwaitedUntil d s.log ∨ PendingUntil d s.log) ∧
    ∀ d now, s.guard.nextDeadline = some d → d ≤ now → (s.guard.step .timer now).1.nextDeadline = none

section

variable {last : Option WifiLine} {s : Story}

theorem awaitedUntil_of_awaitedAt {now : Nat} {log : List Entry} (hlog : ∀ y ∈ log, y.now ≤ now) (h : AwaitedAt now log) :
    ∃ d, AwaitedUntil d log := by
  obtain ⟨before, x, after, rfl, ⟨hoff, hlt⟩, hafter⟩ := h
  refine ⟨x.now + confirmWithin, before, x, after, rfl, ⟨hoff, rfl⟩, fun y hy => ⟨(hafter y hy).1, (hafter y hy).2, ?_⟩⟩
  have hle := hlog y (by simp [hy])
  simp only [Entry.due, Bool.and_eq_false_iff, decide_eq_false_iff_not]
  exact .inr (by omega)

theorem Inv.turnsOffRightly (h : Inv last s) {x : Event × Nat} (hlog : ∀ y ∈ s.log, y.now ≤ x.2) :
    TurnsOffRightly s.log (entry s.guard x.1 x.2 (s.guard.step x.1 x.2).1 (s.guard.step x.1 x.2).2) := by
  intro hoff
  have hmem : Action.wifiOff ∈ (s.guard.step x.1 x.2).2 := of_decide_eq_true hoff
  have hm := step_outcome h.one_deadline x.1 x.2
  obtain ⟨e, now⟩ := x
  generalize hr : s.guard.step e now = r at hm hmem hoff ⊢
  obtain ⟨g', acts⟩ := r
  cases hm with
  | acts c n hc hmode he hp hlt ha =>
    have hasked := h.checking (by rw [hc]; rfl)
    refine ⟨⟨_, rfl, hmode, he⟩, hasked.2.2, fun hold => ?_⟩
    obtain ⟨d, hd⟩ := awaitedUntil_of_awaitedAt hlog hold
    have := (h.awaited d).mpr hd
    rw [hasked.2.1] at this
    cases this
  | notBack ha hq => rcases hq _ hmem with h | ⟨n, h⟩ <;> cases h
  | _ => simp_all

theorem Inv.switchesOnRightly (h : Inv last s) {x : Event × Nat} (hlog : ∀ y ∈ s.log, y.now ≤ x.2) :
    SwitchesOnRightly last s.log (entry s.guard x.1 x.2 (s.guard.step x.1 x.2).1 (s.guard.step x.1 x.2).2) := by
  intro hon
  have hmem : Action.wifiOn ∈ (s.guard.step x.1 x.2).2 := of_decide_eq_true hon
  have hm := step_outcome h.one_deadline x.1 x.2
  obtain ⟨e, now⟩ := x
  generalize hr : s.guard.step e now = r at hm hmem hon ⊢
  obtain ⟨g', acts⟩ := r
  cases hm with
  | notBack ha hq =>
    obtain ⟨hasked, hoff, rfl⟩ := ha hmem
    exact ⟨rfl, (h.asking hasked).1 now hlog, h.report.symm.trans hoff⟩
  | _ => simp_all

theorem Inv.sparing (h : Inv last s) : Sparing s.log := by
  intro before after hsplit hno
  have hoff := countP_sinceLast before Entry.turnsOff hno
  have hon := countP_sinceLast before Entry.switchesOn hno
  rw [← hsplit] at hoff hon
  have hacted := h.acted
  have hbudget := h.budget
  have honce := h.once
  unfold turnOffs at hacted
  unfold switchOns at honce
  omega

theorem Inv.deadlines (h : Inv last s) : Deadlines s := by
  have hd : ∀ d, s.guard.nextDeadline = some d ↔ s.guard.waiting.map (·.until') = some d ∨ s.guard.restoreAt = some d := by
    intro d
    unfold Guard.nextDeadline
    rcases h.one_deadline with hnone | hnone
    · cases hr : s.guard.restoreAt <;> simp [hnone]
    · cases hw : s.guard.waiting <;> simp [hnone]
  refine ⟨fun d => ?_, fun d now hdue hle => ?_⟩
  · rw [hd d, h.awaited d, h.pending d]
  · have hm := onTimer_outcome h.one_deadline now
    show (s.guard.onTimer now).1.nextDeadline = none
    generalize s.guard.onTimer now = r at hm ⊢
    obtain ⟨g', acts⟩ := r
    rw [hd d] at hdue
    cases hm with
    | early hw hr =>
      rcases hdue with hdue | hdue
      · obtain ⟨w, hw', rfl⟩ := Option.map_eq_some_iff.mp hdue
        exact absurd (hw w hw') (by omega)
      · exact absurd (hr d hdue) (by omega)
    | lapses w hw hdw ha =>
      have hnone := h.no_restore (by rw [h.inStandby (by rw [hw]; rfl)]; nofun)
      simp [Guard.nextDeadline, hnone]
    | retries w hw hdw hp n =>
      have hnone := h.no_restore (by rw [hp]; nofun)
      simp [Guard.nextDeadline, hnone]
    | back t hr hdt =>
      have hnone := h.no_wait (by rw [h.isOn (by rw [hr]; rfl)]; nofun)
      simp [Guard.nextDeadline, hnone]
    | asks t hr hdt hp =>
      have hnone := h.no_wait (by rw [hp]; nofun)
      simp [Guard.nextDeadline, hnone]

/-- No event is of before what is on record. -/
def Timely (s : Story) (x : Event × Nat) : Prop := ∀ y ∈ s.log, y.now ≤ x.2

theorem along_timely {es : List (Event × Nat)} (hs : ∀ y ∈ s.log, ∀ x ∈ es, y.now ≤ x.2)
    (h : es.Pairwise fun a b => a.2 ≤ b.2) : Along Story.step Timely s es := by
  induction es generalizing s with
  | nil => trivial
  | cons x es ih =>
    rw [List.pairwise_cons] at h
    refine ⟨fun y hy => hs y hy x List.mem_cons_self, ih (fun y hy z hz => ?_) h.2⟩
    rcases List.mem_append.mp hy with hy | hy
    · exact hs y hy z (List.mem_cons_of_mem _ hz)
    · rw [List.mem_singleton.mp hy]
      exact h.1 z hz

end

/-- Whatever events a guard gets, at times that do not go back: each turn-off and each
    switch-on stands where it may, they are few, and deadlines stand while they should. -/
theorem guard_decides (now : Nat) (last : Option WifiLine) (es : List (Event × Nat)) (h : es.Pairwise fun a b => a.2 ≤ b.2) :
    let s := exec Story.step ⟨(Guard.start now last).1, []⟩ es
    Guarded (fun past x => TurnsOffRightly past x ∧ SwitchesOnRightly last past x) [] s.log ∧ Sparing s.log ∧ Deadlines s := by
  have hrun := along_timely (s := ⟨(Guard.start now last).1, []⟩) nofun h
  have hinv := invariant_along
    (I := fun s => Inv last s ∧ Guarded (fun past x => TurnsOffRightly past x ∧ SwitchesOnRightly last past x) [] s.log)
    (fun s x hs ht => ⟨hs.1.step x, guarded_append.mpr ⟨hs.2, ⟨hs.1.turnsOffRightly ht, hs.1.switchesOnRightly ht⟩, trivial⟩⟩)
    ⟨Inv.start now last, trivial⟩ hrun
  exact ⟨hinv.2, hinv.1.sparing, hinv.1.deadlines⟩

section

/-- Wi-Fi comes on in standby and is turned off. -/
def undone (t : Nat) : List (Event × Nat) :=
  [(.power "mode_power_off", secs t), (.wifi .powerOn, secs (t + 1)),
    (.keyLog (some "mode_power_off_quicken"), secs (t + 2))]

/-- The firmware does not report Wi-Fi back after the power-on. -/
def notBack (t : Nat) : List (Event × Nat) :=
  [(.wifi .powerOff, secs (t + 5)), (.power "mode_startup", secs (t + 10)), (.timer, secs (t + 100))]

theorem undone_and_restored :
    let s := exec Story.step ⟨(Guard.start 0 none).1, []⟩ (undone 600 ++ notBack 600 ++ [(.userSwitch (some true), secs 700)])
    s.log.map Entry.switchesOn = [false, false, false, false, false, false, true] ∧
      Guarded (fun past x => TurnsOffRightly past x ∧ SwitchesOnRightly none past x) [] s.log ∧ Sparing s.log ∧ Deadlines s :=
  ⟨by decide +kernel, guard_decides 0 none _ (by decide +kernel)⟩

/-- A power-on ends the wait for a turn-off, and the next standby sees another four seconds
    later; a Wi-Fi start between the question and its answer, undone again, does not hold the
    switch-on back. -/
theorem wait_dropped_and_start_missed :
    (¬ ∀ es : List (Event × Nat), (es.Pairwise fun a b => a.2 ≤ b.2) →
      Guarded (fun past x => x.turnsOff →
          ¬ Since (fun _ y => y.turnsOff ∧ x.now < y.now + confirmWithin) (fun y => y.reportsOff = false) past) []
        (exec Story.step ⟨(Guard.start 0 none).1, []⟩ es).log) ∧
      ¬ ∀ es : List (Event × Nat), (es.Pairwise fun a b => a.2 ≤ b.2) →
        Guarded (fun past x => x.switchesOn → Since (fun _ y => y.powerOn ∧ y.isPower) (fun y => y.startsWifi = false) past) []
          (exec Story.step ⟨(Guard.start 0 none).1, []⟩ es).log := by
  refine ⟨fun h => ?_, fun h => ?_⟩
  · have hg := h (undone 600 ++ [(.power "mode_startup", secs 603)] ++ undone 604) (by decide +kernel)
    revert hg
    decide +kernel
  · have hg := h (undone 600 ++ notBack 600 ++ [(.wifi .powerOn, secs 700), (.wifi .powerOff, secs 700),
      (.userSwitch (some true), secs 700)]) (by decide +kernel)
    revert hg
    decide +kernel

end

end OpenU60.StandbyGuard
