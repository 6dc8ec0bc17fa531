/-
  OpenU60.LiveActivity.Delivery — pushes are held back, resumed and overtaken as they should be.

  Each worker dates what it copies by a wrapping counter and acts on the copy only if the
  counter stands where it did. So an attempt's result is recorded for the state it was taken
  from, and a probe's for the network it was started on, unless the counter has gone all the
  way round in between.
  - `delivery_holds`: in every run without that, no attempt is taken after an event until a probe
    started after it has succeeded, overtaken results change nothing, a repeated registration
    only its expiry, and the push thread is never parked without a reason (`Reason`): in
    particular in no back-off older than an event, a resume or a new registration.
  - `recorded_after_whole_turn`: the run in which the counter goes round.
-/

import OpenU60.Lib.Counter
import OpenU60.Lib.History
import OpenU60.Lib.Machine
import OpenU60.LiveActivity.Workers

namespace OpenU60.LiveActivity

open OpenU60.Lib OpenU60.Lib.Machine OpenU60.Lib.History OpenU60.Lib.Counter

/-! ## What is said of the record -/

namespace Note

/-- The generation is moved by it. -/
def moves : Note → Bool
  | .event => true
  | .registered _ => true
  | .unregistered => true
  | .resumed => true
  | .lost => true
  | _ => false

/-- The network revision is moved by it. -/
def revises : Note → Bool
  | .event => true
  | .registered reprobed => reprobed
  | _ => false

/-- No push waits out a back-off of before it. -/
def frees : Note → Bool
  | .event => true
  | .registered _ => true
  | .resumed => true
  | _ => false

theorem moves_of_frees {n : Note} (h : n.frees = true) : n.moves = true := by
  cases n <;> first | rfl | cases h

theorem revises_of_moves {n : Note} (h : n.moves = false) : n.revises = false := by
  cases n <;> first | rfl | cases h

end Note

/-- How many notes of a kind come after the last `n`. -/
def countSince (kind : Note → Bool) (n : Note) (log : List Note) : Nat := (sinceLast (· = n) log).countP kind

/-- A copy of a counter was made at the last `mark`; the notes since say how far the counter is. -/
def Dates (kind : Note → Bool) (mark : Note) (log : List Note) (copy counter : UInt64) : Prop :=
  counter = copy + UInt64.ofNat (countSince kind mark log)

/-- After every event a probe has been started and has succeeded. -/
def Verified (log : List Note) : Prop :=
  ∀ before after, log = before ++ .event :: after → [Note.started, .succeeded].Sublist after

/-- Where an attempt may be taken and a result recorded. -/
def Allowed (past : List Note) : Note → Prop
  | .took => Verified past
  | .recorded => Since (fun _ n => n = .took) (fun n => n.moves = false) past
  | _ => True

/-- An event, a resume or a new registration since the last back-off was set. -/
def Freed (log : List Note) : Prop := Since (fun _ n => n.frees = true) (· ≠ .recorded) log

/-- An event since the last probe was started. -/
def Overtaken (log : List Note) : Prop := Since (fun _ n => n = .event) (· ≠ .started) log

section

variable {kind : Note → Bool} {n x : Note} {log l : List Note}

theorem countSince_snoc :
    countSince kind n (log ++ [x]) = if x = n then 0 else countSince kind n log + if kind x then 1 else 0 := by
  unfold countSince
  rw [sinceLast_snoc]
  by_cases hx : x = n
  · simp [hx]
  · simp [hx, List.countP_append, List.countP_cons]

theorem countSince_append (h : n ∉ l) : countSince kind n (log ++ l) = countSince kind n log + l.countP kind := by
  unfold countSince
  rw [sinceLast_append (fun y hy => by simp; rintro rfl; exact h hy), List.countP_append]

theorem Dates.append {c g : UInt64} (h : Dates kind n log c g) (hn : n ∉ l) :
    Dates kind n (log ++ l) c (g + UInt64.ofNat (l.countP kind)) := by
  unfold Dates at *
  rw [countSince_append hn, UInt64.ofNat_add, ← UInt64.add_assoc, ← h]

/-- A note that does not move the counter: the copy is as old as it was, or made at it. -/
theorem Dates.snoc {c g : UInt64} (hk : kind x = false) (hkept : x ≠ n → Dates kind n log c g) (hnew : x = n → c = g) :
    Dates kind n (log ++ [x]) c g := by
  unfold Dates at *
  by_cases hx : x = n
  · rw [countSince_snoc, if_pos hx, hnew hx]
    exact (UInt64.add_zero _).symm
  · rw [countSince_snoc, if_neg hx, hk]
    exact hkept hx

/-- An unmoved counter has no note since. -/
theorem Dates.count_eq {c g : UInt64} (h : Dates kind n log c g) (hlap : ¬ Lapped 0 (countSince kind n log)) (hsame : g = c) :
    countSince kind n log = 0 := eq_zero_of_add_ofNat hlap (h.symm.trans hsame)

theorem Verified.append (h : Verified log) (hl : Note.event ∉ l) : Verified (log ++ l) := by
  intro before after e
  rcases List.append_eq_append_iff.mp e with ⟨m, rfl, hm⟩ | ⟨m, rfl, hm⟩
  · exact absurd (hm ▸ by simp) hl
  · rcases List.cons_eq_append_iff.mp hm with ⟨rfl, hm⟩ | ⟨m, rfl, rfl⟩
    · cases hm
      exact absurd (List.mem_cons_self ..) hl
    · exact (h before m rfl).trans (List.sublist_append_left _ _)

/-- A probe nothing has overtaken vouches for every event before it. -/
theorem verified_of_succeeded (h : countSince Note.revises .started log = 0) : Verified (log ++ [.succeeded]) := by
  intro before after e
  rcases snoc_split e with ⟨-, hz, -⟩ | ⟨rest, rfl, rfl⟩
  · cases hz
  · obtain ⟨y, hy, hs⟩ := exists_after (x := Note.event) (r := (· = .started)) rfl rfl h
    have hy' : y = .started := by simpa using hs
    subst hy'
    exact (List.singleton_sublist.mpr hy).append (List.Sublist.refl [Note.succeeded])

theorem Overtaken.revised (h : Overtaken log) : countSince Note.revises .started log ≠ 0 := by
  obtain ⟨before, x, after, rfl, rfl, hafter⟩ := h
  intro hzero
  obtain ⟨y, hy, hs⟩ := exists_after (x := Note.event) (r := (· = .started)) rfl rfl hzero
  exact hafter y hy (by simpa using hs)

theorem freed_of_append (hl : ∀ x ∈ l, x.frees = false) (h : Freed (log ++ l)) : Freed log :=
  since_of_append (fun x hx => by rw [hl x hx]; exact Bool.false_ne_true) h

end

/-! ## The invariant -/

namespace PushPhase

/-- The attempt under way. -/
def attempt : PushPhase → Option Attempt
  | .taken a => some a
  | .sampling a => some a
  | .checking a => some a
  | .sending a => some a
  | .unsent a _ => some a
  | _ => none

end PushPhase

namespace World

/-- What the push thread waits for while it is parked. -/
def Reason (w : World) : Why → Prop
  | .noUtc => w.state.recovery.utc w.now = none
  | .noActivity => w.state.activity = none
  | .paused => w.state.recovery.paused = true
  | .clock => False
  | .backoff => ¬ Freed w.log

/-- Where two copies of a counter are compared it has not gone round since the first. -/
def Unlapped (w : World) : Event → Prop
  | .push _ =>
    match w.pusher.phase with
    | .looking => ¬ Lapped 0 (countSince Note.moves .looked w.log)
    | .checking _ => ¬ Lapped 0 (countSince Note.moves .took w.log)
    | .sending _ => ¬ Lapped 0 (countSince Note.moves .took w.log)
    | .unsent _ _ => ¬ Lapped 0 (countSince Note.moves .took w.log)
    | _ => True
  | .probe _ =>
    match w.prober.phase with
    | .probing _ => ¬ Lapped 0 (countSince Note.revises .started w.log)
    | _ => True
  | _ => True

instance (w : World) : ∀ e, Decidable (w.Unlapped e)
  | .push _ =>
    match h : w.pusher.phase with
    | .looking => decidable_of_iff (¬ Lapped 0 (countSince Note.moves .looked w.log)) (by simp only [Unlapped, h])
    | .checking _ | .sending _ | .unsent _ _ =>
      decidable_of_iff (¬ Lapped 0 (countSince Note.moves .took w.log)) (by simp only [Unlapped, h])
    | .starting | .parked _ _ | .taken _ | .sampling _ | .stopped => .isTrue (by simp only [Unlapped, h])
  | .probe _ =>
    match h : w.prober.phase with
    | .probing _ => decidable_of_iff (¬ Lapped 0 (countSince Note.revises .started w.log)) (by simp only [Unlapped, h])
    | .starting | .looking | .stopped => .isTrue (by simp only [Unlapped, h])
  | .pass _ | .occur _ _ | .register _ _ | .store _ | .unregister | .wake => .isTrue trivial

structure Core (w : World) : Prop where
  observed : Dates Note.moves .looked w.log w.pusher.observed w.state.generation
  attempt : ∀ a, w.pusher.phase.attempt = some a →
    Dates Note.moves .took w.log a.generation w.state.generation ∧ Note.took ∈ w.log
  probing : ∀ r, w.prober.phase = .probing r → Dates Note.revises .started w.log r w.state.recovery.revision
  verified : w.state.recovery.paused = false → Verified w.log
  anchored : ∀ e t, w.state.recovery.anchor = some (e, t) → 1700000000 ≤ e
  backoff : Freed w.log → 0 < countSince Note.moves .looked w.log ∨ w.pusher.next ≤ w.now
  allowed : Guarded Allowed [] w.log

structure Inv (w : World) : Prop extends Core w where
  parked : ∀ why d, w.pusher.phase = .parked why d → w.Reason why

variable {w : World}

theorem Inv.init : Inv {} where
  observed := rfl
  attempt := nofun
  probing := nofun
  verified := fun _ before after e => by simp at e
  anchored := nofun
  backoff := fun h => absurd h not_since_nil
  allowed := trivial
  parked := nofun

/-- Notes a thread makes when it moves the counters. -/
def Plain (l : List Note) : Prop := Note.looked ∉ l ∧ Note.took ∉ l ∧ Note.started ∉ l ∧ Note.recorded ∉ l

/-- The state is changed by anything but a look, an attempt taken or recorded, a probe started:
    the notes say how the counters have moved. -/
theorem Core.updated (h : Core w) {s : State} {p : Pusher} {l : List Note} (hl : Plain l) (hobs : p.observed = w.pusher.observed)
    (hnext : p.next = w.pusher.next) (hatt : ∀ a, p.phase.attempt = some a → w.pusher.phase.attempt = some a)
    (hgen : s.generation = w.state.generation + UInt64.ofNat (l.countP Note.moves))
    (hrev : s.recovery.revision = w.state.recovery.revision + UInt64.ofNat (l.countP Note.revises))
    (hpaused : s.recovery.paused = false → Verified (w.log ++ l))
    (hanchor : ∀ e t, s.recovery.anchor = some (e, t) → 1700000000 ≤ e) :
    Core { w with state := s, pusher := p, log := w.log ++ l } := by
  obtain ⟨hlook, htook, hstart, hrec⟩ := hl
  constructor
  · show Dates Note.moves .looked (w.log ++ l) p.observed s.generation
    rw [hgen, hobs]
    exact h.observed.append hlook
  · intro a ha
    obtain ⟨hg, hm⟩ := h.attempt a (hatt a ha)
    refine ⟨?_, List.mem_append_left _ hm⟩
    show Dates Note.moves .took (w.log ++ l) a.generation s.generation
    rw [hgen]
    exact hg.append htook
  · intro r hr
    show Dates Note.revises .started (w.log ++ l) r s.recovery.revision
    rw [hrev]
    exact (h.probing r hr).append hstart
  · exact hpaused
  · exact hanchor
  · intro hf
    show 0 < countSince Note.moves .looked (w.log ++ l) ∨ p.next ≤ w.now
    rw [countSince_append hlook, hnext]
    by_cases hm : l.countP Note.moves = 0
    · have hfree : ∀ x ∈ l, x.frees = false := fun x hx =>
        Bool.eq_false_iff.mpr fun hf => List.countP_eq_zero.mp hm x hx (Note.moves_of_frees hf)
      rcases h.backoff (freed_of_append hfree hf) with hb | hb
      · exact .inl (by omega)
      · exact .inr hb
    · exact .inl (by omega)
  · refine guarded_append.mpr ⟨h.allowed, guarded_of_free fun x hx past => ?_⟩
    cases x with
    | took => exact absurd hx htook
    | recorded => exact absurd hx hrec
    | _ => trivial

/-- A note that moves no counter, whatever copy is made at it. -/
theorem Core.noted (h : Core w) {n : Note} {s : State} {p : Pusher} {pr : Prober} (hmoves : n.moves = false)
    (hgen : s.generation = w.state.generation) (hrec : s.recovery = w.state.recovery)
    (hobs : n ≠ .looked → p.observed = w.pusher.observed) (hlooked : n = .looked → p.observed = w.state.generation)
    (hatt : ∀ a, p.phase.attempt = some a →
      (n ≠ .took → w.pusher.phase.attempt = some a) ∧ (n = .took → a.generation = w.state.generation))
    (hpr : ∀ r, pr.phase = .probing r →
      (n ≠ .started → w.prober.phase = .probing r) ∧ (n = .started → r = w.state.recovery.revision))
    (hnext : Freed (w.log ++ [n]) → 0 < countSince Note.moves .looked (w.log ++ [n]) ∨ p.next ≤ w.now) (hallow : Allowed w.log n) :
    Core { w with state := s, pusher := p, prober := pr, log := w.log ++ [n] } where
  observed := by
    show Dates Note.moves .looked (w.log ++ [n]) p.observed s.generation
    rw [hgen]
    exact .snoc hmoves (fun hn => hobs hn ▸ h.observed) hlooked
  attempt := by
    intro a ha
    obtain ⟨hold, hnew⟩ := hatt a ha
    constructor
    · show Dates Note.moves .took (w.log ++ [n]) a.generation s.generation
      rw [hgen]
      exact .snoc hmoves (fun hn => (h.attempt a (hold hn)).1) hnew
    · by_cases hn : n = .took
      · exact List.mem_append_right _ (List.mem_singleton.mpr hn.symm)
      · exact List.mem_append_left _ (h.attempt a (hold hn)).2
  probing := by
    intro r hr
    obtain ⟨hold, hnew⟩ := hpr r hr
    show Dates Note.revises .started (w.log ++ [n]) r s.recovery.revision
    rw [hrec]
    exact .snoc (Note.revises_of_moves hmoves) (fun hn => h.probing r (hold hn)) hnew
  verified := by
    rw [hrec]
    intro hp
    refine (h.verified hp).append ?_
    rw [List.mem_singleton]
    rintro rfl
    cases hmoves
  anchored := by rw [hrec]; exact h.anchored
  backoff := hnext
  allowed := guarded_append.mpr ⟨h.allowed, hallow, trivial⟩

/-- Nothing the invariant speaks of is changed. -/
theorem Inv.elsewhere (h : Inv w) {pr : Prober} {calls : Nat → Call} {told : List Bool}
    (hpr : ∀ r, pr.phase = .probing r → w.prober.phase = .probing r) :
    Inv { w with prober := pr, calls := calls, watchdog := told } := { h with
  probing := fun r hr => h.probing r (hpr r hr) }

end World

/-! ## Changes that are notified -/

namespace Pusher

variable (p : Pusher)

@[simp] theorem notified_observed : p.notified.observed = p.observed := by unfold notified; split <;> rfl
@[simp] theorem notified_next : p.notified.next = p.next := by unfold notified; split <;> rfl

theorem notified_attempt {a : Attempt} (h : p.notified.phase.attempt = some a) : p.phase.attempt = some a := by
  unfold notified at h
  split at h
  · cases h
  · exact h

theorem notified_not_parked {why : Why} {d : Option Nat} : p.notified.phase ≠ .parked why d := by
  unfold notified
  split
  · nofun
  · rename_i hno
    exact hno why d

end Pusher

namespace World

variable {w : World}

theorem Inv.announced (h : Inv w) {s : State} {l : List Note} (hl : Plain l)
    (hgen : s.generation = w.state.generation + UInt64.ofNat (l.countP Note.moves))
    (hrev : s.recovery.revision = w.state.recovery.revision + UInt64.ofNat (l.countP Note.revises))
    (hpaused : s.recovery.paused = false → Verified (w.log ++ l))
    (hanchor : ∀ e t, s.recovery.anchor = some (e, t) → 1700000000 ≤ e) :
    Inv (({ w with state := s }.notify).noted l) where
  toCore := h.updated hl w.pusher.notified_observed w.pusher.notified_next (fun _ => w.pusher.notified_attempt) hgen hrev hpaused hanchor
  parked := fun _ _ hp => absurd hp w.pusher.notified_not_parked

theorem Inv.notify (h : Inv w) : Inv w.notify := by
  have := h.announced (s := w.state) (l := []) ⟨nofun, nofun, nofun, nofun⟩ (UInt64.add_zero _).symm (UInt64.add_zero _).symm
    (by simpa using h.verified) h.anchored
  simpa [noted, World.notify] using this

theorem Inv.recoveryEvent (h : Inv w) (name : String) (value : Json) : Inv (w.recoveryEvent name value) := by
  unfold World.recoveryEvent
  split
  · exact h
  · split
    · exact h
    · exact h.announced ⟨by simp, by simp, by simp, by simp⟩ rfl rfl (fun hp => by cases hp) h.anchored

theorem Inv.unregister (h : Inv w) : Inv w.unregister :=
  h.announced ⟨by simp, by simp, by simp, by simp⟩ rfl (UInt64.add_zero _).symm (fun hp => (h.verified hp).append (by simp)) h.anchored

theorem Inv.register (h : Inv w) (i : Nat) (body : Option Registration) : Inv (w.register i body) := by
  unfold World.register
  repeat' split
  all_goals exact h.elsewhere fun _ hr => hr

theorem Inv.store (h : Inv w) (i : Nat) (r : Registration) : Inv (w.store i r) := by
  unfold World.store State.register
  by_cases hr : w.state.holds r = true
  · rw [if_pos hr, if_pos hr]
    have hrenewed := h.announced (s := { w.state with activity := w.state.activity.map fun a => { a with expiresAt := r.expiresAt } }) (l := [])
      ⟨nofun, nofun, nofun, nofun⟩ (UInt64.add_zero _).symm (UInt64.add_zero _).symm (by simpa using h.verified) h.anchored
    exact hrenewed.elsewhere fun _ hq => hq
  · rw [if_neg hr, if_neg hr]
    refine Inv.elsewhere (h.announced (l := [.registered w.state.recovery.paused]) ⟨by simp, by simp, by simp, by simp⟩ rfl ?_ ?_ ?_)
      fun _ hr => hr
    · cases hp : w.state.recovery.paused
      · simp [Note.revises]
      · simp [hp, Note.revises, Recovery.reprobe]
    · intro hp
      cases hq : w.state.recovery.paused with
      | false => exact (h.verified hq).append (by simp)
      | true =>
        rw [hq] at hp
        simp [Recovery.reprobe, hq] at hp
    · intro e t ha
      refine h.anchored e t ?_
      cases hq : w.state.recovery.paused <;> simpa [hq, Recovery.reprobe] using ha

end World

/-! ## The recovery thread -/

namespace World

variable {w : World}

theorem epoch_of_parsed {d : Except String Nat} {e : Nat} (h : d.bind parseServerTime = .ok e) : 1700000000 ≤ e := by
  cases d with
  | error m => cases h
  | ok n =>
    change parseServerTime n = .ok e at h
    unfold parseServerTime at h
    split at h
    · cases h
      omega
    · cases h

theorem utc_none_later {r : Recovery} {now : Nat} (d : Nat) (h : r.utc now = none) : r.utc (now + d) = none := by
  unfold Recovery.utc at *
  cases ha : r.anchor with
  | none => rfl
  | some a =>
    simp only [ha, Option.bind_some, ite_eq_right_iff, reduceCtorEq, imp_false, Nat.not_lt] at h ⊢
    omega

theorem Inv.pass (h : Inv w) (d : Nat) : Inv { w with now := w.now + d } := { h with
  backoff := fun hf => (h.backoff hf).imp_right fun hn => Nat.le_add_right_of_le hn
  parked := by
    intro why d' hp
    have hr := h.parked why d' hp
    cases why with
    | noUtc => exact utc_none_later d hr
    | _ => exact hr }

theorem Core.backoff_snoc (h : Core w) {n : Note} (hmoves : n.moves = false) (hn : n ≠ .looked) (hf : Freed (w.log ++ [n])) :
    0 < countSince Note.moves .looked (w.log ++ [n]) ∨ w.pusher.next ≤ w.now := by
  rw [countSince_snoc, if_neg hn, hmoves]
  refine h.backoff (freed_of_append (fun x hx => ?_) hf)
  rw [List.mem_singleton.mp hx]
  exact Bool.eq_false_iff.mpr fun hfrees => Bool.eq_false_iff.mp hmoves (Note.moves_of_frees hfrees)

/-- A probe is started. -/
theorem Inv.started (h : Inv w) {p : Prober} (hp : p.phase = .probing w.state.recovery.revision) :
    Inv ({ w with prober := p }.noted [Note.started]) where
  toCore := by
    refine h.noted rfl rfl rfl (fun _ => rfl) nofun (fun _ ha => ⟨fun _ => ha, nofun⟩) (fun r hr => ⟨fun hn => absurd rfl hn, fun _ => ?_⟩)
      (h.backoff_snoc rfl nofun) trivial
    exact (ProberPhase.probing.inj (hp.symm.trans hr)).symm
  parked := by
    intro why d hq
    have hr := h.parked why d hq
    cases why with
    | backoff => exact fun hf => hr (freed_of_append (by simp [Note.frees]) hf)
    | _ => exact hr

/-- The recovery thread sets the clock. -/
theorem Inv.repaired (h : Inv w) (x : ProbeEnv) : Inv { w with state := w.state.repairClock w.now x } := by
  unfold State.repairClock
  split
  · split
    · exact ⟨{ h with }, fun why d hp => by
        have hr := h.parked why d hp
        cases why <;> exact hr⟩
    · exact h
  · exact h

theorem Inv.probed (h : Inv w) (hcount : countSince Note.revises .started w.log = 0) (x : ProbeEnv) {result : Except String Nat}
    (hepoch : ∀ e, result = .ok e → 1700000000 ≤ e) : Inv (w.probed x result) := by
  unfold World.probed
  cases result with
  | error message =>
    dsimp only
    have hidle : Inv { w with prober := w.prober.failed w.now } := h.elsewhere fun r hr => hr
    split
    · have := hidle.announced (s := w.state.unverified message) (l := []) ⟨nofun, nofun, nofun, nofun⟩ (UInt64.add_zero _).symm
        (UInt64.add_zero _).symm (fun hq => by cases hq) h.anchored
      simpa [noted, World.notify] using this
    · exact hidle.announced (s := w.state.bump.unverified message) (l := [.lost]) ⟨by simp, by simp, by simp, by simp⟩ rfl
        (UInt64.add_zero _).symm (fun hq => by cases hq) h.anchored
  | ok epoch =>
    dsimp only
    have hanchor : ∀ e t, some (epoch, w.now) = some (e, t) → 1700000000 ≤ e := by
      rintro e t ⟨⟩
      exact hepoch epoch rfl
    have hverified := verified_of_succeeded hcount
    have hidle : Inv { w with prober := { w.prober with failures := 0, lastOk := some w.now } } := h.elsewhere fun r hr => hr
    split
    · refine hidle.announced (l := [.succeeded, .resumed]) ⟨by simp, by simp, by simp, by simp⟩ rfl (UInt64.add_zero _).symm (fun _ => ?_)
        hanchor
      rw [show w.log ++ [Note.succeeded, .resumed] = (w.log ++ [.succeeded]) ++ [.resumed] by simp]
      exact hverified.append (by simp)
    · rename_i hheld
      obtain ⟨hpaused, hutc⟩ : w.state.recovery.paused = false ∧ (w.state.recovery.utc w.now).isNone = false := by
        simpa only [State.heldBack, Bool.not_eq_true, Bool.or_eq_false_iff] using hheld
      refine ⟨hidle.updated (l := [.succeeded]) ⟨by simp, by simp, by simp, by simp⟩ rfl rfl (fun _ ha => ha) (UInt64.add_zero _).symm
        (UInt64.add_zero _).symm (fun _ => hverified) hanchor, fun why d hp => ?_⟩
      have hr := h.parked why d hp
      cases why with
      | noUtc =>
        rw [show w.state.recovery.utc w.now = none from hr] at hutc
        cases hutc
      | paused => cases hpaused.symm.trans hr
      | backoff => exact fun hf => hr (freed_of_append (by simp [Note.frees]) hf)
      | _ => exact hr

theorem Inv.probe (h : Inv w) (x : ProbeEnv) (hlap : w.Unlapped (.probe x)) : Inv (w.probe x) := by
  unfold World.probe
  cases hp : w.prober.phase with
  | starting =>
    dsimp only
    split <;> exact h.elsewhere nofun
  | stopped => exact h
  | looking =>
    dsimp only
    have hkept : ((w.prober.observe w.state w.now).cadence w.state w.now).phase = .looking := by
      unfold Prober.cadence Prober.observe
      repeat' split
      all_goals exact hp
    split
    · refine (h.repaired x).elsewhere fun r hr => ?_
      cases hkept.symm.trans hr
    · exact (h.repaired x).started rfl
  | probing revision =>
    dsimp only
    have hidle : Inv { w with
        watchdog := w.watchdog ++ [(x.date.bind parseServerTime).isOk], prober := { w.prober with phase := .looking } } :=
      h.elsewhere nofun
    split
    · exact hidle
    · rename_i hrev
      refine hidle.probed ?_ x fun e he => epoch_of_parsed he
      simp only [Unlapped, hp] at hlap
      exact (h.probing revision hp).count_eq hlap (Decidable.not_not.mp hrev)

end World

/-! ## The push thread -/

namespace Pusher

variable {p : Pusher} {s : State} {now : Nat}

theorem observe_observed : (p.observe s now).observed = s.generation := by
  unfold observe
  split
  · rfl
  · rename_i h
    exact (Decidable.not_not.mp h).symm

/-- A moved generation ends the back-off. -/
theorem observe_next {log : List Note} (hdates : Dates Note.moves .looked log p.observed s.generation)
    (hlap : ¬ Lapped 0 (countSince Note.moves .looked log)) (h : 0 < countSince Note.moves .looked log ∨ p.next ≤ now) :
    (p.observe s now).next ≤ now := by
  unfold observe
  split
  · exact Nat.le_refl _
  · rename_i heq
    have hn := hdates.count_eq hlap (Decidable.not_not.mp heq)
    rcases h with h | h
    · omega
    · exact h

end Pusher

namespace State

variable (s : State)

@[simp] theorem dropExpired_generation (clock : Nat) : (s.dropExpired clock).generation = s.generation := by
  unfold dropExpired; split <;> rfl
@[simp] theorem dropExpired_recovery (clock : Nat) : (s.dropExpired clock).recovery = s.recovery := by
  unfold dropExpired; split <;> rfl
@[simp] theorem record_generation (o : Outcome) (now : Nat) : (s.record o now).generation = s.generation := by cases o <;> rfl
@[simp] theorem record_recovery (o : Outcome) (now : Nat) : (s.record o now).recovery = s.recovery := by cases o <;> rfl

end State

namespace World

variable {w : World}

theorem Core.moved (h : Core w) {p : Pusher} (hobs : p.observed = w.pusher.observed) (hnext : p.next = w.pusher.next)
    (hatt : ∀ a, p.phase.attempt = some a → w.pusher.phase.attempt = some a) : Core { w with pusher := p } := { h with
  observed := by rw [hobs]; exact h.observed
  attempt := fun a ha => h.attempt a (hatt a ha)
  backoff := by rw [hnext]; exact h.backoff }

/-- The generation is observed. -/
theorem Core.looked (h : Core w) {s : State} {p : Pusher} (hgen : s.generation = w.state.generation)
    (hrec : s.recovery = w.state.recovery) (hobs : p.observed = w.state.generation) (hnext : Freed w.log → p.next ≤ w.now)
    (hatt : p.phase.attempt = none) : Core ({ w with state := s, pusher := p }.noted [Note.looked]) :=
  h.noted rfl hgen hrec (fun hn => absurd rfl hn) (fun _ => hobs) (fun a ha => by cases hatt.symm.trans ha) (fun _ hr => ⟨fun _ => hr, nofun⟩)
    (fun hf => .inr (hnext (freed_of_append (by simp [Note.frees]) hf))) trivial

theorem Core.took (h : Core w) {a : Attempt} (ha : a.generation = w.state.generation) (hpaused : w.state.recovery.paused = false) :
    Core ({ w with pusher := { w.pusher with phase := .taken a } }.noted [Note.took]) := by
  refine h.noted rfl rfl rfl (fun _ => rfl) nofun (fun b hb => ⟨fun hn => absurd rfl hn, fun _ => ?_⟩) (fun _ hr => ⟨fun _ => hr, nofun⟩)
    (h.backoff_snoc rfl nofun) (h.verified hpaused)
  cases hb
  exact ha

theorem Core.recorded (h : Core w) {s : State} {p : Pusher} (hgen : s.generation = w.state.generation)
    (hrec : s.recovery = w.state.recovery) (hobs : p.observed = w.pusher.observed) (hatt : p.phase.attempt = none)
    (hallow : Allowed w.log .recorded) : Core ({ w with state := s, pusher := p }.noted [Note.recorded]) := by
  refine h.noted rfl hgen hrec (fun _ => hobs) nofun (fun a ha => by cases hatt.symm.trans ha) (fun _ hr => ⟨fun _ => hr, nofun⟩)
    (fun hf => ?_) hallow
  rcases since_snoc.mp hf with hx | ⟨-, hx⟩
  · cases hx
  · exact absurd rfl hx

theorem utc_past {r : Recovery} {now clock : Nat} (hanchor : ∀ e t, r.anchor = some (e, t) → 1700000000 ≤ e)
    (h : r.utc now = some clock) : 1700000000 ≤ clock := by
  unfold Recovery.utc at h
  cases ha : r.anchor with
  | none =>
    rw [ha] at h
    cases h
  | some a =>
    have he := hanchor a.1 a.2 ha
    simp only [ha, Option.bind_some, Option.ite_none_right_eq_some, Option.some.injEq, saturatingAdd] at h
    have hmax : Text.u64Max = 18446744073709551615 := rfl
    omega

theorem Inv.look (h : Inv w) (hlap : ¬ Lapped 0 (countSince Note.moves .looked w.log)) :
    Inv w.look := by
  unfold World.look
  cases hutc : w.state.recovery.utc w.now with
  | none =>
    refine ⟨h.toCore.moved rfl rfl (fun _ ha => by cases ha), ?_⟩
    rintro why d ⟨⟩
    exact hutc
  | some clock =>
    dsimp only
    generalize hs : w.state.dropExpired clock = s
    have hgen : s.generation = w.state.generation := hs ▸ State.dropExpired_generation ..
    have hrec : s.recovery = w.state.recovery := hs ▸ State.dropExpired_recovery ..
    generalize ho : w.pusher.observe s w.now = p
    have hobs : p.observed = w.state.generation := ho ▸ Pusher.observe_observed.trans hgen
    have hnext : Freed w.log → p.next ≤ w.now := fun hf => ho ▸ Pusher.observe_next (hgen ▸ h.observed) hlap (h.backoff hf)
    have hparked (why : Why) (d : Option Nat) := h.looked (p := p.park why d) hgen hrec hobs hnext rfl
    cases ha : s.activity with
    | none =>
      refine ⟨hparked .noActivity none, ?_⟩
      rintro why d ⟨⟩
      exact ha
    | some a =>
      dsimp only [Pusher.attempt]
      by_cases hpaused : s.recovery.paused = true
      · rw [if_pos hpaused]
        refine ⟨hparked .paused _, ?_⟩
        rintro why d ⟨⟩
        exact hpaused
      rw [if_neg hpaused]
      have hclock := utc_past h.anchored hutc
      by_cases hready : 1700000000 ≤ clock ∧ p.next ≤ w.now
      · rw [if_pos hready]
        have hlooked := h.looked (p := { p with phase := .looking }) hgen hrec hobs hnext rfl
        have htook := hlooked.took (a := ⟨a, s.generation, clock⟩) rfl (Bool.eq_false_iff.mpr hpaused)
        refine ⟨?_, fun _ _ hq => by cases hq⟩
        simpa only [noted, List.append_assoc, List.singleton_append] using htook
      · rw [if_neg hready, if_neg (Nat.not_lt.mpr hclock)]
        refine ⟨hparked .backoff _, ?_⟩
        rintro why d ⟨⟩ (hf : Freed (w.log ++ [Note.looked]))
        exact hready ⟨hclock, hnext (freed_of_append (by simp [Note.frees]) hf)⟩

/-- Where the generation is that of the attempt, its result may be recorded. -/
theorem Inv.allowed_recorded (h : Inv w) {a : Attempt} (ha : w.pusher.phase.attempt = some a)
    (hlap : ¬ Lapped 0 (countSince Note.moves .took w.log)) (hsame : w.state.generation = a.generation) :
    Allowed w.log .recorded := by
  obtain ⟨hdates, hmem⟩ := h.attempt a ha
  have hsince := since_of_countP (r := (· = Note.took)) ⟨_, hmem, by simp⟩ (hdates.count_eq hlap hsame)
  exact hsince.mono (fun _ _ hx => by simpa using hx) fun _ hx => hx

theorem Inv.finish (h : Inv w) {cfg : Config} {a : Attempt} {o : Outcome} (ha : w.pusher.phase.attempt = some a)
    (hlap : ¬ Lapped 0 (countSince Note.moves .took w.log)) : Inv (w.finish cfg a o) := by
  unfold World.finish
  split
  · exact ⟨h.toCore.moved rfl rfl (fun _ hb => by cases hb), fun _ _ hq => by cases hq⟩
  · rename_i hsame
    exact ⟨h.toCore.recorded (State.record_generation ..) (State.record_recovery ..) rfl rfl
      (h.allowed_recorded ha hlap (Decidable.not_not.mp hsame)), fun _ _ hq => by cases hq⟩

/-- Within an attempt, or out of it. -/
theorem Inv.going (h : Inv w) {phase : PushPhase} (hatt : ∀ a, phase.attempt = some a → w.pusher.phase.attempt = some a)
    (hno : ∀ why d, phase ≠ .parked why d) : Inv (w.going phase) :=
  ⟨h.toCore.moved rfl rfl hatt, fun why d hq => absurd hq (hno why d)⟩

theorem Inv.push (h : Inv w) {cfg : Config} {x : PushEnv} (hlap : w.Unlapped (.push x)) : Inv (w.push cfg x) := by
  unfold World.push
  unfold Unlapped at hlap
  cases hp : w.pusher.phase with
  | starting =>
    dsimp only
    split
    · exact ⟨{ h with attempt := fun _ ha => (by cases ha), backoff := fun _ => .inr (Nat.le_refl _) },
        fun _ _ hq => by cases hq⟩
    · exact ⟨{ h with attempt := fun _ ha => (by cases ha) },
        fun _ _ hq => by cases hq⟩
  | stopped => exact h
  | looking =>
    rw [hp] at hlap
    exact h.look hlap
  | parked why d => exact h
  | taken a =>
    have hatt : ∀ b, (PushPhase.sampling a).attempt = some b → w.pusher.phase.attempt = some b := by rw [hp]; exact fun _ hb => hb
    dsimp only
    split
    · exact ⟨h.toCore.moved rfl rfl hatt, fun _ _ hq => by cases hq⟩
    · exact h.going hatt nofun
  | sampling a =>
    dsimp only
    repeat' split
    all_goals exact h.going (by rw [hp]; exact fun _ hb => hb) nofun
  | checking a =>
    dsimp only
    split
    · exact h.going (by rw [hp]; exact fun _ hb => hb) nofun
    · exact h.going (fun _ hb => by cases hb) nofun
  | sending a =>
    rw [hp] at hlap
    exact h.finish (by rw [hp]; rfl) hlap
  | unsent a message =>
    rw [hp] at hlap
    exact h.finish (by rw [hp]; rfl) hlap

theorem Inv.step (h : Inv w) {cfg : Config} {e : Event} (hlap : w.Unlapped e) : Inv (w.step cfg e) := by
  cases e with
  | pass d => exact h.pass d
  | occur name value => exact h.recoveryEvent name value
  | register i body =>
    dsimp only [World.step]
    split
    · exact h.register i body
    · exact h
  | store i =>
    dsimp only [World.step]
    split
    · exact h.store i _
    · exact h
  | unregister => exact h.unregister
  | probe x => exact h.probe x hlap
  | push x => exact h.push hlap
  | wake => exact h.notify

/-! ## What every step does -/

variable (cfg : Config)

/-- The result of a probe that an event has overtaken is told to the watchdog and dropped. -/
def DropsOvertaken (w : World) (e : Event) : Prop :=
  ∀ x r, e = .probe x → w.prober.phase = .probing r → Overtaken w.log → ∃ reached,
    w.step cfg e = { w with watchdog := w.watchdog ++ [reached], prober := { w.prober with phase := .looking } }

/-- A registration of the token held changes its expiry, and the threads are notified. -/
def Renews (w : World) (e : Event) : Prop :=
  ∀ i r a, e = .store i → w.calls i = .storing r → w.state.activity = some a → a.pushToken = r.pushToken →
    w.step cfg e =
      { w with state := { w.state with activity := some { a with expiresAt := r.expiresAt } } }.notify.called i (.done (.ok ()))

/-- No attempt is taken and no result written without a note. -/
def Logged (w : World) (e : Event) : Prop :=
  (∀ a, (w.step cfg e).pusher.phase = .taken a → w.pusher.phase = .taken a ∨ (w.step cfg e).log = w.log ++ [Note.looked, .took]) ∧
    ∀ x, e = .push x → w.pusher.phase.attempt.isSome = true → (w.step cfg e).log = w.log ++ [Note.recorded] ∨
      (w.step cfg e).state = w.state ∧ (w.step cfg e).pusher.next = w.pusher.next ∧ (w.step cfg e).pusher.failures = w.pusher.failures

variable {cfg}

theorem Inv.dropsOvertaken (h : Inv w) {e : Event} (hlap : w.Unlapped e) : w.DropsOvertaken cfg e := by
  rintro x r rfl hp hover
  refine ⟨(x.date.bind parseServerTime).isOk, ?_⟩
  simp only [Unlapped, hp] at hlap
  have hmoved : w.state.recovery.revision ≠ r := fun hsame => hover.revised ((h.probing r hp).count_eq hlap hsame)
  simp only [World.step, World.probe, hp, ne_eq, hmoved, not_false_eq_true, if_true]

theorem renews (w : World) (e : Event) : w.Renews cfg e := by
  rintro i r a rfl hc ha htoken
  have hholds : w.state.holds r = true := by simp [State.holds, ha, htoken]
  simp only [World.step, hc, World.store, State.register, hholds, if_true, ha, Option.map_some, noted, List.append_nil]

theorem notified_taken {p : Pusher} {a : Attempt} (h : p.notified.phase = .taken a) : p.phase = .taken a := by
  unfold Pusher.notified at h
  split at h
  · cases h
  · exact h

theorem look_taken {a : Attempt} (h : w.look.pusher.phase = .taken a) : w.look.log = w.log ++ [Note.looked, .took] := by
  unfold World.look at *
  split at h
  · cases h
  · rename_i clock hutc
    dsimp only at h ⊢
    split at h
    · cases h
    · rename_i b hb
      have hphase : ((w.pusher.observe (w.state.dropExpired clock) w.now).attempt (w.state.dropExpired clock) b clock w.now).phase = .taken a := h
      show w.log ++ _ = _
      rw [hphase]

/-- The other threads leave the push thread alone, or notify it. -/
theorem step_pusher (w : World) {e : Event} (he : ∀ x, e ≠ .push x) :
    (w.step cfg e).pusher = w.pusher ∨ (w.step cfg e).pusher = w.pusher.notified := by
  cases e with
  | pass d => exact .inl rfl
  | occur name value =>
    simp only [World.step, World.recoveryEvent]
    repeat' split
    · exact .inl rfl
    · exact .inl rfl
    · exact .inr rfl
  | register i body =>
    simp only [World.step, World.register]
    repeat' split
    all_goals exact .inl rfl
  | store i =>
    simp only [World.step]
    split
    · exact .inr rfl
    · exact .inl rfl
  | unregister => exact .inr rfl
  | probe x =>
    simp only [World.step, World.probe, World.probed]
    repeat' split
    all_goals first | exact .inl rfl | exact .inr rfl
  | push x => exact absurd rfl (he x)
  | wake => exact .inr rfl

theorem finish_logged (w : World) (a : Attempt) (o : Outcome) :
    (w.finish cfg a o).log = w.log ++ [Note.recorded] ∨
      (w.finish cfg a o).state = w.state ∧ (w.finish cfg a o).pusher.next = w.pusher.next ∧
        (w.finish cfg a o).pusher.failures = w.pusher.failures := by
  unfold World.finish
  dsimp only
  split
  · exact .inr ⟨rfl, rfl, rfl⟩
  · exact .inl rfl

theorem finish_phase (w : World) (a : Attempt) (o : Outcome) : (w.finish cfg a o).pusher.phase = .looking := by
  unfold World.finish
  dsimp only
  split <;> rfl

theorem push_taken {x : PushEnv} {a : Attempt} (h : (w.push cfg x).pusher.phase = .taken a) :
    w.pusher.phase = .taken a ∨ (w.push cfg x).log = w.log ++ [Note.looked, .took] := by
  unfold World.push at *
  cases hp : w.pusher.phase with
  | starting =>
    simp only [hp] at h
    split at h <;> cases h
  | stopped =>
    simp only [hp] at h
    exact .inl h
  | looking =>
    simp only [hp] at h
    exact .inr (look_taken h)
  | parked why d =>
    simp only [hp] at h
    exact .inl h
  | taken b =>
    simp only [hp] at h
    split at h <;> cases h
  | sampling b =>
    simp only [hp] at h
    repeat' split at h
    all_goals cases h
  | checking b =>
    simp only [hp] at h
    split at h <;> cases h
  | sending b =>
    simp only [hp, finish_phase] at h
    cases h
  | unsent b message =>
    simp only [hp, finish_phase] at h
    cases h

theorem push_logged (w : World) (x : PushEnv) (hatt : w.pusher.phase.attempt.isSome = true) :
    (w.push cfg x).log = w.log ++ [Note.recorded] ∨
      (w.push cfg x).state = w.state ∧ (w.push cfg x).pusher.next = w.pusher.next ∧
        (w.push cfg x).pusher.failures = w.pusher.failures := by
  unfold World.push
  cases hp : w.pusher.phase with
  | sending a => exact finish_logged w a x.outcome
  | unsent a message => exact finish_logged w a (.retry message)
  | taken a =>
    dsimp only
    split <;> exact .inr ⟨rfl, rfl, rfl⟩
  | sampling a =>
    dsimp only
    repeat' split
    all_goals exact .inr ⟨rfl, rfl, rfl⟩
  | checking a =>
    dsimp only
    split <;> exact .inr ⟨rfl, rfl, rfl⟩
  | _ =>
    rw [hp] at hatt
    cases hatt

theorem logged (w : World) (e : Event) : w.Logged cfg e := by
  constructor
  · intro a ha
    by_cases he : ∀ x, e ≠ .push x
    · have hpusher : (w.step cfg e).pusher = w.pusher ∨ (w.step cfg e).pusher = w.pusher.notified := step_pusher w he
      rcases hpusher with hsame | hnotified
      · exact .inl (hsame ▸ ha)
      · exact .inl (notified_taken (hnotified ▸ ha))
    · cases e with
      | push x => exact push_taken ha
      | _ => exact absurd nofun he
  · rintro x rfl hatt
    exact push_logged w x hatt

end World

/-! ## The run -/

/-- In every run in which no counter goes round between a copy of it and the comparison: an
    attempt is taken only where a probe started after every event has succeeded, and a result
    recorded only where the generation has not been moved since; a parked push thread has its
    reason; an overtaken probe is dropped, a repeated registration renews. -/
theorem delivery_holds (cfg : Config) (es : List Event) (h : Along (World.step cfg) World.Unlapped {} es) :
    Guarded Allowed [] (exec (World.step cfg) {} es).log ∧
      (∀ why d, (exec (World.step cfg) {} es).pusher.phase = .parked why d → (exec (World.step cfg) {} es).Reason why) ∧
        Along (World.step cfg) (fun w e => w.DropsOvertaken cfg e ∧ w.Renews cfg e ∧ w.Logged cfg e) {} es := by
  have hstep (w : World) (e : Event) (hinv : w.Inv) (hlap : w.Unlapped e) : (w.step cfg e).Inv := hinv.step hlap
  have hinv : (exec (World.step cfg) {} es).Inv := invariant_along hstep World.Inv.init h
  refine ⟨hinv.allowed, hinv.parked, ?_⟩
  exact along_of_invariant hstep (fun w e hw hlap => ⟨hw.dropsOvertaken hlap, World.renews w e, World.logged w e⟩) World.Inv.init h

section

def token : String := "00112233445566778899aabbccddeeff"

def wanStatus (status : String) : Event := .occur "router_event_wan_connect_status" (.obj [("wan_status", .str status)])

def reached : Event := .probe { date := .ok 1700000000 }

/-- Both threads start, UTC is verified and an activity registered. -/
def registering : List Event :=
  [.probe {}, .push {}, .push {}, reached, reached, .register 0 (some ⟨token, 1700003600⟩), .store 0]

/-- An attempt up to the sending. -/
def attempting : List Event := [.push {}, .push {}, .push {}, .push {}]

/-- A push fails and backs off. The WAN comes up: pushes stop; the registration is repeated; the WAN
    goes down and up again while a probe is under way, and the next one resumes them at once. -/
def outage : List Event :=
  [.push { outcome := .retry "APNs transport failed" }, .push {}, wanStatus "connected", .push {}, .register 1 (some ⟨token, 1700007200⟩),
    .store 1, .push {}, reached, .pass 3000, reached, wanStatus "disconnected", wanStatus "connected", reached, .push {}, reached, .pass 3000,
    reached, reached, .push {}]

theorem resumed_after_last_event :
    let w := exec (World.step ⟨15, 60⟩) {} (registering ++ attempting ++ outage)
    Verified w.log.dropLast ∧ w.log.drop 6 =
      [.recorded, .looked, .event, .looked, .looked, .started, .event, .event, .looked, .started, .succeeded, .resumed, .looked, .took] := by
  have h := delivery_holds ⟨15, 60⟩ (registering ++ attempting ++ outage) (by decide +kernel)
  have hlog : (exec (World.step ⟨15, 60⟩) {} (registering ++ attempting ++ outage)).log =
      [.started, .succeeded, .resumed, .registered false, .looked, .took, .recorded, .looked, .event, .looked, .looked, .started, .event,
        .event, .looked, .started, .succeeded, .resumed, .looked, .took] := by decide +kernel
  refine ⟨guarded_iff.mp h.1 _ .took [] ?_, ?_⟩ <;> rw [hlog] <;> rfl

theorem exec_unregister (cfg : Config) (n : Nat) {w : World} {a : Attempt} (hp : w.pusher.phase = .sending a) :
    let v := exec (World.step cfg) w (List.replicate n .unregister)
    v.state.generation = w.state.generation + UInt64.ofNat n ∧ v.log = w.log ++ List.replicate n .unregistered ∧
      v.pusher.phase = .sending a := by
  induction n generalizing w with
  | zero => exact ⟨(UInt64.add_zero _).symm, (List.append_nil _).symm, hp⟩
  | succ n ih =>
    have hq : (w.step cfg .unregister).pusher.phase = .sending a := by
      show w.pusher.notified.phase = _
      unfold Pusher.notified
      rw [hp]
      exact hp
    obtain ⟨hgen, hlog, hphase⟩ := ih hq
    rw [List.replicate_succ, exec_cons]
    refine ⟨?_, ?_, hphase⟩
    · rw [hgen, ofNat_succ, UInt64.add_comm _ 1, ← UInt64.add_assoc]
      rfl
    · rw [hlog, List.replicate_succ, List.append_cons]
      rfl

/-- Unregistrations take the generation all the way round while a push is being sent: its result
    is recorded for an activity that is gone. -/
theorem recorded_after_whole_turn :
    ¬ ∀ es, Guarded Allowed [] (exec (World.step ⟨15, 60⟩) {} es).log := by
  intro hall
  obtain ⟨n, hturn⟩ : ∃ n, UInt64.ofNat (n + 1) = 0 := ⟨2 ^ 64 - 1, rfl⟩
  have hsending : (exec (World.step ⟨15, 60⟩) {} (registering ++ attempting)).pusher.phase =
      .sending ⟨⟨token, 1700003600⟩, 2, 1700000000⟩ := by decide +kernel
  have hgeneration : (exec (World.step ⟨15, 60⟩) {} (registering ++ attempting)).state.generation = 2 := by decide +kernel
  obtain ⟨hgen, hlog, hphase⟩ := exec_unregister ⟨15, 60⟩ (n + 1) hsending
  have hbad := hall (registering ++ attempting ++ List.replicate (n + 1) .unregister ++ [.push {}])
  rw [exec_snoc, exec_append] at hbad
  have hrecorded : ∀ v : World, v.pusher.phase = .sending ⟨⟨token, 1700003600⟩, 2, 1700000000⟩ → v.state.generation = 2 →
      (v.step ⟨15, 60⟩ (.push {})).log = v.log ++ [.recorded] := by
    intro v hv hg
    simp only [World.step, World.push, hv, World.finish, hg, ne_eq, not_true, if_false]
    rfl
  rw [hrecorded _ hphase (hgen.trans (by rw [hgeneration, hturn]; rfl)), hlog] at hbad
  have hsince := guarded_iff.mp hbad _ .recorded [] rfl
  rw [List.nil_append, List.replicate_succ', ← List.append_assoc] at hsince
  rcases since_snoc.mp hsince with hx | ⟨-, hx⟩
  · cases hx
  · cases hx

end

end OpenU60.LiveActivity
