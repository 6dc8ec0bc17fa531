/-
  OpenU60.Events.Schedule — when the sampler reads a topic (`zte-agent/src/events/hub.rs`: `due_time`,
  `due_job_locked`, and what `store_at`, `set`, `touch` and `subscribe` leave for them).

  `Moved` is what one event does to the fields that a topic's due time is made of. `Paced` is the watched
  hub with the clock of its last event and the time each topic was last subscribed to.
  - `Slot.Rests`: after a read is stored at `t` a topic rests until half a second later, whatever is
    touched, pushed and stored in between; a new subscription may ask for it at once (`rests_run`).
  - `Inv.promised`: a touched topic is due within half a second of its touch, of the end of a read that
    began before the touch, or of a subscription, whichever is last; the sampler does not sleep longer.
  - `hub_scheduling` is both along every run, and that no back-off is more than a minute.
-/

import Mathlib
import OpenU60.Events.Freshness

namespace OpenU60.Events

open OpenU60.Lib OpenU60.Lib.Machine

variable {V : Type}

def settleReread : Nat := 2000

/-! ## When a topic is due -/

namespace State

/-- What asks for a read of the topic, and when. -/
def asks (st : State V) (t : Topic) (now : Nat) : List (Option Nat) :=
  let s := st.slots t
  let cadence := st.cadence t
  (match s.lastRead with
    | none => [some now]
    | some last =>
      [cadence.map (last + ·), if s.settleUntil.any (now < ·) then some (last + settleReread) else none,
        if s.errRetry && cadence.isNone then some (last + s.errBackoff) else none]) ++
    [if s.stale then some (s.pullAfter.getD now) else none, s.recheckAt]

/-- When the sampler should next read the topic, if ever. -/
def dueTime (st : State V) (t : Topic) (now : Nat) : Option Nat := ((st.asks t now).filterMap id).min?

/-- The earliest due topic of the lane, else the earliest due time. -/
def dueJob (st : State V) (lane : Lane) (now : Nat) : Except (Option Nat) Topic :=
  let due := Topic.all.filterMap fun t =>
    if lane = .none ∨ t.spec.lane ≠ lane ∨ st.demand t = 0 then none else (st.dueTime t now).map (·, t)
  match Vec.firstMin (·.1) due with
  | some (_, due, t) => if due ≤ now then .ok t else .error (some due)
  | none => .error none

variable {st : State V} {t : Topic} {now d : Nat}

/-- What a due time is. -/
theorem dueTime_cases (h : st.dueTime t now = some d) :
    ((st.slots t).lastRead = none ∧ d = now) ∨
    (∃ last, (st.slots t).lastRead = some last ∧ ((∃ c, st.cadence t = some c ∧ d = last + c) ∨ d = last + settleReread ∨
      (st.slots t).errRetry = true ∧ d = last + (st.slots t).errBackoff)) ∨
    ((st.slots t).stale = true ∧ d = (st.slots t).pullAfter.getD now) ∨ (st.slots t).recheckAt = some d := by
  have hmem : some d ∈ st.asks t now := by
    obtain ⟨a, ha, rfl⟩ := List.mem_filterMap.mp (List.min?_mem h)
    exact ha
  rcases List.mem_append.mp hmem with hread | hasked
  · cases hlast : (st.slots t).lastRead with
    | none =>
      rw [hlast] at hread
      exact .inl ⟨rfl, Option.some.inj (List.mem_singleton.mp hread)⟩
    | some last =>
      rw [hlast] at hread
      refine .inr (.inl ⟨last, rfl, ?_⟩)
      rcases List.mem_cons.mp hread with hcadence | hread
      · obtain ⟨c, hc, hd⟩ := Option.map_eq_some_iff.mp hcadence.symm
        exact .inl ⟨c, hc, hd.symm⟩
      · rcases List.mem_cons.mp hread with hsettle | hread
        · split at hsettle
          · exact .inr (.inl (Option.some.inj hsettle))
          · cases hsettle
        · have hretry := List.mem_singleton.mp hread
          split at hretry
          · rename_i hb
            exact .inr (.inr ⟨(Bool.and_eq_true_iff.mp hb).1, Option.some.inj hretry⟩)
          · cases hretry
  · rcases List.mem_cons.mp hasked with hstale | hrecheck
    · split at hstale
      · rename_i hs
        exact .inr (.inr (.inl ⟨hs, Option.some.inj hstale⟩))
      · cases hstale
    · exact .inr (.inr (.inr (List.mem_singleton.mp hrecheck).symm))

/-- A stale topic is due when it may be pulled, at the latest. -/
theorem dueTime_stale (h : (st.slots t).stale = true) (now : Nat) : ∃ d, st.dueTime t now = some d ∧ d ≤ (st.slots t).pullAfter.getD now := by
  have hmem : (st.slots t).pullAfter.getD now ∈ (st.asks t now).filterMap id := by
    refine List.mem_filterMap.mpr ⟨some ((st.slots t).pullAfter.getD now), List.mem_append_right _ ?_, rfl⟩
    rw [if_pos h]
    exact List.mem_cons_self
  cases hdue : st.dueTime t now with
  | none =>
    rw [List.min?_eq_none_iff.mp hdue] at hmem
    cases hmem
  | some d => exact ⟨d, rfl, (List.min?_eq_some_iff.mp hdue).2 _ hmem⟩

/-- The job is due, of the lane, and wanted. -/
theorem dueJob_ok {lane : Lane} (h : st.dueJob lane now = .ok t) : 0 < st.demand t ∧ t.spec.lane = lane ∧ ∃ d, st.dueTime t now = some d ∧ d ≤ now := by
  unfold dueJob at h
  dsimp only at h
  split at h
  · rename_i i due u hmin
    split at h
    · rename_i hready
      cases h
      have hmem := List.mem_of_getElem? (Vec.firstMin_some hmin).1
      obtain ⟨v, -, hv⟩ := List.mem_filterMap.mp hmem
      split at hv
      · cases hv
      · rename_i hwanted
        push Not at hwanted
        obtain ⟨d, hd, heq⟩ := Option.map_eq_some_iff.mp hv
        obtain ⟨rfl, rfl⟩ := Prod.mk.inj heq
        exact ⟨Nat.pos_of_ne_zero hwanted.2.2, hwanted.2.1, d, hd, hready⟩
    · cases h
  · cases h

/-- The sampler does not sleep past a wanted topic's due time. -/
theorem dueJob_wakes (hdue : st.dueTime t now = some d) (hdemand : 0 < st.demand t) (hlane : t.spec.lane ≠ .none) :
    (∃ u, st.dueJob t.spec.lane now = .ok u) ∨ ∃ d', st.dueJob t.spec.lane now = .error (some d') ∧ now < d' ∧ d' ≤ d := by
  have hmem : (d, t) ∈ Topic.all.filterMap fun u =>
      if t.spec.lane = .none ∨ u.spec.lane ≠ t.spec.lane ∨ st.demand u = 0 then none else (st.dueTime u now).map (·, u) := by
    refine List.mem_filterMap.mpr ⟨t, Topic.mem_all t, ?_⟩
    have hwanted : ¬ (t.spec.lane = .none ∨ t.spec.lane ≠ t.spec.lane ∨ st.demand t = 0) := by
      rintro (h | h | h)
      · exact hlane h
      · exact h rfl
      · omega
    rw [if_neg hwanted, hdue]
    rfl
  unfold dueJob
  dsimp only
  split
  · rename_i i due u hmin
    have hle : due ≤ d := (Vec.firstMin_some hmin).2 _ hmem
    split
    · exact .inl ⟨u, rfl⟩
    · rename_i hlater
      exact .inr ⟨due, rfl, Nat.lt_of_not_le hlater, hle⟩
  · rename_i hmin
    have hsome := Vec.firstMin_isSome (·.1) (List.ne_nil_of_mem hmem)
    rw [hmin] at hsome
    cases hsome

end State

/-! ## What one event does -/

/-- What a due time is made of, the settle window apart. -/
structure Plan where
  lastRead : Option Nat
  stale : Bool
  pullAfter : Option Nat
  errBackoff : Nat
  errRetry : Bool
  recheckAt : Option Nat

def Slot.plan (s : Slot V) : Plan := ⟨s.lastRead, s.stale, s.pullAfter, s.errBackoff, s.errRetry, s.recheckAt⟩

/-- A read that is stored. -/
structure Slot.ReadAs (t : Topic) (s s' : Slot V) (out : Option (ReadOut V)) (now : Nat) : Prop where
  lastRead : s'.lastRead = some now
  pull : s'.stale = false ∧ s'.pullAfter = none ∨ s'.stale = s.stale ∧ s'.pullAfter = some (now + touchCoalesce)
  backoff : match out with
    | none => s'.errBackoff = s.errBackoff ∧ s'.errRetry = s.errRetry
    | some out => s'.errBackoff = (if out.error.isSome then clamp errBackoffMin errBackoffMax (s.errBackoff * 2) else 0) ∧
        (s'.errRetry = true → out.error.isSome)
  recheck : s'.recheckAt = none ∨ s'.recheckAt = s.recheckAt ∧ (t = .esimDownload → out = none) ∨
    t = .esimDownload ∧ ∃ d, s'.recheckAt = some (now + d) ∧ settleReread ≤ d

/-- What one event does to a topic's plan. -/
inductive Moved (st : State V) (t : Topic) (s' : Slot V) : Event V → Prop
  | same (e : Event V) : s'.plan = (st.slots t).plan → Moved st t s' e
  | put (data : V) (now bootNow : Nat) :
      s'.plan = { (st.slots t).plan with lastRead := some now, stale := false, pullAfter := none, errBackoff := 0, errRetry := false } →
      Moved st t s' (.put t data now bootNow)
  | touch (settle : Option Nat) (now : Nat) :
      s'.plan = { (st.slots t).plan with stale := true, pullAfter := (st.slots t).pullAfter <|> some (now + touchCoalesce) } →
      Moved st t s' (.touch t settle now)
  | read (out : Option (ReadOut V)) (started now bootNow unixNow : Nat) : (st.slots t).ReadAs t s' out now →
      Moved st t s' (.store t out started now bootNow unixNow)
  /-- A new subscription that asks for a read at once. -/
  | asked (req : SubscribeReq) (now bootNow : Nat) : req.topics.contains t = true → (st.subscribe req now bootNow).1.isSome = true →
      s'.plan = { (st.slots t).plan with stale := true, pullAfter := some now } → Moved st t s' (.subscribe req now bootNow)

namespace State

theorem bump_plan (st : State V) (t u : Topic) : ((st.bump t).slots u).plan = (st.slots u).plan := by
  unfold bump setSlot wakeStreams
  dsimp only
  split
  · rename_i hu
    rw [hu]
    rfl
  · rfl

theorem setSlot_self (st : State V) (t : Topic) (s : Slot V) : (st.setSlot t s).slots t = s := if_pos rfl

theorem touch_other (st : State V) {t u : Topic} (hu : u ≠ t) (settle : Option Nat) (now : Nat) : (st.touch t settle now).slots u = st.slots u :=
  if_neg hu

theorem subscribe_moved (st : State V) (t : Topic) (req : SubscribeReq) (now bootNow : Nat) :
    Moved st t ((st.subscribe req now bootNow).2.slots t) (.subscribe req now bootNow) := by
  obtain ⟨hslots, -⟩ : (st.giveWay (st.evicted req)).slots = st.slots ∧ st.seq ≤ (st.giveWay (st.evicted req)).seq := giveWay_same _
  cases haccepted : (st.subscribe req now bootNow).1.isSome with
  | false =>
    refine .same _ ?_
    unfold subscribe at haccepted ⊢
    dsimp only at haccepted ⊢
    by_cases hroom : maxStreams ≤ st.live.length - if (st.evicted req).isSome then 1 else 0
    · rw [if_pos hroom]
    · rw [if_neg hroom] at haccepted ⊢
      split at haccepted
      · rfl
      · cases haccepted
  | true =>
    have hslot : ((st.subscribe req now bootNow).2.slots t).plan = (st.slots t).plan ∨ req.topics.contains t = true ∧
        ((st.subscribe req now bootNow).2.slots t).plan = { (st.slots t).plan with stale := true, pullAfter := some now } := by
      unfold subscribe
      dsimp only
      by_cases hroom : maxStreams ≤ st.live.length - if (st.evicted req).isSome then 1 else 0
      · rw [if_pos hroom]
        exact .inl rfl
      · rw [if_neg hroom]
        split
        · exact .inl rfl
        · rw [← hslots]
          generalize st.giveWay (st.evicted req) = st'
          show (if req.topics.contains t then st'.subscribeSlot t now bootNow else st'.slots t).plan = _ ∨ req.topics.contains t = true ∧
            (if req.topics.contains t then st'.subscribeSlot t now bootNow else st'.slots t).plan = _
          split
          · rename_i hin
            unfold subscribeSlot
            dsimp only
            split
            · exact .inl rfl
            · split
              · exact .inr ⟨hin, rfl⟩
              · exact .inl rfl
          · exact .inl rfl
    rcases hslot with hsame | ⟨hin, hasked⟩
    · exact .same _ hsame
    · exact .asked req now bootNow hin haccepted hasked

variable [DecidableEq V]

theorem put_moved (st : State V) (t u : Topic) (data : V) (now bootNow : Nat) :
    Moved st u ((st.put t data now bootNow).slots u) (.put t data now bootNow) := by
  by_cases hu : u = t
  · subst hu
    refine .put data now bootNow ?_
    unfold put
    dsimp only
    split
    · rw [bump_plan, setSlot_self]
      rfl
    · rw [setSlot_self]
      rfl
  · refine .same _ ?_
    rw [put_other st hu]

omit [DecidableEq V] in
theorem resultExpiry_le {r : Reading V} {view : V} {unixNow d : Nat} (h : resultExpiry r view unixNow = some d) : settleReread ≤ d := by
  unfold resultExpiry at h
  split at h
  · obtain ⟨finished, -, hd⟩ := Option.bind_eq_some_iff.mp h
    obtain rfl := Option.some.inj hd
    have hone : 1 ≤ clamp 1 resultKeepSecs (finished + resultKeepSecs - unixNow) := by
      unfold clamp resultKeepSecs
      omega
    unfold settleReread
    omega
  · cases h

/-- The plan of what is taken in. -/
theorem takeIn_plan (r : Reading V) (t : Topic) (slot : Slot V) (out : ReadOut V) (now unixNow : Nat) :
    (takeIn r t slot out now unixNow).2.plan = { slot.plan with
      recheckAt := match out.value with
        | some v => if t = .esimDownload then (resultExpiry r v unixNow).map (now + ·) else slot.recheckAt
        | none => slot.recheckAt } := by
  unfold takeIn
  cases out.value with
  | some v =>
    dsimp only
    by_cases hdownload : t = .esimDownload
    · rw [if_pos hdownload, if_pos hdownload]
      split <;> rfl
    · rw [if_neg hdownload, if_neg hdownload]
      split <;> rfl
  | none =>
    dsimp only
    split <;> rfl

theorem storeAt_plan (r : Reading V) (st : State V) (t : Topic) (out : Option (ReadOut V)) (started now bootNow unixNow : Nat)
    (h : (st.slots t).readStarted.any (started < ·) = false) :
    ((st.storeAt r t out started now bootNow unixNow).slots t).plan =
      match out with
      | none => (readSlot (st.slots t) started now bootNow).plan
      | some out => (takeIn r t (readOut (readSlot (st.slots t) started now bootNow) out bootNow) out now unixNow).2.plan := by
  unfold storeAt
  rw [if_neg (by rw [h]; exact Bool.false_ne_true)]
  dsimp only
  cases out with
  | none =>
    dsimp only
    rw [setSlot_self]
  | some out =>
    dsimp only
    split
    · rw [bump_plan, setSlot_self]
    · rw [setSlot_self]

omit [DecidableEq V] in
theorem readSlot_plan (slot : Slot V) (started now bootNow : Nat) :
    (readSlot slot started now bootNow).lastRead = some now ∧
      ((readSlot slot started now bootNow).stale = false ∧ (readSlot slot started now bootNow).pullAfter = none ∨
        (readSlot slot started now bootNow).stale = slot.stale ∧ (readSlot slot started now bootNow).pullAfter = some (now + touchCoalesce)) ∧
      (readSlot slot started now bootNow).errBackoff = slot.errBackoff ∧ (readSlot slot started now bootNow).errRetry = slot.errRetry ∧
      (readSlot slot started now bootNow).recheckAt = slot.recheckAt := by
  unfold readSlot
  dsimp only
  split
  · exact ⟨rfl, .inl ⟨rfl, rfl⟩, rfl, rfl, rfl⟩
  · exact ⟨rfl, .inr ⟨rfl, rfl⟩, rfl, rfl, rfl⟩

/-- A read that is not too late is stored, whatever it gave. -/
theorem storeAt_read (r : Reading V) (st : State V) (t : Topic) (out : Option (ReadOut V)) (started now bootNow unixNow : Nat)
    (hin : (st.slots t).readStarted.any (started < ·) = false) :
    (st.slots t).ReadAs t ((st.storeAt r t out started now bootNow unixNow).slots t) out now := by
  have hplan := storeAt_plan r st t out started now bootNow unixNow hin
  obtain ⟨hlast, hpull, hbackoff, hretry, hrecheck⟩ := readSlot_plan (st.slots t) started now bootNow
  generalize readSlot (st.slots t) started now bootNow = slot at hplan hlast hpull hbackoff hretry hrecheck
  generalize (st.storeAt r t out started now bootNow unixNow).slots t = s' at hplan ⊢
  cases out with
  | none =>
    obtain ⟨h1, h2, h3, h4, h5, h6⟩ := Plan.mk.inj hplan
    refine ⟨h1.trans hlast, ?_, ⟨h4.trans hbackoff, h5.trans hretry⟩, .inr (.inl ⟨h6.trans hrecheck, fun _ => rfl⟩)⟩
    rw [h2, h3]
    exact hpull
  | some out =>
    dsimp only at hplan
    rw [takeIn_plan] at hplan
    obtain ⟨h1, h2, h3, h4, h5, h6⟩ := Plan.mk.inj hplan
    refine ⟨h1.trans hlast, ?_, ⟨?_, ?_⟩, ?_⟩
    · rw [h2, h3]
      exact hpull
    · rw [h4, ← hbackoff]
      rfl
    · rw [h5]
      intro herr
      exact (Bool.and_eq_true_iff.mp herr).1
    · rw [h6]
      unfold readOut
      cases out.value with
      | none => exact .inl rfl
      | some v =>
        dsimp only
        by_cases hdownload : t = .esimDownload
        · rw [if_pos hdownload]
          cases hexpiry : resultExpiry r v unixNow with
          | none => exact .inl rfl
          | some d => exact .inr (.inr ⟨hdownload, d, rfl, resultExpiry_le hexpiry⟩)
        · rw [if_neg hdownload]
          exact .inr (.inl ⟨hrecheck, fun h => absurd h hdownload⟩)

theorem storeAt_moved (r : Reading V) (st : State V) (t u : Topic) (out : Option (ReadOut V)) (started now bootNow unixNow : Nat) :
    Moved st u ((st.storeAt r t out started now bootNow unixNow).slots u) (.store t out started now bootNow unixNow) := by
  by_cases hu : u = t
  · subst hu
    cases hlate : (st.slots u).readStarted.any (started < ·) with
    | true => exact .same _ (by rw [storeAt_late r st u out started now bootNow unixNow hlate])
    | false => exact .read out started now bootNow unixNow (storeAt_read r st u out started now bootNow unixNow hlate)
  · refine .same _ ?_
    rw [storeAt_other r st hu]

end State

namespace World

variable [DecidableEq V]

theorem subscribe_hub (r : Reading V) (w : World V) (req : SubscribeReq) (now bootNow : Nat) :
    (w.step r (.subscribe req now bootNow)).hub = (w.hub.subscribe req now bootNow).2 := by
  unfold step
  dsimp only
  split <;> (rename_i heq; rw [heq])

theorem step_moved (r : Reading V) (w : World V) (e : Event V) (t : Topic) : Moved w.hub t ((w.step r e).hub.slots t) e := by
  cases e with
  | put u data now bootNow => exact State.put_moved w.hub u t data now bootNow
  | store u out started now bootNow unixNow => exact State.storeAt_moved r w.hub u t out started now bootNow unixNow
  | touch u settle now =>
    by_cases ht : t = u
    · subst ht
      refine .touch settle now ?_
      show (((w.hub.touch t settle now).slots t)).plan = _
      unfold State.touch
      rw [State.setSlot_self]
      rfl
    · refine .same _ ?_
      show (((w.hub.touch u settle now).slots t)).plan = _
      rw [State.touch_other w.hub ht]
  | endSessions ids =>
    refine .same _ ?_
    show ((w.hub.endWhere _ _).slots t).plan = _
    rw [State.endWhere_slots]
  | endAll reason =>
    refine .same _ ?_
    show ((w.hub.endWhere _ _).slots t).plan = _
    rw [State.endWhere_slots]
  | subscribe req now bootNow =>
    rw [subscribe_hub]
    exact State.subscribe_moved w.hub t req now bootNow
  | drop entry =>
    refine .same _ ?_
    unfold step
    dsimp only
    split
    · rw [State.dropEntry_slots]
    · rfl
  | collect entry all => exact .same _ rfl

end World

/-! ## Rest -/

def Event.now : Event V → Option Nat
  | .put _ _ now _ => some now
  | .store _ _ _ now _ _ => some now
  | .touch _ _ now => some now
  | .subscribe _ now _ => some now
  | _ => none

/-- A new subscription to the topic. -/
def Event.takes (t : Topic) : Event V → Bool
  | .subscribe req _ _ => req.topics.contains t
  | _ => false

/-- Nothing asks for a read of the topic before `x`. -/
structure Slot.Rests (s : Slot V) (x : Nat) : Prop where
  lastRead : ∃ last, s.lastRead = some last ∧ x ≤ last + touchCoalesce
  retry : s.errRetry = true → errBackoffMin ≤ s.errBackoff
  stale : s.stale = true → s.pullAfter.isSome = true
  pull : ∀ p ∈ s.pullAfter, x ≤ p
  recheck : ∀ p ∈ s.recheckAt, x ≤ p

theorem Topic.cadence_le (t : Topic) : ∀ c ∈ t.spec.cadence, 1000 ≤ c := by
  cases t
  all_goals
    intro c hc
    revert hc
    simp [Topic.spec, specOf]
  all_goals
    try omega

theorem Slot.Rests.due {st : State V} {t : Topic} {x : Nat} (h : (st.slots t).Rests x) (hcadence : signalHintMin ≤ st.signalCadence) {q d : Nat}
    (hd : st.dueTime t q = some d) : x ≤ d := by
  obtain ⟨last, hlast, hx⟩ := h.lastRead
  have hcoalesce : touchCoalesce = 500 := rfl
  rcases State.dueTime_cases hd with ⟨hnone, -⟩ | ⟨last', hlast', hread⟩ | ⟨hstale, hpull⟩ | hrecheck
  · rw [hlast] at hnone
    cases hnone
  · obtain rfl := Option.some.inj (hlast.symm.trans hlast')
    rcases hread with ⟨c, hc, rfl⟩ | rfl | ⟨hretry, rfl⟩
    · obtain ⟨base, hbase, rfl⟩ := Option.map_eq_some_iff.mp hc
      have hle := Topic.cadence_le t base hbase
      unfold signalHintMin at hcadence
      split <;> omega
    · unfold settleReread
      omega
    · have := h.retry hretry
      unfold errBackoffMin at this
      omega
  · obtain ⟨p, hp⟩ := Option.isSome_iff_exists.mp (h.stale hstale)
    rw [hpull, hp]
    exact h.pull p hp
  · exact h.recheck d hrecheck

/-- Any event but a new subscription lets the topic rest, if it is not from before. -/
theorem Slot.Rests.moved {st : State V} {t : Topic} {s' : Slot V} {e : Event V} {x : Nat} (h : (st.slots t).Rests x) (hmoved : Moved st t s' e)
    (hnow : ∀ now ∈ e.now, x ≤ now + touchCoalesce) (htakes : e.takes t = false) : s'.Rests x := by
  cases hmoved with
  | same _ hplan =>
    have hlast : s'.lastRead = (st.slots t).lastRead := congrArg Plan.lastRead hplan
    have hstale : s'.stale = (st.slots t).stale := congrArg Plan.stale hplan
    have hpull : s'.pullAfter = (st.slots t).pullAfter := congrArg Plan.pullAfter hplan
    have hbackoff : s'.errBackoff = (st.slots t).errBackoff := congrArg Plan.errBackoff hplan
    have hretry : s'.errRetry = (st.slots t).errRetry := congrArg Plan.errRetry hplan
    have hrecheck : s'.recheckAt = (st.slots t).recheckAt := congrArg Plan.recheckAt hplan
    refine ⟨?_, ?_, ?_, ?_, ?_⟩
    · rw [hlast]
      exact h.lastRead
    · rw [hretry, hbackoff]
      exact h.retry
    · rw [hstale, hpull]
      exact h.stale
    · rw [hpull]
      exact h.pull
    · rw [hrecheck]
      exact h.recheck
  | put data now bootNow hplan =>
    have hrecheck : s'.recheckAt = (st.slots t).recheckAt := congrArg Plan.recheckAt hplan
    refine ⟨⟨now, congrArg Plan.lastRead hplan, hnow now rfl⟩, fun hr => ?_, fun hs => ?_, fun p hp => ?_, fun p hp => ?_⟩
    · cases hr.symm.trans (congrArg Plan.errRetry hplan)
    · cases hs.symm.trans (congrArg Plan.stale hplan)
    · cases hp.symm.trans (congrArg Plan.pullAfter hplan)
    · exact h.recheck p (hrecheck.symm.trans hp)
  | touch settle now hplan =>
    have hlast : s'.lastRead = (st.slots t).lastRead := congrArg Plan.lastRead hplan
    have hpull : s'.pullAfter = ((st.slots t).pullAfter <|> some (now + touchCoalesce)) := congrArg Plan.pullAfter hplan
    have hbackoff : s'.errBackoff = (st.slots t).errBackoff := congrArg Plan.errBackoff hplan
    have hretry : s'.errRetry = (st.slots t).errRetry := congrArg Plan.errRetry hplan
    have hrecheck : s'.recheckAt = (st.slots t).recheckAt := congrArg Plan.recheckAt hplan
    refine ⟨?_, ?_, fun _ => ?_, fun p hp => ?_, ?_⟩
    · rw [hlast]
      exact h.lastRead
    · rw [hretry, hbackoff]
      exact h.retry
    · rw [hpull]
      cases (st.slots t).pullAfter <;> rfl
    · rw [hpull] at hp
      cases hold : (st.slots t).pullAfter with
      | none =>
        rw [hold] at hp
        cases hp
        exact hnow now rfl
      | some p' =>
        rw [hold] at hp
        cases hp
        exact h.pull p hold
    · rw [hrecheck]
      exact h.recheck
  | read out started now bootNow unixNow hread =>
    have hx : x ≤ now + touchCoalesce := hnow now rfl
    refine ⟨⟨now, hread.lastRead, hx⟩, fun hr => ?_, fun hs => ?_, fun p hp => ?_, fun p hp => ?_⟩
    · have hbackoff := hread.backoff
      cases out with
      | none =>
        rw [hbackoff.1]
        exact h.retry (hbackoff.2 ▸ hr)
      | some out =>
        rw [hbackoff.1, if_pos (hbackoff.2 hr)]
        unfold clamp errBackoffMin errBackoffMax
        omega
    · rcases hread.pull with ⟨hclean, -⟩ | ⟨-, hpull⟩
      · rw [hclean] at hs
        cases hs
      · rw [hpull]
        rfl
    · rcases hread.pull with ⟨-, hpull⟩ | ⟨-, hpull⟩
      · rw [hpull] at hp
        cases hp
      · rw [hpull] at hp
        cases hp
        exact hx
    · rcases hread.recheck with hnone | ⟨hsame, -⟩ | ⟨-, d, hd, hle⟩
      · rw [hnone] at hp
        cases hp
      · exact h.recheck p (hsame ▸ hp)
      · rw [hd] at hp
        cases hp
        unfold settleReread at hle
        unfold touchCoalesce at hx
        omega
  | asked req now bootNow hin =>
    rw [Event.takes, hin] at htakes
    cases htakes

/-- A read that gave something lets its topic rest. -/
theorem Slot.ReadAs.rests {t : Topic} {s s' : Slot V} {out : ReadOut V} {now : Nat} (h : s.ReadAs t s' (some out) now)
    (hrecheck : t ≠ .esimDownload → s.recheckAt = none) : s'.Rests (now + touchCoalesce) := by
  refine ⟨⟨now, h.lastRead, Nat.le_refl _⟩, fun hr => ?_, fun hs => ?_, fun p hp => ?_, fun p hp => ?_⟩
  · rw [h.backoff.1, if_pos (h.backoff.2 hr)]
    unfold clamp errBackoffMin errBackoffMax
    omega
  · rcases h.pull with ⟨hclean, -⟩ | ⟨-, hpull⟩
    · rw [hclean] at hs
      cases hs
    · rw [hpull]
      rfl
  · rcases h.pull with ⟨-, hpull⟩ | ⟨-, hpull⟩
    · rw [hpull] at hp
      cases hp
    · rw [hpull] at hp
      cases hp
      exact Nat.le_refl _
  · rcases h.recheck with hnone | ⟨hsame, hdownload⟩ | ⟨-, d, hd, hle⟩
    · rw [hnone] at hp
      cases hp
    · by_cases ht : t = .esimDownload
      · cases hdownload ht
      · rw [hsame, hrecheck ht] at hp
        cases hp
    · rw [hd] at hp
      cases hp
      unfold settleReread at hle
      unfold touchCoalesce
      omega

/-! ## The fastest cadence -/

namespace State

theorem recompute_cadence_min (st : State V) : signalHintMin ≤ st.recomputeSignalCadence.signalCadence := by
  unfold recomputeSignalCadence
  dsimp only
  cases hmin : ((st.live.filter (·.2.topics.contains .signal)).map fun p =>
      clamp signalHintMin signalHintMax (p.2.signalHint.getD Events.signalCadence)).min? with
  | none => exact (by decide : signalHintMin ≤ Events.signalCadence)
  | some c =>
    obtain ⟨p, -, rfl⟩ := List.mem_map.mp (List.min?_mem hmin)
    show signalHintMin ≤ clamp signalHintMin signalHintMax _
    unfold clamp signalHintMin signalHintMax
    omega

theorem endWhere_cadence (st : State V) (p : StreamEntry → Bool) (reason : EndReason) : signalHintMin ≤ (st.endWhere p reason).signalCadence := by
  obtain ⟨st', heq, -⟩ : ∃ st' : State V, st.endWhere p reason = st'.recomputeSignalCadence.wakeStreams ∧ True :=
    endWhere_keeps (P := fun _ => True) (fun _ _ _ _ => trivial) p reason trivial
  rw [heq]
  exact recompute_cadence_min st'

end State

theorem World.step_cadence [DecidableEq V] (r : Reading V) (w : World V) (e : Event V) (h : signalHintMin ≤ w.hub.signalCadence) :
    signalHintMin ≤ (w.step r e).hub.signalCadence := by
  cases e with
  | put t data now bootNow =>
    show signalHintMin ≤ (w.hub.put t data now bootNow).signalCadence
    unfold State.put
    dsimp only
    split
    all_goals exact h
  | store t out started now bootNow unixNow =>
    show signalHintMin ≤ (w.hub.storeAt r t out started now bootNow unixNow).signalCadence
    unfold State.storeAt
    split
    · exact h
    · cases out with
      | none => exact h
      | some out =>
        dsimp only
        split
        all_goals exact h
  | touch t settle now => exact h
  | endSessions ids => exact State.endWhere_cadence ..
  | endAll reason => exact State.endWhere_cadence ..
  | subscribe req now bootNow =>
    rw [subscribe_hub]
    unfold State.subscribe
    dsimp only
    by_cases hroom : maxStreams ≤ w.hub.live.length - if (w.hub.evicted req).isSome then 1 else 0
    · rw [if_pos hroom]
      exact h
    · rw [if_neg hroom]
      split
      · exact h
      · exact State.recompute_cadence_min _
  | drop entry =>
    unfold step
    dsimp only
    split
    · exact State.recompute_cadence_min _
    · exact h
  | collect entry all => exact h

/-! ## The paced hub -/

/-- The watched hub with the clock of its last event, and when each topic was last subscribed to. -/
structure Paced (V : Type) where
  watched : Watched V
  clock : Nat
  subscribed : Topic → Nat

section

variable {st : State V} {t : Topic} {s' : Slot V} {e : Event V}

theorem Moved.backoff (hmoved : Moved st t s' e) (h : (st.slots t).errBackoff ≤ errBackoffMax) : s'.errBackoff ≤ errBackoffMax := by
  cases hmoved with
  | same _ hplan | touch _ _ hplan | asked _ _ _ _ _ hplan =>
    have hsame : s'.errBackoff = (st.slots t).errBackoff := congrArg Plan.errBackoff hplan
    rw [hsame]
    exact h
  | put _ _ _ hplan =>
    have hzero : s'.errBackoff = 0 := congrArg Plan.errBackoff hplan
    rw [hzero]
    exact Nat.zero_le _
  | read out _ now _ _ hread =>
    have hbackoff := hread.backoff
    cases out with
    | none => exact hbackoff.1 ▸ h
    | some out =>
      rw [hbackoff.1]
      split
      · exact Nat.min_le_right ..
      · exact Nat.zero_le _

theorem Moved.recheck (hmoved : Moved st t s' e) (ht : t ≠ .esimDownload) (h : (st.slots t).recheckAt = none) : s'.recheckAt = none := by
  cases hmoved with
  | same _ hplan | touch _ _ hplan | asked _ _ _ _ _ hplan | put _ _ _ hplan => exact (congrArg Plan.recheckAt hplan).trans h
  | read out _ now _ _ hread =>
    rcases hread.recheck with hnone | ⟨hsame, -⟩ | ⟨hdownload, -⟩
    · exact hnone
    · exact hsame.trans h
    · exact absurd hdownload ht

theorem Moved.stale (hmoved : Moved st t s' e) (h : (st.slots t).stale = true → (st.slots t).pullAfter.isSome = true) (hs : s'.stale = true) :
    s'.pullAfter.isSome = true := by
  cases hmoved with
  | same _ hplan =>
    have hpull : s'.pullAfter = (st.slots t).pullAfter := congrArg Plan.pullAfter hplan
    rw [hpull]
    exact h ((congrArg Plan.stale hplan : s'.stale = _).symm.trans hs)
  | put _ _ _ hplan => cases hs.symm.trans (congrArg Plan.stale hplan)
  | touch _ now hplan =>
    have hpull : s'.pullAfter = ((st.slots t).pullAfter <|> some (now + touchCoalesce)) := congrArg Plan.pullAfter hplan
    rw [hpull]
    cases (st.slots t).pullAfter <;> rfl
  | asked _ now _ _ _ hplan =>
    have hpull : s'.pullAfter = some now := congrArg Plan.pullAfter hplan
    rw [hpull]
    rfl
  | read out _ now _ _ hread =>
    rcases hread.pull with ⟨hclean, -⟩ | ⟨-, hpull⟩
    · rw [hclean] at hs
      cases hs
    · rw [hpull]
      rfl

/-- What a topic may be pulled after: what was there, or something of the event. -/
theorem Moved.pull (hmoved : Moved st t s' e) {y : Nat} (hy : y ∈ s'.pullAfter) : y ∈ (st.slots t).pullAfter ∧ (s'.lastRead = (st.slots t).lastRead) ∨
    (∃ now, e.now = some now ∧ s'.lastRead = some now ∧ y = now + touchCoalesce) ∨
    (∃ settle now, e = .touch t settle now ∧ (st.slots t).pullAfter = none ∧ y = now + touchCoalesce) ∨
    ∃ req now bootNow, e = .subscribe req now bootNow ∧ req.topics.contains t = true ∧ (st.subscribe req now bootNow).1.isSome = true ∧ y = now := by
  cases hmoved with
  | same _ hplan => exact .inl ⟨(congrArg Plan.pullAfter hplan : s'.pullAfter = (st.slots t).pullAfter).symm.trans hy, congrArg Plan.lastRead hplan⟩
  | put _ _ _ hplan => cases hy.symm.trans (congrArg Plan.pullAfter hplan)
  | touch settle now hplan =>
    have hpull : s'.pullAfter = ((st.slots t).pullAfter <|> some (now + touchCoalesce)) := congrArg Plan.pullAfter hplan
    rw [hpull] at hy
    cases hold : (st.slots t).pullAfter with
    | none =>
      rw [hold] at hy
      cases hy
      exact .inr (.inr (.inl ⟨settle, now, rfl, rfl, rfl⟩))
    | some y' =>
      rw [hold] at hy
      cases hy
      exact .inl ⟨rfl, congrArg Plan.lastRead hplan⟩
  | asked req now bootNow hin haccepted hplan =>
    have hpull : s'.pullAfter = some now := congrArg Plan.pullAfter hplan
    rw [hpull] at hy
    cases hy
    exact .inr (.inr (.inr ⟨req, _, bootNow, rfl, hin, haccepted, rfl⟩))
  | read out _ now _ _ hread =>
    rcases hread.pull with ⟨-, hpull⟩ | ⟨-, hpull⟩
    · rw [hpull] at hy
      cases hy
    · rw [hpull] at hy
      cases hy
      exact .inr (.inl ⟨now, rfl, hread.lastRead, rfl⟩)

end

namespace Paced

variable [DecidableEq V]

def hub (p : Paced V) : State V := p.watched.world.hub

def step (r : Reading V) (p : Paced V) (e : Event V) : Paced V where
  watched := p.watched.step r e
  clock := e.now.getD p.clock
  subscribed := match e with
    | .subscribe req now bootNow =>
      if (p.hub.subscribe req now bootNow).1.isSome then fun t => if req.topics.contains t then now else p.subscribed t else p.subscribed
    | _ => p.subscribed

def start (received : V) (now bootNow : Nat) : Paced V := ⟨.start received now bootNow, now, fun _ => 0⟩

omit [DecidableEq V] in
/-- Time does not fall, and a read was started before it is stored. -/
def Timed (p : Paced V) (e : Event V) : Prop :=
  (∀ now ∈ e.now, p.clock ≤ now) ∧
    match e with
    | .store _ _ started now _ _ => started ≤ now
    | _ => True

omit [DecidableEq V] in
/-- The topic was touched, and nothing from after that is in. -/
def Unserved (p : Paced V) (t : Topic) (x : Nat) : Prop := x ∈ p.watched.touches t ∧ ∀ s ∈ p.watched.sources t, s < x

omit [DecidableEq V] in
/-- The last of a touch, of the end of a read and of a subscription. -/
def since (p : Paced V) (t : Topic) (x : Nat) : Nat := max x (max ((p.hub.slots t).lastRead.getD 0) (p.subscribed t))

omit [DecidableEq V] in
structure Inv (p : Paced V) : Prop where
  watched : p.watched.Inv
  time : p.watched.time ≤ p.clock
  cadence : signalHintMin ≤ p.hub.signalCadence
  backoff : ∀ t, (p.hub.slots t).errBackoff ≤ errBackoffMax
  recheck : ∀ t, t ≠ .esimDownload → (p.hub.slots t).recheckAt = none
  stale : ∀ t, (p.hub.slots t).stale = true → (p.hub.slots t).pullAfter.isSome = true
  subscribed : ∀ t, p.subscribed t ≤ p.clock
  pulls : ∀ t, ∀ x ∈ (p.hub.slots t).pullAfter, x ≤ p.clock + touchCoalesce
  promised : ∀ t x, p.Unserved t x → ∀ y ∈ (p.hub.slots t).pullAfter, y ≤ p.since t x + touchCoalesce

variable {r : Reading V} {p : Paced V} {e : Event V} {t : Topic} {x : Nat}

theorem hub_step (r : Reading V) (p : Paced V) (e : Event V) : (p.step r e).hub = (p.watched.world.step r e).hub := by
  cases e <;> rfl

theorem touches_step (h : x ∈ (p.step r e).watched.touches t) : x ∈ p.watched.touches t ∨ ∃ settle, e = .touch t settle x := by
  cases e with
  | touch u settle now =>
    rcases Watched.mem_noted h with hx | ⟨rfl, rfl⟩
    · exact .inl hx
    · exact .inr ⟨settle, rfl⟩
  | _ => exact .inl h

theorem sources_step {y : Nat} (h : y ∈ p.watched.sources t) : y ∈ (p.step r e).watched.sources t := by
  cases e with
  | put | store => exact Watched.mem_noted_of_mem h
  | _ => exact h

theorem unserved_step (h : (p.step r e).Unserved t x) : p.Unserved t x ∨ ∃ settle, e = .touch t settle x :=
  (touches_step h.1).imp_left fun hx => ⟨hx, fun y hy => h.2 y (sources_step hy)⟩

theorem clock_step (htimed : p.Timed e) : p.clock ≤ (p.step r e).clock := by
  show p.clock ≤ e.now.getD p.clock
  cases hnow : e.now with
  | none => exact Nat.le_refl _
  | some now => exact htimed.1 now hnow

theorem subscribed_step (hle : p.subscribed t ≤ p.clock) (htimed : p.Timed e) :
    p.subscribed t ≤ (p.step r e).subscribed t ∧ (p.step r e).subscribed t ≤ (p.step r e).clock := by
  have hclock := clock_step (r := r) htimed
  have hsame : p.subscribed t ≤ (p.step r e).clock := hle.trans hclock
  cases e with
  | subscribe req now bootNow =>
    have hnow : p.clock ≤ now := htimed.1 now rfl
    unfold step
    dsimp only [Event.now, Option.getD_some]
    split
    · dsimp only
      split
      · exact ⟨hle.trans hnow, Nat.le_refl _⟩
      · exact ⟨Nat.le_refl _, hle.trans hnow⟩
    · exact ⟨Nat.le_refl _, hle.trans hnow⟩
  | _ => exact ⟨Nat.le_refl _, hsame⟩

omit [DecidableEq V] in
theorem Timed.watched (htime : p.watched.time ≤ p.clock) (htimed : p.Timed e) : p.watched.Timed e := by
  cases e with
  | put _ _ now _ | touch _ _ now => exact htime.trans (htimed.1 now rfl)
  | store _ _ started now _ _ => exact ⟨htime.trans (htimed.1 now rfl), htimed.2⟩
  | _ => trivial

theorem time_step (htime : p.watched.time ≤ p.clock) (htimed : p.Timed e) : (p.step r e).watched.time ≤ (p.step r e).clock := by
  cases e with
  | put | touch | store => exact Nat.le_refl _
  | subscribe _ now _ => exact htime.trans (htimed.1 now rfl)
  | _ => exact htime

theorem Inv.step (h : p.Inv) (htimed : p.Timed e) : Inv (p.step r e) := by
  have hmoved : ∀ t, Moved p.hub t ((p.step r e).hub.slots t) e := by
    intro t
    rw [hub_step]
    exact World.step_moved r p.watched.world e t
  have hcadence : signalHintMin ≤ (p.step r e).hub.signalCadence := by
    rw [hub_step]
    exact World.step_cadence r p.watched.world e h.cadence
  have hclock := clock_step (r := r) htimed
  have hevent : ∀ now, e.now = some now → (p.step r e).clock = now := by
    intro now hnow
    show e.now.getD p.clock = now
    rw [hnow]
    rfl
  refine ⟨h.watched.step e (htimed.watched h.time), time_step h.time htimed, hcadence,
    fun t => (hmoved t).backoff (h.backoff t), fun t ht => (hmoved t).recheck ht (h.recheck t ht), fun t => (hmoved t).stale (h.stale t),
    fun t => (subscribed_step (h.subscribed t) htimed).2, fun t y hy => ?_, fun t x hx y hy => ?_⟩
  · rcases (hmoved t).pull hy with ⟨hold, -⟩ | ⟨now, hnow, -, rfl⟩ | ⟨settle, now, rfl, -, rfl⟩ | ⟨req, now, bootNow, rfl, -, -, rfl⟩
    · have := h.pulls t y hold
      omega
    · rw [hevent now hnow]
    · rw [hevent now rfl]
    · rw [hevent y rfl]
      exact Nat.le_add_right ..
  · have hsub := (subscribed_step (r := r) (h.subscribed t) htimed).1
    unfold since
    rcases (hmoved t).pull hy with ⟨hold, hlast⟩ | ⟨now, -, hlast, rfl⟩ | ⟨settle, now, rfl, hnone, rfl⟩ | ⟨req, now, bootNow, rfl, hin, haccepted, rfl⟩
    · rw [hlast]
      rcases unserved_step hx with hbefore | ⟨settle, rfl⟩
      · have := h.promised t x hbefore y hold
        unfold since at this
        omega
      · have := h.pulls t y hold
        have := htimed.1 x rfl
        omega
    · rw [hlast, Option.getD_some]
      omega
    · rcases unserved_step hx with hbefore | ⟨settle', heq⟩
      · -- an earlier touch that waits has set a time already
        have hsome := h.stale t (h.watched.stale t x hbefore.1 hbefore.2)
        rw [hnone] at hsome
        cases hsome
      · cases heq
        omega
    · have hnow : (p.step r (.subscribe req y bootNow)).subscribed t = y := by
        unfold step
        dsimp only
        rw [if_pos haccepted]
        exact if_pos hin
      rw [hnow]
      omega

theorem Inv.init (received : V) (now bootNow : Nat) : Inv (start received now bootNow) := by
  have hmoved : ∀ t, Moved ({} : State V) t ((start received now bootNow).hub.slots t) (.put .sms received now bootNow) :=
    fun t => State.put_moved {} .sms t received now bootNow
  refine ⟨.init received now bootNow, Nat.le_refl _, ?_, fun t => (hmoved t).backoff (Nat.zero_le _), fun t ht => (hmoved t).recheck ht rfl,
    fun t => (hmoved t).stale nofun, fun _ => Nat.zero_le _, fun t y hy => ?_, fun t x hx => absurd hx.1 List.not_mem_nil⟩
  · show signalHintMin ≤ (({} : State V).put .sms received now bootNow).signalCadence
    unfold State.put
    dsimp only
    split
    all_goals exact (by decide : signalHintMin ≤ Events.signalCadence)
  · rcases (hmoved t).pull hy with ⟨hold, -⟩ | ⟨now', hnow, -, rfl⟩ | ⟨_, _, heq, -, -⟩ | ⟨_, _, _, heq, -, -, -⟩
    · cases hold
    · cases hnow
      exact Nat.le_refl _
    · cases heq
    · cases heq

/-- A topic that rests goes on to, without a new subscription. -/
theorem rests_run {events : List (Event V)} (hinv : p.Inv) (hrests : (p.hub.slots t).Rests x) (hx : x ≤ p.clock + touchCoalesce)
    (htimed : Along (step r) Timed p events) (htakes : ∀ e ∈ events, e.takes t = false) : ((exec (step r) p events).hub.slots t).Rests x := by
  induction events generalizing p with
  | nil => exact hrests
  | cons e events ih =>
    have hmoved : Moved p.hub t ((p.step r e).hub.slots t) e := by
      rw [hub_step]
      exact World.step_moved r p.watched.world e t
    refine ih (hinv.step htimed.1) (hrests.moved hmoved (fun now hnow => ?_) (htakes e List.mem_cons_self)) ?_ htimed.2
      fun e' he' => htakes e' (List.mem_cons_of_mem _ he')
    · have := htimed.1.1 now hnow
      omega
    · have := clock_step (r := r) htimed.1
      omega

/-! ## The law -/

omit [DecidableEq V] in
/-- No back-off is longer than a minute; a touched topic is due within half a second, and the sampler awake. -/
structure Scheduled (p : Paced V) : Prop where
  backoff : ∀ t, (p.hub.slots t).errBackoff ≤ errBackoffMax
  due : ∀ t x, p.Unserved t x → ∀ q, ∃ d, p.hub.dueTime t q = some d ∧ d ≤ p.since t x + touchCoalesce
  awake : ∀ t x, p.Unserved t x → 0 < p.hub.demand t → t.spec.lane ≠ .none → ∀ q,
    (∃ u, p.hub.dueJob t.spec.lane q = .ok u) ∨ ∃ d, p.hub.dueJob t.spec.lane q = .error (some d) ∧ q < d ∧ d ≤ p.since t x + touchCoalesce

omit [DecidableEq V] in
theorem Inv.scheduled (h : p.Inv) : p.Scheduled := by
  have hdue : ∀ t x, p.Unserved t x → ∀ q, ∃ d, p.hub.dueTime t q = some d ∧ d ≤ p.since t x + touchCoalesce := by
    intro t x hx q
    have hstale := h.watched.stale t x hx.1 hx.2
    obtain ⟨y, hy⟩ := Option.isSome_iff_exists.mp (h.stale t hstale)
    obtain ⟨d, hd, hle⟩ := State.dueTime_stale hstale q
    refine ⟨d, hd, hle.trans ?_⟩
    have := h.promised t x hx y hy
    show (p.hub.slots t).pullAfter.getD q ≤ _
    rw [hy]
    exact this
  refine ⟨h.backoff, hdue, fun t x hx hdemand hlane q => ?_⟩
  obtain ⟨d, hd, hle⟩ := hdue t x hx q
  rcases State.dueJob_wakes hd hdemand hlane with hready | ⟨d', hd', hlt, hle'⟩
  · exact .inl hready
  · exact .inr ⟨d', hd', hlt, hle'.trans hle⟩

/-- Along every run; and after a read that gave a value or an error is stored, its topic is not due for half a second,
    unless it is subscribed to again. -/
theorem hub_scheduling (r : Reading V) (received : V) (now bootNow : Nat) (events : List (Event V))
    (h : Along (step r) Timed (start received now bootNow) events) :
    (exec (step r) (start received now bootNow) events).Scheduled ∧
      ∀ before t out started stored bootStored unixNow after, events = before ++ .store t (some out) started stored bootStored unixNow :: after →
        ((exec (step r) (start received now bootNow) before).hub.slots t).readStarted.any (started < ·) = false →
        (∀ e ∈ after, e.takes t = false) →
        (∀ q d, (exec (step r) (start received now bootNow) events).hub.dueTime t q = some d → stored + touchCoalesce ≤ d) ∧
          ∀ lane q, (exec (step r) (start received now bootNow) events).hub.dueJob lane q = .ok t → stored + touchCoalesce ≤ q := by
  have hinv : ∀ events, Along (step r) Timed (start received now bootNow) events → (exec (step r) (start received now bootNow) events).Inv :=
    fun events h => invariant_along (I := fun p : Paced V => p.Inv) (fun _ _ hinv htimed => hinv.step htimed) (.init received now bootNow) h
  refine ⟨(hinv events h).scheduled, ?_⟩
  rintro before t out started stored bootStored unixNow after rfl hin htakes
  have hbefore := hinv before (Machine.along_append.mp h).1
  have hend := hinv _ h
  obtain ⟨htimed, hafter⟩ := (along_append.mp h).2
  rw [exec_append, exec_cons] at hend ⊢
  generalize exec (step r) (start received now bootNow) before = p at hin hbefore htimed hafter hend ⊢
  have hread : ((p.step r (.store t (some out) started stored bootStored unixNow)).hub.slots t).Rests (stored + touchCoalesce) := by
    rw [hub_step]
    exact (State.storeAt_read r p.hub t (some out) started stored bootStored unixNow hin).rests (hbefore.recheck t)
  have hrests := rests_run (hbefore.step htimed) hread (Nat.le_refl _) hafter htakes
  have hdue : ∀ q d, (exec (step r) (p.step r (.store t (some out) started stored bootStored unixNow)) after).hub.dueTime t q = some d →
      stored + touchCoalesce ≤ d := fun q d hd => hrests.due hend.cadence hd
  refine ⟨hdue, fun lane q hjob => ?_⟩
  obtain ⟨-, -, d, hd, hle⟩ := State.dueJob_ok hjob
  exact (hdue q d hd).trans hle

/-- A read of the WAN fails while it is touched. -/
theorem wan_rests : ((exec (step (V := Nat) ⟨fun _ => none, fun _ => none⟩) (start 0 1 1)
    [.touch .wan none 5, .store .wan (some ⟨none, some "no uplink"⟩) 3 8 8 8]).hub.dueTime .wan 8).all (8 + touchCoalesce ≤ ·) = true := by
  refine (Option.all_eq_true _ _).mpr fun d hd => decide_eq_true ?_
  exact ((hub_scheduling ⟨fun _ => none, fun _ => none⟩ 0 1 1 [.touch .wan none 5, .store .wan (some ⟨none, some "no uplink"⟩) 3 8 8 8]
    ⟨⟨by rintro _ ⟨⟩; decide, trivial⟩, ⟨by rintro _ ⟨⟩; decide, by decide⟩, trivial⟩).2
    [.touch .wan none 5] .wan ⟨none, some "no uplink"⟩ 3 8 8 8 [] rfl rfl nofun).1 8 d hd

end Paced

end OpenU60.Events
