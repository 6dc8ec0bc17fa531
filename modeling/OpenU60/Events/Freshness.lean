/-
  OpenU60.Events.Freshness — no older read wins, and a touched topic stays stale until it is read again.

  `Watched` is the hub with three ghosts: the time of the last event, and for each topic the
  times its results come from (a push's own, a read's start) and the times it was touched. Times do not
  fall, and a read starts before it is stored; how reads, pushes and touches interleave is free.
  - `Inv.older`: a read that started before the source of a result that is in is dropped whole.
  - `Inv.stale`: a topic is stale as long as no result is from after its touch.
  - `hub_stays_fresh`: both, along every run.
-/

import OpenU60.Events.Delivery

namespace OpenU60.Events

open OpenU60.Lib OpenU60.Lib.Machine

variable {V : Type}

/-! ## What other operations do to a slot -/

/-- What the hub judges reads by stays, and staleness does not end. -/
structure Slot.Keeps (s s' : Slot V) : Prop where
  readStarted : s'.readStarted = s.readStarted
  touchedAt : s'.touchedAt = s.touchedAt
  stale : s.stale = true → s'.stale = true

theorem Slot.Keeps.refl (s : Slot V) : s.Keeps s := ⟨rfl, rfl, id⟩

namespace State

variable {st : State V} {t : Topic}

theorem subscribeSlot_keeps (st : State V) (t : Topic) (now bootNow : Nat) : (st.slots t).Keeps (st.subscribeSlot t now bootNow) := by
  unfold subscribeSlot
  dsimp only
  split
  · exact .refl _
  · split
    · exact ⟨rfl, rfl, fun _ => rfl⟩
    · exact ⟨rfl, rfl, id⟩

theorem subscribe_keeps (st : State V) (req : SubscribeReq) (now bootNow : Nat) (t : Topic) :
    (st.slots t).Keeps ((st.subscribe req now bootNow).2.slots t) := by
  obtain ⟨hslots, -⟩ : (st.giveWay (st.evicted req)).slots = st.slots ∧ st.seq ≤ (st.giveWay (st.evicted req)).seq := giveWay_same _
  unfold subscribe
  dsimp only
  by_cases hroom : maxStreams ≤ st.live.length - if (st.evicted req).isSome then 1 else 0
  · rw [if_pos hroom]
    exact .refl _
  · rw [if_neg hroom]
    split
    · exact .refl _
    · rw [← hslots]
      generalize st.giveWay (st.evicted req) = st'
      show (st'.slots t).Keeps (if req.topics.contains t then st'.subscribeSlot t now bootNow else st'.slots t)
      split
      · exact subscribeSlot_keeps st' t now bootNow
      · exact .refl _

theorem endWhere_slots (st : State V) (p : StreamEntry → Bool) (reason : EndReason) : (st.endWhere p reason).slots = st.slots := by
  obtain ⟨st', heq, hslots⟩ := endWhere_keeps (P := fun s => s.slots = st.slots) (fun s i reason hs =>
    (endEntry_same i reason).1.trans hs) p reason rfl
  rw [heq]
  exact hslots

theorem dropEntry_slots (st : State V) (i : Nat) : (st.dropEntry i).slots = st.slots := by
  unfold dropEntry
  dsimp only
  split
  · split <;> rfl
  · rfl

/-- A bump is seen in the version alone. -/
theorem bump_keeps (st : State V) (t u : Topic) : (st.slots u).Keeps ((st.bump t).slots u) := by
  unfold bump setSlot wakeStreams
  dsimp only
  by_cases hu : u = t
  · rw [if_pos hu, hu]
    exact ⟨rfl, rfl, id⟩
  · rw [if_neg hu]
    exact .refl _

variable [DecidableEq V]

/-- What a push leaves of its topic. -/
theorem put_slot (st : State V) (t : Topic) (data : V) (now bootNow : Nat) :
    ((st.put t data now bootNow).slots t).readStarted = some now ∧ ((st.put t data now bootNow).slots t).touchedAt = (st.slots t).touchedAt := by
  unfold put
  dsimp only
  split
  · have hkeeps := bump_keeps (st.setSlot t { (st.slots t) with
      readStarted := some now, lastRead := some now, at_ := bootNow, valueAt := bootNow, stale := false, pullAfter := none
      errBackoff := 0, errRetry := false, announce := false, value := some data, error := none }) t t
    refine ⟨hkeeps.readStarted.trans ?_, hkeeps.touchedAt.trans ?_⟩ <;> simp [setSlot]
  · simp [setSlot]

theorem put_other (st : State V) {t u : Topic} (hu : u ≠ t) (data : V) (now bootNow : Nat) :
    (st.put t data now bootNow).slots u = st.slots u := by
  unfold put
  dsimp only
  split <;> simp [bump, setSlot, wakeStreams, hu]

omit [DecidableEq V] in
theorem readOut_keeps (slot : Slot V) (out : ReadOut V) (bootNow : Nat) : slot.Keeps (readOut slot out bootNow) := ⟨rfl, rfl, id⟩

theorem takeIn_keeps (r : Reading V) (t : Topic) (slot : Slot V) (out : ReadOut V) (now unixNow : Nat) :
    slot.Keeps (takeIn r t slot out now unixNow).2 := by
  unfold takeIn
  split
  · dsimp only
    by_cases hdownload : t = .esimDownload
    · rw [if_pos hdownload]
      split <;> exact ⟨rfl, rfl, id⟩
    · rw [if_neg hdownload]
      split <;> exact ⟨rfl, rfl, id⟩
  · split <;> exact ⟨rfl, rfl, id⟩

omit [DecidableEq V] in
theorem Slot.Keeps.trans {s s' s'' : Slot V} (h : s.Keeps s') (h' : s'.Keeps s'') : s.Keeps s'' :=
  ⟨h'.readStarted.trans h.readStarted, h'.touchedAt.trans h.touchedAt, fun hs => h'.stale (h.stale hs)⟩

/-- A read that is not too late leaves what `readSlot` says. -/
theorem storeAt_slot (r : Reading V) (st : State V) (t : Topic) (out : Option (ReadOut V)) (started now bootNow unixNow : Nat)
    (h : (st.slots t).readStarted.any (started < ·) = false) :
    (readSlot (st.slots t) started now bootNow).Keeps ((st.storeAt r t out started now bootNow unixNow).slots t) := by
  have hset : ∀ slot : Slot V, (st.setSlot t slot).slots t = slot := fun slot => if_pos rfl
  unfold storeAt
  rw [if_neg (by rw [h]; exact Bool.false_ne_true)]
  dsimp only
  cases out with
  | none =>
    rw [hset]
    exact .refl _
  | some out =>
    dsimp only
    have htaken := Slot.Keeps.trans (readOut_keeps (readSlot (st.slots t) started now bootNow) out bootNow)
      (takeIn_keeps r t (readOut (readSlot (st.slots t) started now bootNow) out bootNow) out now unixNow)
    generalize takeIn r t (readOut (readSlot (st.slots t) started now bootNow) out bootNow) out now unixNow = taken at htaken ⊢
    split
    · refine Slot.Keeps.trans ?_ (bump_keeps _ t t)
      rw [hset]
      exact htaken
    · rw [hset]
      exact htaken

theorem storeAt_other (r : Reading V) (st : State V) {t u : Topic} (hu : u ≠ t) (out : Option (ReadOut V)) (started now bootNow unixNow : Nat) :
    (st.storeAt r t out started now bootNow unixNow).slots u = st.slots u := by
  unfold storeAt
  split
  · rfl
  · cases out with
    | none => simp [setSlot, hu]
    | some out =>
      dsimp only
      split <;> simp [bump, setSlot, wakeStreams, hu]

theorem storeAt_late (r : Reading V) (st : State V) (t : Topic) (out : Option (ReadOut V)) (started now bootNow unixNow : Nat)
    (h : (st.slots t).readStarted.any (started < ·) = true) : st.storeAt r t out started now bootNow unixNow = st := if_pos h

end State

/-! ## The machine -/

/-- The hub, with the time and for each topic where its results are from and when it was touched. -/
structure Watched (V : Type) where
  world : World V
  time : Nat
  sources : Topic → List Nat
  touches : Topic → List Nat

/-- Another time for a topic. -/
def noted (f : Topic → List Nat) (t : Topic) (time : Nat) : Topic → List Nat := fun u => if u = t then time :: f u else f u

namespace Watched

variable [DecidableEq V]

def step (r : Reading V) (w : Watched V) (e : Event V) : Watched V :=
  let w := { w with world := w.world.step r e }
  match e with
  | .put t _ now _ => { w with time := now, sources := noted w.sources t now }
  | .store t _ started now _ _ => { w with time := now, sources := noted w.sources t started }
  | .touch t _ now => { w with time := now, touches := noted w.touches t now }
  | _ => w

def start (received : V) (now bootNow : Nat) : Watched V :=
  ⟨.start received now bootNow, now, noted (fun _ => []) .sms now, fun _ => []⟩

omit [DecidableEq V] in
/-- Time does not fall, and a read was started before it is stored. -/
def Timed (w : Watched V) : Event V → Prop
  | .put _ _ now _ => w.time ≤ now
  | .store _ _ started now _ _ => w.time ≤ now ∧ started ≤ now
  | .touch _ _ now => w.time ≤ now
  | _ => True

/-- A read that started before the source of a result that is in changes nothing. -/
def Lawful (r : Reading V) (w : Watched V) (e : Event V) : Prop :=
  match e with
  | .store t _ started _ _ _ => (∃ s ∈ w.sources t, started < s) → (w.step r e).world.hub.slots t = w.world.hub.slots t
  | _ => True

/-- After a touch, and no result from after it, the topic is stale. -/
def Stale (w : Watched V) : Prop :=
  ∀ t, ∀ touched ∈ w.touches t, (∀ s ∈ w.sources t, s < touched) → (w.world.hub.slots t).stale = true

omit [DecidableEq V] in
/-- A slot's times are the latest of its topic. -/
structure Inv (w : Watched V) : Prop where
  sources : ∀ t, ∀ s ∈ w.sources t, ∃ last, (w.world.hub.slots t).readStarted = some last ∧ s ≤ last
  touches : ∀ t, ∀ x ∈ w.touches t, ∃ last, (w.world.hub.slots t).touchedAt = some last ∧ x ≤ last
  pastSources : ∀ t, ∀ s ∈ w.sources t, s ≤ w.time
  pastTouches : ∀ t, ∀ x ∈ w.touches t, x ≤ w.time
  stale : w.Stale

variable {r : Reading V} {w : Watched V}

/-! ## Steps -/

omit [DecidableEq V] in
theorem mem_noted {f : Topic → List Nat} {t u : Topic} {time x : Nat} (h : x ∈ noted f t time u) : x ∈ f u ∨ u = t ∧ x = time := by
  unfold noted at h
  by_cases hu : u = t
  · rw [if_pos hu] at h
    rcases List.mem_cons.mp h with h | h
    · exact .inr ⟨hu, h⟩
    · exact .inl h
  · rw [if_neg hu] at h
    exact .inl h

omit [DecidableEq V] in
theorem noted_self (f : Topic → List Nat) (t : Topic) (time : Nat) : time ∈ noted f t time t := by
  unfold noted
  rw [if_pos rfl]
  exact List.mem_cons_self ..

omit [DecidableEq V] in
theorem mem_noted_of_mem {f : Topic → List Nat} {t u : Topic} {time x : Nat} (h : x ∈ f u) : x ∈ noted f t time u := by
  unfold noted
  split
  · exact List.mem_cons_of_mem _ h
  · exact h

omit [DecidableEq V] in
/-- Operations that keep every slot keep the invariant. -/
theorem Inv.keeps (h : w.Inv) {world : World V} (hslots : ∀ t, (w.world.hub.slots t).Keeps (world.hub.slots t)) :
    Inv { w with world } := { h with
  sources t s hs := by
    rw [(hslots t).readStarted]
    exact h.sources t s hs
  touches t x hx := by
    rw [(hslots t).touchedAt]
    exact h.touches t x hx
  stale t x hx hall := (hslots t).stale (h.stale t x hx hall) }

theorem Inv.put (h : w.Inv) (t : Topic) (data : V) {now : Nat} (bootNow : Nat) (hnow : w.time ≤ now) :
    Inv (w.step r (.put t data now bootNow)) where
  sources u s hs := by
    show ∃ last, ((w.world.hub.put t data now bootNow).slots u).readStarted = some last ∧ s ≤ last
    by_cases hu : u = t
    · subst hu
      refine ⟨now, (State.put_slot w.world.hub u data now bootNow).1, ?_⟩
      rcases mem_noted hs with hs | ⟨-, rfl⟩
      · exact Nat.le_trans (h.pastSources u s hs) hnow
      · exact Nat.le_refl _
    · rw [State.put_other _ hu]
      rcases mem_noted hs with hs | ⟨hu', -⟩
      · exact h.sources u s hs
      · exact absurd hu' hu
  touches u x hx := by
    show ∃ last, ((w.world.hub.put t data now bootNow).slots u).touchedAt = some last ∧ x ≤ last
    by_cases hu : u = t
    · subst hu
      rw [(State.put_slot w.world.hub u data now bootNow).2]
      exact h.touches u x hx
    · rw [State.put_other _ hu]
      exact h.touches u x hx
  pastSources u s hs := by
    show s ≤ now
    rcases mem_noted hs with hs | ⟨-, rfl⟩
    · exact Nat.le_trans (h.pastSources u s hs) hnow
    · exact Nat.le_refl _
  pastTouches u x hx := Nat.le_trans (h.pastTouches u x hx) hnow
  stale u x hx hall := by
    show ((w.world.hub.put t data now bootNow).slots u).stale = true
    by_cases hu : u = t
    · -- the push is later than every touch
      subst hu
      have hle : x ≤ w.time := h.pastTouches u x hx
      have hlt : now < x := hall now (noted_self _ _ _)
      omega
    · rw [State.put_other _ hu]
      exact h.stale u x hx fun s hs => hall s (mem_noted_of_mem hs)

theorem Inv.touch (h : w.Inv) (t : Topic) (settle : Option Nat) {now : Nat} (hnow : w.time ≤ now) :
    Inv (w.step r (.touch t settle now)) where
  sources u s hs := by
    obtain ⟨last, hread, hle⟩ := h.sources u s hs
    refine ⟨last, ?_, hle⟩
    show ((w.world.hub.touch t settle now).slots u).readStarted = some last
    unfold State.touch State.setSlot
    dsimp only
    by_cases hu : u = t
    · subst hu
      rw [if_pos rfl]
      exact hread
    · rw [if_neg hu]
      exact hread
  touches u x hx := by
    show ∃ last, ((w.world.hub.touch t settle now).slots u).touchedAt = some last ∧ x ≤ last
    unfold State.touch State.setSlot
    dsimp only
    by_cases hu : u = t
    · rw [if_pos hu]
      refine ⟨now, rfl, ?_⟩
      rcases mem_noted hx with hx | ⟨-, rfl⟩
      · exact Nat.le_trans (h.pastTouches u x hx) hnow
      · exact Nat.le_refl _
    · rw [if_neg hu]
      rcases mem_noted hx with hx | ⟨hu', -⟩
      · exact h.touches u x hx
      · exact absurd hu' hu
  pastSources u s hs := Nat.le_trans (h.pastSources u s hs) hnow
  pastTouches u x hx := by
    show x ≤ now
    rcases mem_noted hx with hx | ⟨-, rfl⟩
    · exact Nat.le_trans (h.pastTouches u x hx) hnow
    · exact Nat.le_refl _
  stale u x hx hall := by
    show ((w.world.hub.touch t settle now).slots u).stale = true
    unfold State.touch State.setSlot
    dsimp only
    by_cases hu : u = t
    · rw [if_pos hu]
    · rw [if_neg hu]
      rcases mem_noted hx with hx | ⟨hu', -⟩
      · exact h.stale u x hx hall
      · exact absurd hu' hu

omit [DecidableEq V] in
theorem readSlot_times (slot : Slot V) (started now bootNow : Nat) :
    (State.readSlot slot started now bootNow).readStarted = some started ∧
      (State.readSlot slot started now bootNow).touchedAt = slot.touchedAt ∧
      (slot.touchedAt.all (· ≤ started) = false → (State.readSlot slot started now bootNow).stale = slot.stale) := by
  unfold State.readSlot
  dsimp only
  by_cases hafter : slot.touchedAt.all (· ≤ started) = true
  · rw [if_pos hafter]
    refine ⟨rfl, rfl, fun hno => ?_⟩
    rw [hno] at hafter
    cases hafter
  · rw [if_neg hafter]
    exact ⟨rfl, rfl, fun _ => rfl⟩

/-- A source that is in is not later than the slot says. -/
theorem Inv.older (h : w.Inv) (e : Event V) : Lawful r w e := by
  cases e with
  | store t out started now bootNow unixNow =>
    rintro ⟨s, hs, hlt⟩
    obtain ⟨last, hread, hle⟩ := h.sources t s hs
    have hlate : (w.world.hub.slots t).readStarted.any (started < ·) = true := by
      rw [hread]
      simpa using Nat.lt_of_lt_of_le hlt hle
    show (w.world.hub.storeAt r t out started now bootNow unixNow).slots t = _
    rw [State.storeAt_late r w.world.hub t out started now bootNow unixNow hlate]
  | _ => trivial

theorem Inv.store (h : w.Inv) (t : Topic) (out : Option (ReadOut V)) {started now : Nat} (bootNow unixNow : Nat) (hnow : w.time ≤ now)
    (hstarted : started ≤ now) : Inv (w.step r (.store t out started now bootNow unixNow)) := by
  have hpast : ∀ u, ∀ s ∈ noted w.sources t started u, s ≤ now := by
    intro u s hs
    rcases mem_noted hs with hs | ⟨-, rfl⟩
    · exact Nat.le_trans (h.pastSources u s hs) hnow
    · exact hstarted
  have hother : ∀ u, u ≠ t → (w.world.hub.storeAt r t out started now bootNow unixNow).slots u = w.world.hub.slots u :=
    fun u hu => State.storeAt_other r w.world.hub hu out started now bootNow unixNow
  have hless : ∀ u, u ≠ t → ∀ s ∈ noted w.sources t started u, s ∈ w.sources u := by
    intro u hu s hs
    rcases mem_noted hs with hs | ⟨hu', -⟩
    · exact hs
    · exact absurd hu' hu
  cases hlate : (w.world.hub.slots t).readStarted.any (started < ·) with
  | true =>
    have hsame : w.world.hub.storeAt r t out started now bootNow unixNow = w.world.hub :=
      State.storeAt_late r w.world.hub t out started now bootNow unixNow hlate
    refine ⟨fun u s hs => ?_, fun u x hx => ?_, hpast, fun u x hx => Nat.le_trans (h.pastTouches u x hx) hnow, fun u x hx hall => ?_⟩
    · show ∃ last, ((w.world.hub.storeAt r t out started now bootNow unixNow).slots u).readStarted = some last ∧ s ≤ last
      rw [hsame]
      rcases mem_noted hs with hs | ⟨rfl, rfl⟩
      · exact h.sources u s hs
      · cases hread : (w.world.hub.slots u).readStarted with
        | none =>
          rw [hread] at hlate
          cases hlate
        | some last =>
          rw [hread] at hlate
          exact ⟨last, rfl, Nat.le_of_lt (of_decide_eq_true hlate)⟩
    · show ∃ last, ((w.world.hub.storeAt r t out started now bootNow unixNow).slots u).touchedAt = some last ∧ x ≤ last
      rw [hsame]
      exact h.touches u x hx
    · show ((w.world.hub.storeAt r t out started now bootNow unixNow).slots u).stale = true
      rw [hsame]
      exact h.stale u x hx fun s hs => hall s (mem_noted_of_mem hs)
  | false =>
    have hkeeps := State.storeAt_slot r w.world.hub t out started now bootNow unixNow hlate
    obtain ⟨hread, htouched, hstale⟩ := readSlot_times (w.world.hub.slots t) started now bootNow
    refine ⟨fun u s hs => ?_, fun u x hx => ?_, hpast, fun u x hx => Nat.le_trans (h.pastTouches u x hx) hnow, fun u x hx hall => ?_⟩
    · show ∃ last, ((w.world.hub.storeAt r t out started now bootNow unixNow).slots u).readStarted = some last ∧ s ≤ last
      by_cases hu : u = t
      · subst hu
        refine ⟨started, hkeeps.readStarted.trans hread, ?_⟩
        rcases mem_noted hs with hs | ⟨-, rfl⟩
        · obtain ⟨last, hlast, hle⟩ := h.sources u s hs
          rw [hlast] at hlate
          exact Nat.le_trans hle (Nat.le_of_not_lt (of_decide_eq_false hlate))
        · exact Nat.le_refl _
      · rw [hother u hu]
        exact h.sources u s (hless u hu s hs)
    · show ∃ last, ((w.world.hub.storeAt r t out started now bootNow unixNow).slots u).touchedAt = some last ∧ x ≤ last
      by_cases hu : u = t
      · subst hu
        rw [hkeeps.touchedAt, htouched]
        exact h.touches u x hx
      · rw [hother u hu]
        exact h.touches u x hx
    · show ((w.world.hub.storeAt r t out started now bootNow unixNow).slots u).stale = true
      by_cases hu : u = t
      · -- the read began before the touch, so the slot knows a later touch
        subst hu
        obtain ⟨last, hlast, hle⟩ := h.touches u x hx
        have hbefore : started < x := hall started (noted_self _ _ _)
        refine hkeeps.stale ?_
        rw [hstale]
        · exact h.stale u x hx fun s hs => hall s (mem_noted_of_mem hs)
        · rw [hlast]
          simpa using Nat.lt_of_lt_of_le hbefore hle
      · rw [hother u hu]
        exact h.stale u x hx fun s hs => hall s (mem_noted_of_mem hs)

theorem Inv.step (h : w.Inv) (e : Event V) (htimed : w.Timed e) : Inv (w.step r e) := by
  cases e with
  | put t data now bootNow => exact h.put t data bootNow htimed
  | store t out started now bootNow unixNow => exact h.store t out bootNow unixNow htimed.1 htimed.2
  | touch t settle now => exact h.touch t settle htimed
  | endSessions ids =>
    refine h.keeps fun t => ?_
    show Slot.Keeps _ ((w.world.hub.endWhere _ _).slots t)
    rw [State.endWhere_slots]
    exact .refl _
  | endAll reason =>
    refine h.keeps fun t => ?_
    show Slot.Keeps _ ((w.world.hub.endWhere _ _).slots t)
    rw [State.endWhere_slots]
    exact .refl _
  | subscribe req now bootNow =>
    refine h.keeps fun t => ?_
    have hkeeps := State.subscribe_keeps w.world.hub req now bootNow t
    unfold World.step
    dsimp only
    split
    · rename_i heq
      rw [heq] at hkeeps
      exact hkeeps
    · rename_i heq
      rw [heq] at hkeeps
      exact hkeeps
  | drop entry =>
    refine h.keeps fun t => ?_
    unfold World.step
    dsimp only
    split
    · rw [State.dropEntry_slots]
      exact .refl _
    · exact .refl _
  | collect entry all => exact h.keeps fun t => .refl _

theorem Inv.init (received : V) (now bootNow : Nat) : Inv (start received now bootNow) where
  sources t s hs := by
    have hs : s ∈ noted (fun _ => []) .sms now t := hs
    rcases mem_noted hs with hs | ⟨rfl, rfl⟩
    · cases hs
    · exact ⟨s, (State.put_slot {} .sms received s bootNow).1, Nat.le_refl _⟩
  touches _ _ hx := absurd hx List.not_mem_nil
  pastSources t s hs := by
    have hs : s ∈ noted (fun _ => []) .sms now t := hs
    rcases mem_noted hs with hs | ⟨-, rfl⟩
    · cases hs
    · exact Nat.le_refl _
  pastTouches _ _ hx := absurd hx List.not_mem_nil
  stale _ _ hx := absurd hx List.not_mem_nil

/-- However reads, pushes and touches interleave (and whatever is subscribed to between them): a read that started
    before the source of a result that is in changes nothing, and a touched topic is stale as long as no
    result from after the touch is in. -/
theorem hub_stays_fresh (r : Reading V) (received : V) (now bootNow : Nat) (events : List (Event V))
    (h : Along (step r) Timed (start received now bootNow) events) :
    Along (step r) (Lawful r) (start received now bootNow) events ∧ (exec (step r) (start received now bootNow) events).Stale := by
  have hinit : Inv (start received now bootNow) := Inv.init received now bootNow
  have hstep : ∀ (w : Watched V) e, Inv w → Timed w e → Inv (Watched.step r w e) := fun _ e hinv htimed => Inv.step hinv e htimed
  constructor
  · exact along_of_invariant hstep (fun _ e hinv _ => Inv.older hinv e) hinit h
  · exact (invariant_along hstep hinit h).stale

/-- A read that began before a touch leaves the topic stale. -/
theorem hub_stays_fresh_wan : ((exec (step (V := Nat) ⟨fun _ => none, fun _ => none⟩) (start 0 1 1)
    [.touch .wan none 5, .store .wan (some ⟨some 7, none⟩) 3 8 8 8]).world.hub.slots .wan).stale = true :=
  (hub_stays_fresh ⟨fun _ => none, fun _ => none⟩ 0 1 1 [.touch .wan none 5, .store .wan (some ⟨some 7, none⟩) 3 8 8 8]
    ⟨Nat.le_of_lt (by decide : 1 < 5), ⟨Nat.le_of_lt (by decide : 5 < 8), Nat.le_of_lt (by decide : 3 < 8)⟩, trivial⟩).2
    .wan 5 (by decide) (by decide)

end Watched

end OpenU60.Events
