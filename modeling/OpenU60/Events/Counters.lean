/-
  OpenU60.Events.Counters — what the hub counts is what is there.

  - `counters_exact`: in every run, each topic's demand is the number of live subscriptions that contain
    it, the caps hold in total and per owner, the signal is read at the clamped fastest rate
    asked for, every subscription has an entry of its own, and a refused one changes nothing.
  Live streams are counted over the table of entries (`liveCount`): an entry that ends, or goes while
  live, takes exactly what it counted for (`end_counts`, `drop_counts`), and an ended one counts for nothing.
-/

import OpenU60.Events.Hub
import OpenU60.Lib.Machine

namespace OpenU60.Events

open OpenU60.Lib OpenU60.Lib.Machine OpenU60.Lib.FirstMatch

variable {V : Type}

namespace State

variable {st : State V} {q : StreamEntry → Bool} {i : Nat} {e : StreamEntry}

/-! ## Live streams -/

def counts (q : StreamEntry → Bool) (o : Option StreamEntry) : Bool := o.any fun e => e.live && q e

def liveCount (st : State V) (q : StreamEntry → Bool) : Nat := st.streams.countP (counts q)

theorem mem_live : (i, e) ∈ st.live ↔ st.streams[i]? = some (some e) ∧ e.live = true := by
  unfold live
  simp only [List.mem_filterMap, Option.map_eq_some_iff, Option.filter_eq_some_iff, Prod.mk.injEq]
  constructor
  · rintro ⟨⟨o, j⟩, hmem, e', ⟨rfl, hlive⟩, rfl, rfl⟩
    exact ⟨List.mem_zipIdx_iff_getElem?.mp hmem, hlive⟩
  · rintro ⟨hget, hlive⟩
    exact ⟨(some e, i), List.mem_zipIdx_iff_getElem?.mpr hget, e, ⟨rfl, hlive⟩, rfl, rfl⟩

theorem live_map : st.live.map (·.2) = st.streams.filterMap (Option.filter StreamEntry.live) := by
  unfold live
  have hfst : st.streams = st.streams.zipIdx.map (·.1) := (List.zipIdx_map_fst 0 _).symm
  conv_rhs => rw [hfst, List.filterMap_map]
  rw [List.map_filterMap]
  refine List.filterMap_congr fun p _ => ?_
  rw [Option.map_map]
  exact Option.map_id'

theorem countP_live (q : StreamEntry → Bool) : st.live.countP (fun p => q p.2) = st.liveCount q := by
  have hmap : st.live.countP (fun p => q p.2) = (st.live.map (·.2)).countP q := (List.countP_map ..).symm
  rw [hmap, live_map, List.countP_filterMap]
  refine List.countP_congr fun o _ => ?_
  cases o with
  | none => simp [counts]
  | some e => cases hlive : e.live <;> simp [counts, Option.filter, hlive]

theorem length_live : st.live.length = st.liveCount fun _ => true := by
  rw [← countP_live, List.countP_true]

/-! ## An entry that changes -/

theorem counts_set {o : Option StreamEntry} (hi : i < st.streams.length) (hget : st.streams[i]? = some o) (o' : Option StreamEntry) :
    (st.streams.set i o').countP (counts q) + (if counts q o then 1 else 0) = st.liveCount q + if counts q o' then 1 else 0 := by
  have hpos : counts q o = true → 0 < st.streams.countP (counts q) := fun h =>
    List.countP_pos_iff.mpr ⟨o, List.mem_of_getElem? hget, h⟩
  obtain ⟨_, rfl⟩ := List.getElem?_eq_some_iff.mp hget
  rw [List.countP_set hi, liveCount]
  by_cases h : counts q st.streams[i]
  · have := hpos h
    rw [if_pos h]
    omega
  · rw [if_neg h]
    omega

theorem endEntry_none {reason : EndReason} (h : (st.streams[i]?).join.filter StreamEntry.live = none) : st.endEntry i reason = st := by
  unfold endEntry
  rw [h]

theorem endEntry_some {reason : EndReason} (h : st.streams[i]? = some (some e)) (hlive : e.live = true) :
    st.endEntry i reason = { st with streams := st.streams.set i (some { e with ended := some reason }) }.release e.topics := by
  unfold endEntry
  rw [h]
  simp [Option.filter, hlive]

/-- Ended, it counts for nothing. -/
theorem end_counts (reason : EndReason) (h : st.streams[i]? = some (some e)) (hlive : e.live = true) :
    (st.endEntry i reason).liveCount q + (if q e then 1 else 0) = st.liveCount q := by
  obtain ⟨hi, -⟩ := List.getElem?_eq_some_iff.mp h
  have hset := counts_set (q := q) hi h (some { e with ended := some reason })
  have hold : counts q (some e) = q e := by simp [counts, hlive]
  have hnew : counts q (some { e with ended := some reason }) = false := by simp [counts, StreamEntry.live]
  rw [hold, hnew] at hset
  rw [endEntry_some h hlive]
  exact hset

/-- The counters without the cadence, which is recomputed last. -/
structure Counts (st : State V) : Prop where
  size : st.streams.length = entryTable
  demand : ∀ t, st.demand t = st.liveCount (·.topics.contains t)
  total : st.liveCount (fun _ => true) ≤ maxStreams
  perOwner : ∀ o, st.liveCount (fun e => e.owner = o) ≤ maxPerOwner

theorem Counts.same {st' : State V} (h : Counts st) (hsize : st'.streams.length = st.streams.length) (hdemand : st'.demand = st.demand)
    (hsame : ∀ q, st'.liveCount q = st.liveCount q) : Counts st' where
  size := hsize.trans h.size
  demand := fun t => by rw [hdemand, hsame, h.demand]
  total := Nat.le_trans (Nat.le_of_eq (hsame _)) h.total
  perOwner := fun o => Nat.le_trans (Nat.le_of_eq (hsame _)) (h.perOwner o)

/-- A live stream less, with its demand given back. -/
theorem Counts.released {st' : State V} (h : Counts st) (hsize : st'.streams.length = st.streams.length) (hdemand : st'.demand = st.demand)
    (hless : ∀ q, st'.liveCount q + (if q e then 1 else 0) = st.liveCount q) : Counts (st'.release e.topics) where
  size := hsize.trans h.size
  demand := fun t => by
    have hd := h.demand t
    have hl := hless (·.topics.contains t)
    show (if e.topics.contains t then st'.demand t - 1 else st'.demand t) = st'.liveCount _
    rw [hdemand]
    split at hl
    · rw [if_pos ‹_›]
      omega
    · rw [if_neg ‹_›]
      omega
  total := Nat.le_trans (Nat.le.intro (hless _)) h.total
  perOwner := fun o => Nat.le_trans (Nat.le.intro (hless _)) (h.perOwner o)

theorem Counts.endEntry (h : Counts st) (i : Nat) (reason : EndReason) : Counts (st.endEntry i reason) := by
  cases hjoin : (st.streams[i]?).join.filter StreamEntry.live with
  | none =>
    rw [endEntry_none hjoin]
    exact h
  | some e =>
    obtain ⟨hget, hlive⟩ := Option.filter_eq_some_iff.mp hjoin
    have hget := Option.join_eq_some_iff.mp hget
    have hcount (q : StreamEntry → Bool) := end_counts (q := q) reason hget hlive
    rw [endEntry_some hget hlive] at hcount ⊢
    exact h.released (List.length_set ..) rfl hcount

/-- The topics of the entry at `i`, ended or not. -/
def topicsAt (st : State V) (i : Nat) : Option TopicSet := (st.streams[i]?).join.map (·.topics)

@[simp] theorem topicsAt_endEntry (i j : Nat) (reason : EndReason) : (st.endEntry i reason).topicsAt j = st.topicsAt j := by
  cases hjoin : (st.streams[i]?).join.filter StreamEntry.live with
  | none => rw [endEntry_none hjoin]
  | some e =>
    obtain ⟨hget, hlive⟩ := Option.filter_eq_some_iff.mp hjoin
    have hget := Option.join_eq_some_iff.mp hget
    rw [endEntry_some hget hlive]
    show ((st.streams.set i _)[j]?).join.map (·.topics) = (st.streams[j]?).join.map (·.topics)
    rw [List.getElem?_set]
    by_cases hij : i = j
    · subst hij
      obtain ⟨hi, -⟩ := List.getElem?_eq_some_iff.mp hget
      simp only [hi, if_true, hget]
      rfl
    · rw [if_neg hij]

/-! ## The cadence -/

/-- The cadences asked for the signal by the live streams. -/
def hints (st : State V) : List Nat :=
  (st.live.filter (·.2.topics.contains .signal)).map fun p => p.2.signalHint.getD Events.signalCadence

theorem min?_map {f : Nat → Nat} (hf : ∀ a b, f (min a b) = min (f a) (f b)) (l : List Nat) : (l.map f).min? = l.min?.map f := by
  cases l with
  | nil => rfl
  | cons a l =>
    have hfold : ∀ a, (l.map f).foldl min (f a) = f (l.foldl min a) := by
      induction l with
      | nil => exact fun _ => rfl
      | cons b l ih =>
        intro a
        rw [List.map_cons, List.foldl_cons, List.foldl_cons, ← hf, ih]
    exact congrArg some (hfold a)

theorem clamp_min (lo hi a b : Nat) : clamp lo hi (min a b) = min (clamp lo hi a) (clamp lo hi b) := by
  unfold clamp
  omega

/-- What the cadence is to be: the fastest one asked for, within its bounds. -/
def fastest (st : State V) : Nat := (st.hints.min?).elim Events.signalCadence (clamp signalHintMin signalHintMax)

theorem recompute_cadence : st.recomputeSignalCadence.signalCadence = st.fastest := by
  have hmap : ((st.live.filter (·.2.topics.contains .signal)).map fun p =>
      clamp signalHintMin signalHintMax (p.2.signalHint.getD Events.signalCadence)) = st.hints.map (clamp signalHintMin signalHintMax) := by
    rw [hints, List.map_map]
    rfl
  unfold recomputeSignalCadence fastest
  dsimp only
  rw [hmap, min?_map (clamp_min _ _)]
  cases st.hints.min? <;> rfl

/-! ## Every way out, and the way in -/

/-- All that the counters are about. -/
structure Exact (st : State V) : Prop extends Counts st where
  cadence : st.signalCadence = st.fastest

theorem Counts.recompute (h : Counts st) : Exact st.recomputeSignalCadence :=
  ⟨⟨h.size, h.demand, h.total, h.perOwner⟩, recompute_cadence⟩

theorem Exact.wake (h : Exact st) : Exact st.wakeStreams := ⟨⟨h.size, h.demand, h.total, h.perOwner⟩, h.cadence⟩

theorem Counts.endWhere (h : Counts st) (p : StreamEntry → Bool) (reason : EndReason) : Exact (st.endWhere p reason) := by
  obtain ⟨st', heq, hst'⟩ := endWhere_keeps (P := Counts) (fun _ i reason hst => hst.endEntry i reason) p reason h
  rw [heq]
  exact hst'.recompute.wake

theorem topicsAt_endWhere (p : StreamEntry → Bool) (reason : EndReason) (j : Nat) : (st.endWhere p reason).topicsAt j = st.topicsAt j := by
  obtain ⟨st', heq, hst'⟩ := endWhere_keeps (P := fun s => s.topicsAt j = st.topicsAt j)
    (fun _ i reason hst => (topicsAt_endEntry i j reason).trans hst) p reason rfl
  rw [heq]
  exact hst'

theorem Counts.drop (h : Counts st) (i : Nat) : Exact (st.dropEntry i) := by
  unfold dropEntry
  refine Counts.recompute ?_
  by_cases hi : i < st.streams.length
  · have hset (q : StreamEntry → Bool) := counts_set (q := q) hi (List.getElem?_eq_getElem hi) none
    rw [List.getElem?_eq_getElem hi, Option.join_some]
    cases hentry : st.streams[i] with
    | none =>
      rw [hentry] at hset
      refine h.same (List.length_set ..) rfl fun q => ?_
      have hq := hset q
      simp only [counts, Option.any_none, Bool.false_eq_true, if_false, Nat.add_zero] at hq
      exact hq
    | some e =>
      rw [hentry] at hset
      dsimp only
      split
      · rename_i hlive
        refine h.released (List.length_set ..) rfl fun q => ?_
        have hq := hset q
        simp only [counts, Option.any_none, Option.any_some, hlive, Bool.true_and, Bool.false_eq_true, if_false, Nat.add_zero] at hq
        exact hq
      · rename_i hended
        refine h.same (List.length_set ..) rfl fun q => ?_
        have hq := hset q
        simp only [counts, Option.any_none, Option.any_some, hended, Bool.false_and, Bool.false_eq_true, if_false, Nat.add_zero] at hq
        exact hq
  · rw [List.getElem?_eq_none (Nat.not_lt.mp hi), List.set_eq_of_length_le (Nat.not_lt.mp hi)]
    exact h

theorem evicted_some {req : SubscribeReq} (h : st.evicted req = some i) :
    ∃ e, st.streams[i]? = some (some e) ∧ e.live = true ∧ e.owner = req.owner := by
  have hfrom {p : Nat × StreamEntry} (hp : p ∈ st.live) (hown : p.2.owner = req.owner) (hi : p.1 = i) :
      ∃ e, st.streams[i]? = some (some e) ∧ e.live = true ∧ e.owner = req.owner := by
    subst hi
    exact ⟨p.2, (mem_live.mp hp).1, (mem_live.mp hp).2, hown⟩
  unfold evicted at h
  rw [Option.orElse_eq_orElse, Option.orElse_eq_or] at h
  rcases Option.or_eq_some_iff.mp h with hsame | ⟨-, holdest⟩
  · obtain ⟨p, hfind, hi⟩ := Option.map_eq_some_iff.mp hsame
    have hp := List.find?_some hfind
    simp only [Bool.and_eq_true, decide_eq_true_eq] at hp
    exact hfrom (List.mem_of_find?_eq_some hfind) hp.1.2 hi
  · obtain ⟨hmap, -⟩ := Option.filter_eq_some_iff.mp holdest
    obtain ⟨⟨j, p⟩, hmin, hi⟩ := Option.map_eq_some_iff.mp hmap
    have hp := List.mem_filter.mp (List.mem_of_getElem? (Vec.firstMin_some hmin).1)
    exact hfrom hp.1 (by simpa using hp.2) hi

/-- Nobody gives way only where the owner has not its share yet. -/
theorem evicted_none {req : SubscribeReq} (h : st.evicted req = none) : st.liveCount (fun e => e.owner = req.owner) < maxPerOwner := by
  rw [← countP_live, List.countP_eq_length_filter]
  unfold evicted at h
  rw [Option.orElse_eq_orElse, Option.orElse_eq_or] at h
  obtain ⟨-, holdest⟩ := Option.or_eq_none_iff.mp h
  rw [Option.filter_eq_none_iff] at holdest
  by_contra hfull
  have hne : st.live.filter (·.2.owner = req.owner) ≠ [] := by
    intro hnil
    rw [hnil] at hfull
    exact hfull (by decide)
  obtain ⟨p, hp⟩ := Option.isSome_iff_exists.mp (Vec.firstMin_isSome (·.2.serial) hne)
  rw [hp] at holdest
  exact holdest p.2.1 rfl (decide_eq_true (Nat.not_lt.mp hfull))

/-- A live stream more, with its demand. -/
theorem Counts.add (h : Counts st) (hget : st.streams[i]? = some none) (hlive : e.live = true)
    (htotal : st.liveCount (fun _ => true) < maxStreams) (hown : st.liveCount (fun u => u.owner = e.owner) < maxPerOwner)
    {slots : Topic → Slot V} {serial : Nat} :
    Counts { st with nextSerial := serial, streams := st.streams.set i (some e), slots := slots,
                     demand := fun t => if e.topics.contains t then st.demand t + 1 else st.demand t } := by
  obtain ⟨hi, -⟩ := List.getElem?_eq_some_iff.mp hget
  have hmore (q : StreamEntry → Bool) : (st.streams.set i (some e)).countP (counts q) = st.liveCount q + if q e then 1 else 0 := by
    have hq := counts_set (q := q) hi hget (some e)
    simp only [counts, Option.any_none, Option.any_some, hlive, Bool.true_and, Bool.false_eq_true, if_false, Nat.add_zero] at hq
    exact hq
  refine ⟨(List.length_set ..).trans h.size, fun t => ?_, ?_, fun o => ?_⟩
  · show (if e.topics.contains t then st.demand t + 1 else st.demand t) = (st.streams.set i (some e)).countP (counts _)
    rw [hmore, h.demand t]
    split <;> rfl
  · show (st.streams.set i (some e)).countP (counts _) ≤ _
    rw [hmore]
    exact htotal
  · show (st.streams.set i (some e)).countP (counts _) ≤ _
    rw [hmore]
    by_cases ho : e.owner = o
    · subst ho
      simpa using Nat.succ_le_of_lt hown
    · simpa [ho] using h.perOwner o

/-- Whoever gives way, there is room for one more. -/
theorem giveWay_room (h : Exact st) {req : SubscribeReq}
    (hroom : ¬ maxStreams ≤ st.live.length - if (st.evicted req).isSome then 1 else 0) :
    Counts (st.giveWay (st.evicted req)) ∧ (∀ j, (st.giveWay (st.evicted req)).topicsAt j = st.topicsAt j) ∧
      (st.giveWay (st.evicted req)).liveCount (fun _ => true) < maxStreams ∧
      (st.giveWay (st.evicted req)).liveCount (fun u => u.owner = req.owner) < maxPerOwner := by
  rw [length_live] at hroom
  cases hevict : st.evicted req with
  | none =>
    rw [hevict] at hroom
    exact ⟨h.toCounts, fun _ => rfl, Nat.not_le.mp hroom, evicted_none hevict⟩
  | some i =>
    rw [hevict] at hroom
    obtain ⟨e, hget, hlive, hown⟩ := evicted_some hevict
    have htotal := end_counts (q := fun _ => true) .evicted hget hlive
    have howner := end_counts (q := fun u => u.owner = req.owner) .evicted hget hlive
    have hcap := h.perOwner req.owner
    have hended := h.toCounts.endEntry i .evicted
    simp only [hown, decide_true, if_true, Option.isSome_some] at htotal howner hroom
    refine ⟨⟨hended.size, hended.demand, hended.total, hended.perOwner⟩, fun j => topicsAt_endEntry i j .evicted, ?_, ?_⟩
    · show (st.endEntry i .evicted).liveCount _ < _
      omega
    · show (st.endEntry i .evicted).liveCount _ < _
      omega

/-- What `subscribe` comes to: refused and unchanged, or a live entry more in a free place. -/
theorem subscribe_cases (h : Exact st) (req : SubscribeReq) (now bootNow : Nat) :
    st.subscribe req now bootNow = (none, st) ∨
      ∃ entry, (st.subscribe req now bootNow).1 = some entry ∧ Exact (st.subscribe req now bootNow).2 ∧ st.topicsAt entry = none ∧
        ∀ j, (st.subscribe req now bootNow).2.topicsAt j = if entry = j then some req.topics else st.topicsAt j := by
  unfold subscribe
  dsimp only
  by_cases hroom : maxStreams ≤ st.live.length - if (st.evicted req).isSome then 1 else 0
  · rw [if_pos hroom]
    exact .inl rfl
  · rw [if_neg hroom]
    split
    · exact .inl rfl
    · rename_i entry hentry
      refine .inr ⟨entry, rfl, ?_⟩
      obtain ⟨hlt, hnone, -⟩ := List.findIdx?_eq_some_iff_getElem.mp hentry
      have hfree : st.topicsAt entry = none := by
        unfold topicsAt
        rw [List.getElem?_eq_getElem hlt, Option.isNone_iff_eq_none.mp hnone]
        rfl
      obtain ⟨hcounts, htopics, htotal, hown⟩ := giveWay_room h hroom
      generalize st.giveWay (st.evicted req) = st' at *
      have hget : st'.streams[entry]? = some none := by
        have hlt' : entry < st'.streams.length := by
          rw [hcounts.size, ← h.size]
          exact hlt
        have hfree' := (htopics entry).trans hfree
        unfold topicsAt at hfree'
        rw [List.getElem?_eq_getElem hlt'] at hfree' ⊢
        simpa using hfree'
      refine ⟨Counts.recompute (hcounts.add
        (e := ⟨req.owner, req.topics, req.signalHint, req.replaceSame, st'.nextSerial + 1, none⟩) hget rfl htotal hown), hfree, fun j => ?_⟩
      show ((st'.streams.set entry _)[j]?).join.map (·.topics) = _
      rw [List.getElem?_set]
      by_cases hj : entry = j
      · subst hj
        obtain ⟨hlt', -⟩ := List.getElem?_eq_some_iff.mp hget
        simp [hlt']
      · rw [if_neg hj, if_neg hj]
        exact htopics j

theorem topicsAt_drop (i j : Nat) : (st.dropEntry i).topicsAt j = if i = j then none else st.topicsAt j := by
  have hstreams : (st.dropEntry i).streams = st.streams.set i none := by
    unfold dropEntry
    dsimp only
    split
    · split <;> rfl
    · rfl
  unfold topicsAt
  rw [hstreams, List.getElem?_set]
  by_cases hij : i = j
  · rw [if_pos hij, if_pos hij]
    split <;> rfl
  · rw [if_neg hij, if_neg hij]

/-! ## What stores leave alone -/

theorem Exact.of_eq {st' : State V} (h : Exact st) (hstreams : st'.streams = st.streams) (hdemand : st'.demand = st.demand)
    (hcadence : st'.signalCadence = st.signalCadence) : Exact st' := by
  have hlive : st'.live = st.live := by
    unfold live
    rw [hstreams]
  have hcount (q : StreamEntry → Bool) : st'.liveCount q = st.liveCount q := by
    unfold liveCount
    rw [hstreams]
  refine ⟨h.toCounts.same (by rw [hstreams]) hdemand hcount, ?_⟩
  unfold fastest hints
  rw [hcadence, hlive]
  exact h.cadence

section

variable [DecidableEq V]

theorem put_streams (t : Topic) (data : V) (now bootNow : Nat) :
    (st.put t data now bootNow).streams = st.streams ∧ (st.put t data now bootNow).demand = st.demand ∧
      (st.put t data now bootNow).signalCadence = st.signalCadence := by
  unfold put
  dsimp only
  split <;> exact ⟨rfl, rfl, rfl⟩

theorem storeAt_streams (r : Reading V) (t : Topic) (out : Option (ReadOut V)) (started now bootNow unixNow : Nat) :
    (st.storeAt r t out started now bootNow unixNow).streams = st.streams ∧
      (st.storeAt r t out started now bootNow unixNow).demand = st.demand ∧
      (st.storeAt r t out started now bootNow unixNow).signalCadence = st.signalCadence := by
  unfold storeAt
  dsimp only
  split
  · exact ⟨rfl, rfl, rfl⟩
  · split
    · exact ⟨rfl, rfl, rfl⟩
    · split <;> exact ⟨rfl, rfl, rfl⟩

end

end State

namespace World

variable [DecidableEq V] {r : Reading V} {w : World V}

/-- Every subscription has an entry of its own, with its topics. -/
structure Kept (w : World V) : Prop where
  exact_ : w.hub.Exact
  nodup : (w.subs.map Subscription.entry).Nodup
  entries : ∀ i topics, w.hub.topicsAt i = some topics ↔ ∃ sub ∈ w.subs, sub.entry = i ∧ sub.topics = topics

omit [DecidableEq V] in
theorem Kept.hub (h : Kept w) {hub : State V} (hexact : hub.Exact) (htopics : ∀ i, hub.topicsAt i = w.hub.topicsAt i) :
    Kept { w with hub } := ⟨hexact, h.nodup, fun i topics => by rw [htopics]; exact h.entries i topics⟩

theorem Kept.same (h : Kept w) {hub : State V}
    (hsame : hub.streams = w.hub.streams ∧ hub.demand = w.hub.demand ∧ hub.signalCadence = w.hub.signalCadence) : Kept { w with hub } := by
  refine h.hub (h.exact_.of_eq hsame.1 hsame.2.1 hsame.2.2) fun i => ?_
  unfold State.topicsAt
  rw [hsame.1]

theorem step_refused {req : SubscribeReq} {now bootNow : Nat} (h : w.hub.subscribe req now bootNow = (none, w.hub)) :
    w.step r (.subscribe req now bootNow) = w := by
  unfold World.step
  dsimp only
  rw [h]

theorem Kept.step (h : Kept w) (e : Event V) : Kept (w.step r e) := by
  cases e with
  | put t data now bootNow => exact h.same (State.put_streams ..)
  | store t out started now bootNow unixNow => exact h.same (State.storeAt_streams ..)
  | touch t settle now => exact h.same ⟨rfl, rfl, rfl⟩
  | endSessions ids => exact h.hub (h.exact_.toCounts.endWhere _ _) (State.topicsAt_endWhere _ _)
  | endAll reason => exact h.hub (h.exact_.toCounts.endWhere _ _) (State.topicsAt_endWhere _ _)
  | subscribe req now bootNow =>
    rcases State.subscribe_cases h.exact_ req now bootNow with heq | ⟨entry, hentry, hexact, hfree, htopics⟩
    · rw [step_refused heq]
      exact h
    · unfold World.step
      dsimp only
      rw [← Prod.eta (w.hub.subscribe req now bootNow), hentry]
      have hnew : ∀ sub ∈ w.subs, sub.entry ≠ entry := by
        rintro sub hsub rfl
        cases hfree.symm.trans ((h.entries sub.entry sub.topics).mpr ⟨sub, hsub, rfl, rfl⟩)
      refine ⟨hexact, ?_, fun i topics => ?_⟩
      · rw [List.map_append, List.nodup_append]
        refine ⟨h.nodup, List.nodup_singleton _, fun a ha b hb => ?_⟩
        obtain ⟨sub, hsub, rfl⟩ := List.mem_map.mp ha
        rw [List.mem_singleton.mp hb]
        exact hnew sub hsub
      · dsimp only
        rw [htopics]
        by_cases hi : entry = i
        · subst hi
          rw [if_pos rfl]
          constructor
          · intro ht
            exact ⟨_, List.mem_append_right _ (List.mem_singleton_self _), rfl, Option.some.inj ht⟩
          · rintro ⟨sub, hsub, hown, ht⟩
            rcases List.mem_append.mp hsub with hsub | hsub
            · exact absurd hown (hnew sub hsub)
            · rw [List.mem_singleton.mp hsub] at ht
              exact congrArg some ht
        · rw [if_neg hi, h.entries]
          refine exists_congr fun sub => and_congr_left fun ⟨hown, _⟩ => ?_
          rw [List.mem_append, List.mem_singleton]
          refine ⟨.inl, fun hsub => hsub.resolve_right ?_⟩
          rintro rfl
          exact hi hown
  | drop entry =>
    unfold World.step
    dsimp only
    split
    · refine ⟨h.exact_.toCounts.drop entry, h.nodup.sublist (List.filter_sublist.map _), fun i topics => ?_⟩
      dsimp only
      rw [State.topicsAt_drop]
      by_cases hi : entry = i
      · subst hi
        rw [if_pos rfl]
        refine ⟨nofun, ?_⟩
        rintro ⟨sub, hsub, hown, -⟩
        exact absurd hown (by simpa using (List.mem_filter.mp hsub).2)
      · rw [if_neg hi, h.entries]
        refine exists_congr fun sub => and_congr_left fun ⟨hown, _⟩ => ?_
        rw [List.mem_filter]
        refine ⟨fun hsub => ⟨hsub, ?_⟩, And.left⟩
        simpa [hown] using Ne.symm hi
    · exact h
  | collect entry all =>
    refine ⟨h.exact_, ?_, fun i topics => ?_⟩
    · show ((updateFirst _ _ w.subs).map Subscription.entry).Nodup
      rw [map_updateFirst (f := fun sub : Subscription V => (sub.collect w.hub all).2) fun _ _ => rfl]
      exact h.nodup
    · have hpairs : (updateFirst (·.entry == entry) (fun sub => (sub.collect w.hub all).2) w.subs).map (fun sub => (sub.entry, sub.topics)) =
          w.subs.map fun sub => (sub.entry, sub.topics) :=
        map_updateFirst (f := fun sub : Subscription V => (sub.collect w.hub all).2) (fun _ _ => rfl) _
      have hmem {subs : List (Subscription V)} : (∃ sub ∈ subs, sub.entry = i ∧ sub.topics = topics) ↔
          (i, topics) ∈ subs.map fun sub => (sub.entry, sub.topics) := by simp [List.mem_map]
      rw [hmem]
      show _ ↔ _ ∈ (updateFirst _ _ w.subs).map _
      rw [hpairs, ← hmem]
      exact h.entries i topics

theorem Kept.start (received : V) (now bootNow : Nat) : Kept (World.start received now bootNow) := by
  have hcount (q : StreamEntry → Bool) : ({} : State V).liveCount q = 0 := by
    unfold State.liveCount
    rw [List.countP_replicate]
    rfl
  have hlive : ({} : State V).live = [] := List.eq_nil_of_length_eq_zero (State.length_live.trans (hcount _))
  have hinit : ({} : State V).Exact := by
    refine ⟨⟨List.length_replicate, fun t => (hcount _).symm, ?_, fun o => ?_⟩, ?_⟩
    · rw [hcount]
      exact Nat.zero_le _
    · rw [hcount]
      exact Nat.zero_le _
    · unfold State.fastest State.hints
      rw [hlive]
      rfl
  obtain ⟨hstreams, hdemand, hcadence⟩ := @State.put_streams V {} _ .sms received now bootNow
  refine ⟨hinit.of_eq hstreams hdemand hcadence, List.nodup_nil, fun i topics => ?_⟩
  refine ⟨fun h => ?_, nofun⟩
  unfold State.topicsAt at h
  rw [show (World.start received now bootNow).hub.streams = _ from hstreams] at h
  obtain ⟨e, he, -⟩ := Option.map_eq_some_iff.mp h
  have hmem := List.mem_of_getElem? (Option.join_eq_some_iff.mp he)
  cases (List.mem_replicate.mp hmem).2

theorem kept_run (received : V) (now bootNow : Nat) (es : List (Event V)) : Kept (exec (World.step r) (.start received now bootNow) es) :=
  invariant (fun _ e h => h.step e) (Kept.start received now bootNow)

end World

/-- In every run of the hub each topic's demand is the number of live streams that contain it; no more than
    eight streams are live, and no more than three of an owner; the signal's cadence is the
    fastest one asked for, within its bounds; the subscriptions held are the entries there are; and a
    subscription that is refused leaves everything as it was. -/
theorem counters_exact [DecidableEq V] (r : Reading V) (received : V) (now bootNow : Nat) (es : List (Event V)) :
    let w := exec (World.step r) (.start received now bootNow) es
    (∀ t, w.hub.demand t = w.hub.live.countP fun p => p.2.topics.contains t) ∧
    w.hub.live.length ≤ maxStreams ∧
    (∀ o, w.hub.live.countP (fun p => p.2.owner = o) ≤ maxPerOwner) ∧
    w.hub.signalCadence = w.hub.fastest ∧
    (w.subs.map Subscription.entry).Nodup ∧
    (∀ i topics, w.hub.topicsAt i = some topics ↔ ∃ sub ∈ w.subs, sub.entry = i ∧ sub.topics = topics) ∧
    ∀ req now bootNow, (w.hub.subscribe req now bootNow).1 = none → w.step r (.subscribe req now bootNow) = w := by
  have h : World.Kept (exec (World.step r) (.start received now bootNow) es) := World.kept_run received now bootNow es
  refine ⟨fun t => ?_, ?_, fun o => ?_, h.exact_.cadence, h.nodup, h.entries, fun req now bootNow hrefused => ?_⟩
  · rw [State.countP_live (·.topics.contains t)]
    exact h.exact_.demand t
  · rw [State.length_live]
    exact h.exact_.total
  · rw [State.countP_live (fun e => e.owner = o)]
    exact h.exact_.perOwner o
  · rcases State.subscribe_cases h.exact_ req now bootNow with heq | ⟨entry, hentry, -⟩
    · exact World.step_refused heq
    · cases hrefused.symm.trans hentry

end OpenU60.Events
