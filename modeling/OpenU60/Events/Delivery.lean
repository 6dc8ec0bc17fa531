/-
  OpenU60.Events.Delivery — no update of the hub is lost.

  A version is the hub's sequence number at the last change, so a change gives a topic a version that
  no subscriber has seen (`Advances`). What a subscriber has seen of a topic and was given goes together
  (`Current`): as long as the version it has seen is the topic's, the value and error it was given last are
  the topic's.
  - `updates_delivered`: in every run, a topic's value and error stay or its version rises; a
    subscriber gets nothing of other topics, and nothing twice; with no changes to collect it has
    been given what the hub holds.
-/

import OpenU60.Events.Hub
import OpenU60.Lib.Machine

namespace OpenU60.Events

open OpenU60.Lib OpenU60.Lib.Machine OpenU60.Lib.FirstMatch

variable {V : Type}

/-! ## What an operation does to the slots -/

namespace State

def content (st : State V) (t : Topic) : Option V × Option String := ((st.slots t).value, (st.slots t).error)

/-- No version is ahead of the hub, and a topic with data has one. -/
def Sound (st : State V) : Prop :=
  ∀ t, (st.slots t).version ≤ st.seq ∧ ((st.slots t).version = 0 → (st.slots t).hasData = false)

/-- A topic keeps its version and content, or has a version that is new. -/
structure Advances (st st' : State V) : Prop where
  seq : st.seq ≤ st'.seq
  slot : ∀ t, (st'.slots t).version = (st.slots t).version ∧ st'.content t = st.content t ∨
    st.seq < (st'.slots t).version ∧ (st'.slots t).version ≤ st'.seq ∧ ((st.slots t).hasData = true → (st'.slots t).hasData = true)

variable {st st' : State V} {t : Topic}

theorem hasData_of_content {st' : State V} (h : st'.content t = st.content t) : (st'.slots t).hasData = (st.slots t).hasData := by
  have hvalue : (st'.slots t).value = (st.slots t).value := congrArg Prod.fst h
  have herror : (st'.slots t).error = (st.slots t).error := congrArg Prod.snd h
  unfold Slot.hasData
  rw [hvalue, herror]

theorem content_none (h : (st.slots t).hasData = false) : st.content t = (none, none) := by
  unfold Slot.hasData at h
  rw [Bool.or_eq_false_iff, Option.isSome_eq_false_iff, Option.isSome_eq_false_iff] at h
  exact Prod.ext (Option.isNone_iff_eq_none.mp h.1) (Option.isNone_iff_eq_none.mp h.2)

theorem Advances.refl (st : State V) : Advances st st := ⟨Nat.le_refl _, fun _ => .inl ⟨rfl, rfl⟩⟩

theorem Advances.data (h : Advances st st') (t : Topic) (hdata : (st.slots t).hasData = true) : (st'.slots t).hasData = true := by
  rcases h.slot t with ⟨-, hcontent⟩ | ⟨-, -, hkeeps⟩
  · rw [hasData_of_content hcontent]
    exact hdata
  · exact hkeeps hdata

theorem Advances.sound (h : Advances st st') (hs : st.Sound) : st'.Sound := by
  intro t
  have hseq := h.seq
  obtain ⟨hle, hzero⟩ := hs t
  rcases h.slot t with ⟨hversion, hcontent⟩ | ⟨hlt, hle', -⟩
  · rw [hversion, hasData_of_content hcontent]
    exact ⟨Nat.le_trans hle hseq, hzero⟩
  · exact ⟨hle', fun h0 => by omega⟩

/-- Slots that keep what subscribers see of them. -/
theorem Advances.of_same (hseq : st.seq ≤ st'.seq)
    (hslot : ∀ t, (st'.slots t).version = (st.slots t).version ∧ st'.content t = st.content t) : Advances st st' :=
  ⟨hseq, fun t => .inl (hslot t)⟩

/-- One slot is set, and its topic bumped. -/
theorem advances_bump {slot : Slot V} (hdata : (st.slots t).hasData = true → slot.hasData = true) :
    Advances st ((st.setSlot t slot).bump t) := by
  refine ⟨Nat.le_succ _, fun u => ?_⟩
  by_cases hu : u = t
  · subst hu
    refine .inr ⟨?_, ?_, fun h => ?_⟩
    · simp [bump, setSlot, wakeStreams]
    · simp [bump, setSlot, wakeStreams]
    · simpa [bump, setSlot, wakeStreams, Slot.hasData] using hdata h
  · refine .inl ⟨?_, ?_⟩
    · simp [bump, setSlot, wakeStreams, hu]
    · simp [bump, setSlot, wakeStreams, content, hu]

/-- One slot is set, with the same version and content. -/
theorem advances_set {slot : Slot V} (hversion : slot.version = (st.slots t).version)
    (hcontent : (slot.value, slot.error) = st.content t) : Advances st (st.setSlot t slot) := by
  refine .of_same (Nat.le_refl _) fun u => ?_
  by_cases hu : u = t
  · subst hu
    simp only [setSlot, content, if_true]
    exact ⟨hversion, hcontent⟩
  · simp [setSlot, content, hu]

theorem endEntry_same (i : Nat) (reason : EndReason) : (st.endEntry i reason).slots = st.slots ∧ (st.endEntry i reason).seq = st.seq := by
  unfold endEntry
  split <;> exact ⟨rfl, rfl⟩

theorem advances_endWhere (p : StreamEntry → Bool) (reason : EndReason) : Advances st (st.endWhere p reason) := by
  obtain ⟨st', heq, hslots, hseq⟩ := endWhere_keeps (P := fun s => s.slots = st.slots ∧ s.seq = st.seq) (fun s i reason hs =>
    ⟨(endEntry_same i reason).1.trans hs.1, (endEntry_same i reason).2.trans hs.2⟩) p reason ⟨rfl, rfl⟩
  rw [heq]
  refine .of_same ?_ fun t => ?_
  · show st.seq ≤ st'.seq + 1
    omega
  · show (st'.slots t).version = _ ∧ ((st'.slots t).value, (st'.slots t).error) = _
    rw [hslots]
    exact ⟨rfl, rfl⟩

theorem subscribeSlot_same (now bootNow : Nat) : (st.subscribeSlot t now bootNow).version = (st.slots t).version ∧
    ((st.subscribeSlot t now bootNow).value, (st.subscribeSlot t now bootNow).error) = st.content t := by
  unfold subscribeSlot
  dsimp only
  split
  · exact ⟨rfl, rfl⟩
  · split <;> exact ⟨rfl, rfl⟩

theorem giveWay_same (evict : Option Nat) : (st.giveWay evict).slots = st.slots ∧ st.seq ≤ (st.giveWay evict).seq := by
  cases evict with
  | none => exact ⟨rfl, Nat.le_refl _⟩
  | some i => exact ⟨(endEntry_same i _).1, Nat.le_succ_of_le (Nat.le_of_eq (endEntry_same i _).2.symm)⟩

theorem advances_subscribe (req : SubscribeReq) (now bootNow : Nat) : Advances st (st.subscribe req now bootNow).2 := by
  obtain ⟨hslots, hseq⟩ : (st.giveWay (st.evicted req)).slots = st.slots ∧ st.seq ≤ (st.giveWay (st.evicted req)).seq :=
    giveWay_same _
  unfold subscribe
  dsimp only
  by_cases hroom : maxStreams ≤ st.live.length - if (st.evicted req).isSome then 1 else 0
  · rw [if_pos hroom]
    exact .refl st
  · rw [if_neg hroom]
    split
    · exact .refl st
    · generalize st.giveWay (st.evicted req) = st' at *
      refine .of_same hseq fun t => ?_
      show (if req.topics.contains t then st'.subscribeSlot t now bootNow else st'.slots t).version = _ ∧
        ((if req.topics.contains t then st'.subscribeSlot t now bootNow else st'.slots t).value,
          (if req.topics.contains t then st'.subscribeSlot t now bootNow else st'.slots t).error) = _
      have hsame : (st'.slots t).version = (st.slots t).version ∧ st'.content t = st.content t := by
        unfold content
        rw [hslots]
        exact ⟨rfl, rfl⟩
      split
      · obtain ⟨hversion, hcontent⟩ : (st'.subscribeSlot t now bootNow).version = (st'.slots t).version ∧
            ((st'.subscribeSlot t now bootNow).value, (st'.subscribeSlot t now bootNow).error) = st'.content t :=
          subscribeSlot_same now bootNow
        exact ⟨hversion.trans hsame.1, hcontent.trans hsame.2⟩
      · exact hsame

theorem advances_drop (i : Nat) : Advances st (st.dropEntry i) := by
  unfold dropEntry
  dsimp only
  split
  · split <;> exact .of_same (Nat.le_refl _) fun _ => ⟨rfl, rfl⟩
  · exact .of_same (Nat.le_refl _) fun _ => ⟨rfl, rfl⟩

/-! ### Stores -/

variable [DecidableEq V]

theorem advances_put (t : Topic) (data : V) (now bootNow : Nat) : Advances st (st.put t data now bootNow) := by
  unfold put
  dsimp only
  split
  · exact advances_bump fun _ => rfl
  · exact advances_set rfl rfl

omit [DecidableEq V] in
theorem readSlot_same (slot : Slot V) (started now bootNow : Nat) :
    (readSlot slot started now bootNow).version = slot.version ∧ (readSlot slot started now bootNow).value = slot.value ∧
      (readSlot slot started now bootNow).error = slot.error := by
  unfold readSlot
  dsimp only
  split <;> exact ⟨rfl, rfl, rfl⟩

/-- An outcome that is no change leaves version, value and error alone; data does not go. -/
theorem takeIn_spec (r : Reading V) (t : Topic) (slot : Slot V) (out : ReadOut V) (now unixNow : Nat) :
    (takeIn r t slot out now unixNow).2.version = slot.version ∧
      ((takeIn r t slot out now unixNow).1 = false →
        (takeIn r t slot out now unixNow).2.value = slot.value ∧ (takeIn r t slot out now unixNow).2.error = slot.error) ∧
      (slot.hasData = true → (takeIn r t slot out now unixNow).2.hasData = true) := by
  unfold takeIn
  split
  · rename_i v _
    dsimp only
    generalize hslot : (if t = .esimDownload then { slot with recheckAt := (resultExpiry r v unixNow).map (now + ·) } else slot) = slot'
    have hsame : slot'.version = slot.version ∧ slot'.value = slot.value ∧ slot'.error = slot.error := by
      subst hslot
      split <;> exact ⟨rfl, rfl, rfl⟩
    split
    · exact ⟨hsame.1, nofun, fun _ => rfl⟩
    · refine ⟨hsame.1, fun _ => hsame.2, fun hdata => ?_⟩
      unfold Slot.hasData
      rw [hsame.2.1, hsame.2.2]
      exact hdata
  · split
    · rename_i hsome
      refine ⟨rfl, fun h => ⟨rfl, ?_⟩, fun _ => ?_⟩
      · exact (Decidable.not_not.mp (of_decide_eq_false h)).symm
      · simp [Slot.hasData, hsome]
    · exact ⟨rfl, fun _ => ⟨rfl, rfl⟩, id⟩

theorem advances_storeAt (r : Reading V) (t : Topic) (out : Option (ReadOut V)) (started now bootNow unixNow : Nat) :
    Advances st (st.storeAt r t out started now bootNow unixNow) := by
  obtain ⟨hversion, hvalue, herror⟩ := readSlot_same (st.slots t) started now bootNow
  unfold storeAt
  split
  · exact .refl st
  · dsimp only
    generalize readSlot (st.slots t) started now bootNow = slot at *
    split
    · exact advances_set hversion (Prod.ext hvalue herror)
    · rename_i out
      obtain ⟨hv, hsame, hdata⟩ := takeIn_spec r t (readOut slot out bootNow) out now unixNow
      generalize takeIn r t (readOut slot out bootNow) out now unixNow = taken at *
      split
      · refine advances_bump fun h => hdata ?_
        unfold Slot.hasData at h ⊢
        show (slot.value.isSome || slot.error.isSome) = true
        rw [hvalue, herror]
        exact h
      · rename_i hno
        simp only [Bool.or_eq_true, not_or, Bool.not_eq_true] at hno
        obtain ⟨hval, herr⟩ := hsame hno.1.1
        exact advances_set (hv.trans hversion) (Prod.ext (hval.trans hvalue) (herr.trans herror))

end State

/-! ## What a subscriber was given -/

theorem Topic.mem_all (t : Topic) : t ∈ Topic.all := by cases t <;> decide

namespace Subscription

variable {sub : Subscription V} {st st' : State V} {all : Bool} {t : Topic}

theorem mem_collect {p : Topic × SlotView V} :
    p ∈ (sub.collect st all).1 ↔ sub.topics.contains p.1 = true ∧ sub.takes st all p.1 = true ∧ p.2 = (st.slots p.1).view := by
  simp only [collect, TopicSet.iter, List.mem_map, List.mem_filter]
  constructor
  · rintro ⟨t, ⟨⟨-, hmem⟩, htakes⟩, rfl⟩
    exact ⟨hmem, htakes, rfl⟩
  · rintro ⟨hmem, htakes, hview⟩
    exact ⟨p.1, ⟨⟨Topic.mem_all _, hmem⟩, htakes⟩, by rw [← hview]⟩

/-- What was delivered last is what was returned, if the topic was. -/
theorem collect_delivered (t : Topic) : (sub.collect st all).2.delivered t =
    if sub.topics.contains t = true ∧ sub.takes st all t = true then st.content t else sub.delivered t := by
  have hlast : (sub.collect st all).2.delivered t =
      ((sub.collect st all).1.find? (·.1 = t)).elim (sub.delivered t) fun p => (p.2.value, p.2.error) := by
    unfold collect
    dsimp only
    split
    · next p hp => rw [hp]; rfl
    · next hp => rw [hp]; rfl
  rw [hlast]
  cases hfind : (sub.collect st all).1.find? (·.1 = t) with
  | some p =>
    have hp : p.1 = t := by simpa using List.find?_some hfind
    subst hp
    obtain ⟨hmem, htakes, hview⟩ := mem_collect.mp (List.mem_of_find?_eq_some hfind)
    rw [Option.elim_some, if_pos ⟨hmem, htakes⟩, hview]
    rfl
  | none =>
    rw [Option.elim_none, if_neg]
    rintro ⟨hmem, htakes⟩
    have hno := List.find?_eq_none.mp hfind (t, (st.slots t).view) (mem_collect.mpr ⟨hmem, htakes, rfl⟩)
    simp at hno

/-- Having seen a topic's version is having been given its content. -/
def Current (st : State V) (sub : Subscription V) : Prop :=
  ∀ t, sub.topics.contains t = true → sub.seen t ≤ (st.slots t).version ∧ (sub.seen t = (st.slots t).version → sub.delivered t = st.content t) ∧
    ((st.slots t).hasData = false → sub.delivered t = (none, none))

theorem Current.opened (hs : st.Sound) (entry : Nat) (topics : TopicSet) : Current st (opened entry topics) := by
  intro t _
  refine ⟨Nat.zero_le _, fun hzero => ?_, fun _ => rfl⟩
  exact (State.content_none ((hs t).2 hzero.symm)).symm

/-- A change makes the version one that was not seen. -/
theorem Current.advance (h : Current st sub) (hs : st.Sound) (ha : st.Advances st') : Current st' sub := by
  intro t ht
  obtain ⟨hle, hsame, hnone⟩ := h t ht
  have hdata : (st'.slots t).hasData = false → (st.slots t).hasData = false := fun hno =>
    Bool.eq_false_iff.mpr fun hd => by
      rw [ha.data t hd] at hno
      cases hno
  rcases ha.slot t with ⟨hversion, hcontent⟩ | ⟨hlt, -, -⟩
  · rw [hversion, hcontent]
    exact ⟨hle, hsame, fun hno => hnone (hdata hno)⟩
  · have hold := (hs t).1
    exact ⟨by omega, fun heq => by omega, fun hno => hnone (hdata hno)⟩

theorem Current.collect (h : Current st sub) (all : Bool) : Current st (sub.collect st all).2 := by
  intro t ht
  have ht : sub.topics.contains t = true := ht
  obtain ⟨hle, hsame, hnone⟩ := h t ht
  have hseen : (sub.collect st all).2.seen t = (st.slots t).version := if_pos ht
  have hgiven : (sub.collect st all).2.delivered t = st.content t := by
    rw [collect_delivered]
    by_cases htakes : sub.takes st all t = true
    · rw [if_pos ⟨ht, htakes⟩]
    · rw [if_neg fun hboth => htakes hboth.2]
      cases hdata : (st.slots t).hasData with
      | false => rw [hnone hdata, State.content_none hdata]
      | true =>
        simp only [takes, hdata, Bool.true_and, Bool.or_eq_true, decide_eq_true_eq, not_or, Nat.not_lt] at htakes
        exact hsame (Nat.le_antisymm hle htakes.2)
  rw [hseen, hgiven]
  exact ⟨Nat.le_refl _, fun _ => rfl, State.content_none⟩

end Subscription

/-! ## Runs -/

namespace World

variable [DecidableEq V] {r : Reading V} {w : World V}

structure Served (w : World V) : Prop where
  sound : w.hub.Sound
  current : ∀ sub ∈ w.subs, sub.Current w.hub

theorem advances_step (e : Event V) : w.hub.Advances (w.step r e).hub := by
  cases e with
  | put t data now bootNow => exact State.advances_put t data now bootNow
  | store t out started now bootNow unixNow => exact State.advances_storeAt r t out started now bootNow unixNow
  | touch t settle now => exact State.advances_set rfl rfl
  | endSessions ids => exact State.advances_endWhere _ _
  | endAll reason => exact State.advances_endWhere _ _
  | subscribe req now bootNow =>
    have hadvances : State.Advances w.hub (w.hub.subscribe req now bootNow).2 := State.advances_subscribe req now bootNow
    unfold World.step
    dsimp only
    split
    · rename_i heq
      rw [heq] at hadvances
      exact hadvances
    · rename_i heq
      rw [heq] at hadvances
      exact hadvances
  | drop entry =>
    unfold World.step
    dsimp only
    split
    · exact State.advances_drop entry
    · exact .refl _
  | collect entry all => exact .refl _

theorem Served.step (h : Served w) (e : Event V) : Served (w.step r e) := by
  have ha : w.hub.Advances (w.step r e).hub := advances_step e
  have hsound := ha.sound h.sound
  have hold : ∀ sub ∈ w.subs, sub.Current (w.step r e).hub := fun sub hsub => (h.current sub hsub).advance h.sound ha
  refine ⟨hsound, ?_⟩
  cases e with
  | put | store | touch | endSessions | endAll => exact hold
  | subscribe req now bootNow =>
    revert hsound hold
    unfold World.step
    dsimp only
    split
    · intro hsound hold sub hsub
      rcases List.mem_append.mp hsub with hsub | hsub
      · exact hold sub hsub
      · rw [List.mem_singleton.mp hsub]
        exact .opened hsound _ _
    · exact fun _ hold => hold
  | drop entry =>
    revert hold
    unfold World.step
    dsimp only
    split
    · exact fun hold sub hsub => hold sub (List.mem_of_mem_filter hsub)
    · exact fun hold => hold
  | collect entry all =>
    intro sub hsub
    rcases mem_updateFirst hsub with hsub | ⟨old, hfind, rfl⟩
    · exact hold sub hsub
    · exact (h.current old (List.mem_of_find?_eq_some hfind)).collect all

theorem Served.start (received : V) (now bootNow : Nat) : Served (World.start received now bootNow) := by
  have hinit : ({} : State V).Sound := fun _ => ⟨Nat.le_refl _, fun _ => rfl⟩
  exact ⟨(State.advances_put .sms received now bootNow).sound hinit, nofun⟩

omit [DecidableEq V] in
/-- With no changes to collect, the content given last is the hub's. -/
theorem Served.caught_up (h : Served w) {sub : Subscription V} (hsub : sub ∈ w.subs) (hnone : (sub.collect w.hub false).1 = [])
    {t : Topic} (ht : sub.topics.contains t = true) : sub.delivered t = w.hub.content t := by
  obtain ⟨hle, hsame, hempty⟩ := h.current sub hsub t ht
  cases hdata : (w.hub.slots t).hasData with
  | false => rw [hempty hdata, State.content_none hdata]
  | true =>
    refine hsame (Nat.le_antisymm hle (Nat.not_lt.mp fun hlt => ?_))
    have htakes : sub.takes w.hub false t = true := by
      rw [Subscription.takes, hdata, Bool.true_and, Bool.false_or, decide_eq_true_eq]
      exact hlt
    have hp : (t, (w.hub.slots t).view) ∈ (sub.collect w.hub false).1 := Subscription.mem_collect.mpr ⟨ht, htakes, rfl⟩
    rw [hnone] at hp
    cases hp

end World

/-- In every run a step leaves a topic's version, value and error or gives it a higher version. What a subscriber
    collects is of its own topics, and as changes newer than what it has seen; and with no changes to
    collect, the value and error delivered last of each of its topics are the hub's. -/
theorem updates_delivered [DecidableEq V] (r : Reading V) (received : V) (now bootNow : Nat) (es : List (Event V)) :
    let w := exec (World.step r) (.start received now bootNow) es
    (∀ e t, ((w.step r e).hub.slots t).version = (w.hub.slots t).version ∧ (w.step r e).hub.content t = w.hub.content t ∨
      (w.hub.slots t).version < ((w.step r e).hub.slots t).version) ∧
    ∀ sub ∈ w.subs,
      (∀ all, ∀ p ∈ (sub.collect w.hub all).1, sub.topics.contains p.1 = true ∧ p.2 = (w.hub.slots p.1).view ∧
        (all = false → sub.seen p.1 < p.2.version)) ∧
      ((sub.collect w.hub false).1 = [] → ∀ t, sub.topics.contains t = true → sub.delivered t = w.hub.content t) := by
  have hserved : World.Served (exec (World.step r) (.start received now bootNow) es) :=
    invariant (fun _ e h => h.step e) (World.Served.start received now bootNow)
  generalize exec (World.step r) (.start received now bootNow) es = w at hserved
  refine ⟨fun e t => ?_, fun sub hsub => ⟨fun all p hp => ?_, fun hnone t ht => hserved.caught_up hsub hnone ht⟩⟩
  · have ha : w.hub.Advances (w.step r e).hub := World.advances_step e
    refine (ha.slot t).imp id fun h => ?_
    exact Nat.lt_of_le_of_lt (hserved.sound t).1 h.1
  · obtain ⟨hmem, htakes, hview⟩ := Subscription.mem_collect.mp hp
    refine ⟨hmem, hview, ?_⟩
    rintro rfl
    simp only [Subscription.takes, Bool.false_or, Bool.and_eq_true, decide_eq_true_eq] at htakes
    rw [hview]
    exact htakes.2

end OpenU60.Events
