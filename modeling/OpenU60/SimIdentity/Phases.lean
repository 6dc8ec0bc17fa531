/-
  OpenU60.SimIdentity.Phases — what the tracker tells the rest of the agent, over every
  sequence of inputs at non-decreasing times, and when its thread sleeps.

  - `Handles`: all a step can do. The phases of the run follow from it.
  - `identity_tracked`: the epoch counts the `changed` phases, and these are the ICCIDs
    that were new; `leaving`, `online` and `stalled` come at most once a transition, and
    `online` only for a resolved one with a route; and whenever the thread has handled an
    input, two rounds of its loop leave no read or check due and the next wake ahead.
-/

import OpenU60.Lib.Machine
import OpenU60.SimIdentity.Machine

namespace OpenU60.SimIdentity

open OpenU60.Lib OpenU60.Lib.Machine

/-- The identity the machine learns from an input: a SIM read, or a "sim ready" event. -/
def Input.learned : Input → Option Identity
  | .sim id => id
  | .card payload =>
    if (payload.get "slot_state").asStr = some "switch_slot_begin" then none
    else if (payload.get "sim_hotswap").asStr = some "sim hot remove" then none
    else if (payload.get "sim_states").asStr = some "sim ready" then identityFrom payload
    else none
  | _ => none

namespace Output

def isLeaving : Output → Bool
  | event p => p.phase = .leaving
  | seeded _ => false

def isChanged : Output → Bool
  | event p => p.phase = .changed
  | seeded _ => false

def isOnline : Output → Bool
  | event p => match p.phase with | .online _ _ => true | _ => false
  | seeded _ => false

def isStalled : Output → Bool
  | event p => match p.phase with | .stalled _ => true | _ => false
  | seeded _ => false

end Output

namespace Machine

variable {m m' : Machine} {now : Nat}

/-- All a step can do, up to the check for a stall. -/
inductive Handles (m : Machine) (input : Input) : Machine → List Output → Prop
  /-- Nothing new is learnt and no phase begins. -/
  | quiet {m' : Machine} (he : m'.epoch = m.epoch) (hs : m'.transition.map (·.stalled) = m.transition.map (·.stalled))
      (hk : m'.known = none → m.known = none ∧ m'.transition.map (·.resolved) = m.transition.map (·.resolved))
      (hl : ∀ id, input.learned = some id → ∃ k, m.known = some k ∧ sameIccid k.iccid id.iccid) : Handles m input m' []
  | seeds {m' : Machine} {id : Identity} (hl : input.learned = some id) (hk : m.known = none) (hu : m.unresolved = false)
      (he : m'.epoch = m.epoch) (hk' : m'.known = some id) (ht : m'.transition.map (·.stalled) = m.transition.map (·.stalled)) :
      Handles m input m' [.seeded id]
  | leaves {m' : Machine} {t : Transition} {p : Payload} (hu : m.unresolved = false) (hp : p.phase = .leaving)
      (hl : input.learned = none) (he : m'.epoch = m.epoch) (ht : m'.transition = some t) (hr : t.resolved = none)
      (hs : t.stalled = false) : Handles m input m' [.event p]
  | changes {m' : Machine} {id : Identity} {t : Transition} {p : Payload} (hl : input.learned = some id)
      (hn : ∀ k, m.known = some k → sameIccid k.iccid id.iccid = false) (hf : m.known = none → m.unresolved)
      (hp : p.phase = .changed) (he : m'.epoch = m.epoch + 1) (hk : m'.known = some id) (ht : m'.transition = some t)
      (hs : t.stalled = (m.unresolved && m.transition.any (·.stalled))) : Handles m input m' [.event p]
  | online {m' : Machine} {g : Gate} {t : Transition} {c b : Bool} {p : Payload} (hi : input = .gate g) (hg : g.route)
      (ht : m.transition = some t) (hr : t.resolved = some c) (hp : p.phase = .online c b) (he : m'.epoch = m.epoch)
      (hk : m'.known = m.known) (ht' : m'.transition = none) : Handles m input m' [.event p]

/-- The inputs that only note something down leave the known identity and the transition's
    progress alone. -/
structure Notes (m m' : Machine) : Prop where
  epoch : m'.epoch = m.epoch
  known : m'.known = m.known
  transition : m'.transition.map (fun t => (t.resolved, t.stalled)) = m.transition.map fun t => (t.resolved, t.stalled)

namespace Notes

theorem resolved (h : Notes m m') : m'.transition.map (·.resolved) = m.transition.map (·.resolved) := by
  have := congrArg (Option.map Prod.fst) h.transition
  simpa only [Option.map_map, Function.comp_def] using this

theorem stalled (h : Notes m m') : m'.transition.map (·.stalled) = m.transition.map (·.stalled) := by
  have := congrArg (Option.map Prod.snd) h.transition
  simpa only [Option.map_map, Function.comp_def] using this

theorem unresolved (h : Notes m m') : m'.unresolved = m.unresolved := by
  have := congrArg (Option.any Option.isNone) h.resolved
  simpa only [Option.any_map, Machine.unresolved, Function.comp_def] using this

theorem handles {input : Input} (hl : input.learned = none) (h : Notes m m') : Handles m input m' [] :=
  .quiet h.epoch h.stalled (fun hn => ⟨h.known ▸ hn, h.resolved⟩) (by simp [hl])

end Notes

theorem leave_handles {input : Input} {source : Source} {generation : Option Nat} (hl : input.learned = none)
    (he : m'.epoch = m.epoch) (ht : m'.transition = m.transition) (hk : m'.known = none → m.known = none) :
    Handles m input (m'.leave source generation now).1 (m'.leave source generation now).2 := by
  have hu : m'.unresolved = m.unresolved := by simp only [Machine.unresolved, ht]
  unfold leave
  rw [hu]
  split
  · split
    · refine .quiet he ?_ (fun hn => ⟨hk hn, ?_⟩) (by simp [hl])
      · cases hmt : m.transition <;> simp [ht, hmt]
      · cases hmt : m.transition <;> simp [ht, hmt]
    · exact .quiet he (by rw [ht]) (fun hn => ⟨hk hn, by rw [ht]⟩) (by simp [hl])
  · next hno => exact .leaves (by simpa using hno) rfl hl he rfl rfl rfl

/-- The transition of a change: the unresolved one, or a new one. -/
theorem change_cases (m : Machine) (id : Identity) (now : Nat) :
    (m.change id now).1.epoch = m.epoch + 1 ∧ (m.change id now).1.known = some id ∧
      ∃ t p, (m.change id now).1.transition = some t ∧ t.resolved = some true ∧
        t.stalled = (m.unresolved && m.transition.any (·.stalled)) ∧ (m.change id now).2 = [.event p] ∧ p.phase = .changed := by
  refine ⟨rfl, rfl, _, _, rfl, rfl, ?_, rfl, rfl⟩
  show ((m.transition.filter (·.resolved.isNone)).getD _).stalled = _
  unfold Machine.unresolved
  cases m.transition with
  | none => rfl
  | some t => cases hr : t.resolved <;> simp [Option.filter, hr, Transition.begin]

theorem change_handles {input : Input} {id : Identity} (hm : Notes m m') (hl : input.learned = some id)
    (hn : ∀ k, m.known = some k → sameIccid k.iccid id.iccid = false) (hf : m.known = none → m.unresolved) :
    Handles m input (m'.change id now).1 (m'.change id now).2 := by
  obtain ⟨he, hk, t, p, ht, -, hs, ho, hp⟩ := change_cases m' id now
  rw [ho]
  refine .changes hl hn hf hp (by rw [he, hm.epoch]) hk ht ?_
  have hst := congrArg (Option.any fun b => b) hm.stalled
  simp only [Option.any_map] at hst
  rw [hs, hm.unresolved, hst]

theorem identity_handles {input : Input} {id : Identity} (hm : Notes m m') (hl : input.learned = some id) :
    Handles m input (m'.identity id now).1 (m'.identity id now).2 := by
  unfold identity
  rw [hm.known, hm.unresolved]
  cases hk : m.known with
  | none =>
    dsimp only
    by_cases hu : m.unresolved
    · simp only [hu, Bool.not_true, Bool.false_eq_true, if_false]
      exact change_handles hm hl (by simp [hk]) fun _ => hu
    · simp only [hu, Bool.not_false, if_true]
      exact .seeds hl hk (by simpa using hu) hm.epoch rfl hm.stalled
  | some k =>
    dsimp only
    by_cases hs : sameIccid k.iccid id.iccid
    · rw [if_pos hs]
      refine .quiet hm.epoch ?_ nofun fun id' hid' => ?_
      · rw [← hm.stalled]
        simp only [Option.map_map]
        congr 1
        funext t
        simp only [Function.comp_apply]
        split <;> rfl
      · obtain rfl := Option.some.inj (hl.symm.trans hid')
        exact ⟨k, hk, hs⟩
    · rw [if_neg hs]
      exact change_handles hm hl (fun k' hk' => by obtain rfl := Option.some.inj (hk.symm.trans hk'); simpa using hs) (by simp [hk])

theorem onGate_handles (m : Machine) (g : Gate) (now : Nat) : Handles m (.gate g) (m.onGate g now).1 (m.onGate g now).2 := by
  have hl : (Input.gate g).learned = none := rfl
  unfold onGate
  cases ht : m.transition with
  | none =>
    apply Notes.handles hl
    exact ⟨rfl, rfl, rfl⟩
  | some t =>
    dsimp only
    cases hr : t.resolved with
    | none =>
      apply Notes.handles hl
      exact ⟨rfl, rfl, rfl⟩
    | some c =>
      dsimp only
      by_cases hg : g.route
      · simp only [hg, Bool.not_true, Bool.false_eq_true, if_false]
        split
        · apply Notes.handles hl
          exact ⟨rfl, rfl, by simp [ht, hr]⟩
        · exact .online rfl hg ht hr rfl rfl rfl rfl
      · simp only [hg, Bool.not_false, if_true]
        apply Notes.handles hl
        exact ⟨rfl, rfl, by simp [ht, hr]⟩

theorem onWan_notes (m : Machine) (up : Option Bool) (now : Nat) : Notes m (m.onWan up now) := by
  unfold onWan
  split
  · exact ⟨rfl, rfl, rfl⟩
  · next t ht => exact ⟨rfl, rfl, by simp [ht]⟩

theorem afterRead_notes (m : Machine) (now : Nat) : Notes m (m.afterRead now) :=
  ⟨rfl, rfl, by simp [afterRead, Function.comp_def]⟩

theorem onCard_handles (m : Machine) (payload : Json) (now : Nat) :
    Handles m (.card payload) (m.onCard payload now).1 (m.onCard payload now).2 := by
  unfold onCard
  by_cases hb : (payload.get "slot_state").asStr = some "switch_slot_begin"
  · rw [if_pos hb]
    exact leave_handles (by simp [Input.learned, hb]) rfl rfl id
  · rw [if_neg hb]
    by_cases hh : (payload.get "sim_hotswap").asStr = some "sim hot remove"
    · rw [if_pos hh]
      exact leave_handles (by simp [Input.learned, hb, hh]) rfl rfl id
    · rw [if_neg hh]
      by_cases hr : (payload.get "sim_states").asStr = some "sim ready"
      · have hl : (Input.card payload).learned = identityFrom payload := by simp [Input.learned, hb, hh, hr]
        rw [if_pos hr]
        cases hid : identityFrom payload with
        | some id => exact identity_handles ⟨rfl, rfl, rfl⟩ (hl.trans hid)
        | none =>
          apply Notes.handles (hl.trans hid)
          exact ⟨rfl, rfl, rfl⟩
      · have hl : (Input.card payload).learned = none := by simp [Input.learned, hb, hh, hr]
        rw [if_neg hr]
        split
        · apply Notes.handles hl
          exact ⟨rfl, rfl, rfl⟩
        · apply Notes.handles hl
          exact ⟨rfl, rfl, rfl⟩

theorem onAgentStarted_handles (m : Machine) (generation : Nat) (previous : Option String) (now : Nat) :
    Handles m (.agentStarted generation previous) (m.onAgentStarted generation previous now).1
      (m.onAgentStarted generation previous now).2 := by
  have hl : (Input.agentStarted generation previous).learned = none := rfl
  have hknown : (m.known <|> previousIdentity previous) = none → m.known = none := by
    intro h
    cases hk : m.known with
    | none => rfl
    | some k => simp [hk] at h
  unfold onAgentStarted
  dsimp only
  cases ht : m.transition with
  | none =>
    dsimp only
    split
    · exact .quiet rfl (by simp [ht]) (fun hn => ⟨hknown hn, by simp [ht]⟩) (by simp [hl])
    · exact leave_handles hl rfl ht.symm hknown
  | some t =>
    dsimp only
    split
    · exact .quiet rfl (by simp [ht]) (fun hn => ⟨hknown hn, by simp [ht]⟩) (by simp [hl])
    · split
      · exact .quiet rfl (by simp [ht]) (fun hn => ⟨hknown hn, by simp [ht]⟩) (by simp [hl])
      · split
        · exact .quiet rfl (by simp [ht]) (fun hn => ⟨hknown hn, by simp [ht]⟩) (by simp [hl])
        · exact leave_handles hl rfl ht.symm hknown

theorem handle_handles (m : Machine) (input : Input) (now : Nat) :
    Handles m input (m.handle input now).1 (m.handle input now).2 := by
  cases input with
  | card payload => exact onCard_handles m payload now
  | wan up =>
    have hl : (Input.wan up).learned = none := rfl
    exact Notes.handles hl (onWan_notes m up now)
  | sim id =>
    cases id with
    | none =>
      have hl : (Input.sim none).learned = none := rfl
      exact Notes.handles hl (afterRead_notes m now)
    | some id => exact identity_handles (afterRead_notes m now) rfl
  | gate g => exact onGate_handles m g now
  | agentArm =>
    have hl : Input.agentArm.learned = none := rfl
    apply Notes.handles hl
    exact ⟨rfl, rfl, rfl⟩
  | agentDisarm =>
    have hl : Input.agentDisarm.learned = none := rfl
    apply Notes.handles hl
    exact ⟨rfl, rfl, rfl⟩
  | agentStarted generation previous => exact onAgentStarted_handles m generation previous now
  | timer =>
    have hl : Input.timer.learned = none := rfl
    apply Notes.handles hl
    exact ⟨rfl, rfl, rfl⟩

/-- The check for a stall: nothing, or a transition that stalls for the first time. -/
inductive Stalls (m : Machine) : Machine → List Output → Prop
  | none : Stalls m m []
  | stalls {m' : Machine} {t t' : Transition} {r : Reason} {p : Payload} (ht : m.transition = some t) (hs : t.stalled = false)
      (ht' : m'.transition = some t') (hs' : t'.stalled = true) (hr : t'.resolved = t.resolved) (he : m'.epoch = m.epoch)
      (hk : m'.known = m.known) (hp : p.phase = .stalled r) : Stalls m m' [.event p]

theorem checkStall_stalls (m : Machine) (now : Nat) : Stalls m (m.checkStall now).1 (m.checkStall now).2 := by
  unfold checkStall
  cases ht : m.transition with
  | none => exact .none
  | some t =>
    dsimp only
    split
    · exact .none
    · next h =>
      simp only [Bool.or_eq_true, not_or, Bool.not_eq_true] at h
      exact .stalls ht h.1 rfl rfl rfl rfl rfl rfl

end Machine

/-! ## Runs -/

/-- The machine, with what it has put out so far. -/
structure Track where
  m : Machine
  now : Nat
  /-- Ghost: a `leaving` was emitted. -/
  left : Bool
  /-- Ghost: the `stalled` and `online` phases of the current transition, or of the last. -/
  stalls : Nat
  onlines : Nat

namespace Track

def start (now : Nat) : Track := ⟨.new now, now, false, 0, 0⟩

variable (t : Track) (i : Nat × Input)

def outcome : Machine × List Output := t.m.step i.2 (t.now + i.1)

/-- A transition begins with a `leaving`, or with a `changed` while none is unresolved. -/
def tally (unresolved : Bool) (n : Nat × Nat) (o : Output) : Nat × Nat :=
  if o.isLeaving || o.isChanged && !unresolved then (0, 0) else (n.1 + o.isStalled.toNat, n.2 + o.isOnline.toNat)

def step : Track :=
  let n := (t.outcome i).2.foldl (tally t.m.unresolved) (t.stalls, t.onlines)
  ⟨(t.outcome i).1, t.now + i.1, t.left || (t.outcome i).2.any (·.isLeaving), n.1, n.2⟩

/-- The ICCID differs from the known one, or is the first after a leaving. -/
def isNew (id : Identity) : Bool :=
  match t.m.known with
  | some known => !sameIccid known.iccid id.iccid
  | none => t.left

structure Phases : Prop where
  epoch : (t.outcome i).1.epoch = t.m.epoch + (t.outcome i).2.countP (·.isChanged)
  changed : (t.outcome i).2.countP (·.isChanged) = (i.2.learned.any t.isNew).toNat
  leaving : (t.outcome i).2.any (·.isLeaving) → t.m.unresolved = false
  online : (t.outcome i).2.any (·.isOnline) → (∃ tr, t.m.transition = some tr ∧ tr.resolved.isSome) ∧ ∃ g, i.2 = .gate g ∧ g.route
  once : (t.step i).stalls ≤ 1 ∧ (t.step i).onlines ≤ 1

/-! ## The invariant -/

structure Fits (t : Track) : Prop where
  counts : match t.m.transition with
    | some tr => t.stalls = tr.stalled.toNat ∧ t.onlines = 0
    | none => t.stalls ≤ 1 ∧ t.onlines ≤ 1
  first : t.m.known = none → t.m.transition.isSome = t.left ∧ ∀ tr, t.m.transition = some tr → tr.resolved = none

variable {t i}

theorem fits_start (now : Nat) : Fits (start now) := ⟨⟨Nat.zero_le _, Nat.zero_le _⟩, fun _ => ⟨rfl, nofun⟩⟩

/-- Where a step stands once it has put out `out`. -/
structure After (t : Track) (input : Input) (m' : Machine) (out : List Output) : Prop where
  epoch : m'.epoch = t.m.epoch + out.countP (·.isChanged)
  changed : out.countP (·.isChanged) = (input.learned.any t.isNew).toNat
  leaving : out.any (·.isLeaving) → t.m.unresolved = false
  online : out.any (·.isOnline) → (∃ tr, t.m.transition = some tr ∧ tr.resolved.isSome) ∧ ∃ g, input = .gate g ∧ g.route
  counts : match m'.transition with
    | some tr => out.foldl (tally t.m.unresolved) (t.stalls, t.onlines) = (tr.stalled.toNat, 0)
    | none => (out.foldl (tally t.m.unresolved) (t.stalls, t.onlines)).1 ≤ 1 ∧
        (out.foldl (tally t.m.unresolved) (t.stalls, t.onlines)).2 ≤ 1
  first : m'.known = none → m'.transition.isSome = (t.left || out.any (·.isLeaving)) ∧ ∀ tr, m'.transition = some tr → tr.resolved = none

/-- An unseeded machine has an unresolved transition exactly when something has left. -/
theorem Fits.unresolved (h : Fits t) (hk : t.m.known = none) : t.m.unresolved = t.left := by
  obtain ⟨h1, h2⟩ := h.first hk
  rw [← h1]
  unfold Machine.unresolved
  cases ht : t.m.transition with
  | none => rfl
  | some tr => simp [h2 tr ht]

/-- The counts follow the transition where its progress does not change. -/
theorem Fits.counts_same (h : Fits t) {m' : Machine} (hs : m'.transition.map (·.stalled) = t.m.transition.map (·.stalled)) :
    match m'.transition with
    | some tr => (t.stalls, t.onlines) = (tr.stalled.toNat, 0)
    | none => t.stalls ≤ 1 ∧ t.onlines ≤ 1 := by
  have hc := h.counts
  cases ht : t.m.transition with
  | none =>
    have hn : m'.transition = none := by simpa [ht] using hs
    rw [ht] at hc
    rw [hn]
    exact hc
  | some tr =>
    obtain ⟨tr', hn, htr⟩ : ∃ tr', m'.transition = some tr' ∧ tr'.stalled = tr.stalled := by simpa [ht, Option.map_eq_some_iff] using hs
    rw [ht] at hc
    rw [hn]
    simp [hc.1, hc.2, htr]

theorem after_handles (h : Fits t) {input : Input} {m' : Machine} {out : List Output} (hh : t.m.Handles input m' out) :
    After t input m' out := by
  cases hh with
  | quiet he hs hk hl =>
    refine ⟨by simpa using he, ?_, by simp, by simp, h.counts_same hs, fun hn => ?_⟩
    · cases hlearn : input.learned with
      | none => simp
      | some id =>
        obtain ⟨k, hkn, hsame⟩ := hl id hlearn
        simp [isNew, hkn, hsame]
    · obtain ⟨hkn, hr⟩ := hk hn
      obtain ⟨h1, h2⟩ := h.first hkn
      refine ⟨?_, fun tr htr => ?_⟩
      · have := congrArg Option.isSome hr
        simpa [h1] using this
      · obtain ⟨tr', htr', hres⟩ : ∃ tr', t.m.transition = some tr' ∧ tr'.resolved = tr.resolved := by
          simpa [htr, Option.map_eq_some_iff, eq_comm] using hr
        rw [← hres]
        exact h2 tr' htr'
  | @seeds id hl hk hu he hk' ht =>
    refine ⟨by simpa [Output.isChanged] using he, ?_, by simp [Output.isLeaving], by simp [Output.isOnline], ?_,
      fun hn => by simp [hk'] at hn⟩
    · have hleft : t.left = false := (h.unresolved hk).symm.trans hu
      simp [Output.isChanged, hl, isNew, hk, hleft]
    · simpa [tally, Output.isLeaving, Output.isChanged, Output.isStalled, Output.isOnline] using h.counts_same ht
  | @leaves tr p hu hp hl he ht hr hs =>
    refine ⟨by simp [Output.isChanged, hp, he], by simp [Output.isChanged, hp, hl], fun _ => hu, by simp [Output.isOnline, hp], ?_,
      fun _ => ⟨by simp [ht, Output.isLeaving, hp], fun tr' htr' => ?_⟩⟩
    · rw [ht]
      simp [tally, Output.isLeaving, hp, hs]
    · obtain rfl := Option.some.inj (ht.symm.trans htr')
      exact hr
  | @changes id tr p hl hn hf hp he hk ht hs =>
    refine ⟨by simp [Output.isChanged, hp, he], ?_, by simp [Output.isLeaving, hp], by simp [Output.isOnline, hp], ?_,
      fun hkn => by simp [hk] at hkn⟩
    · have hnew : t.isNew id = true := by
        unfold isNew
        cases hkn : t.m.known with
        | none => exact (h.unresolved hkn).symm.trans (hf hkn)
        | some k => simpa using hn k hkn
      simp [Output.isChanged, hp, hl, hnew]
    · rw [ht]
      -- the unresolved transition goes on, or a new one begins
      have hc := h.counts
      cases hu : t.m.unresolved with
      | false => simp [tally, Output.isLeaving, Output.isChanged, hp, hs, hu]
      | true =>
        cases hm : t.m.transition with
        | none => simp [Machine.unresolved, hm] at hu
        | some tr' =>
          rw [hm] at hc
          simp [tally, Output.isLeaving, Output.isChanged, Output.isStalled, Output.isOnline, hp, hs, hu, hm, hc.1, hc.2]
  | @online g tr c b p hi hg ht hr hp he hk ht' =>
    have hc := h.counts
    rw [ht] at hc
    have hlearn : input.learned = none := by rw [hi]; rfl
    refine ⟨by simp [Output.isChanged, hp, he], by simp [Output.isChanged, hp, hlearn], by simp [Output.isLeaving, hp],
      fun _ => ⟨⟨tr, ht, by simp [hr]⟩, g, hi, hg⟩, ?_, fun hkn => ?_⟩
    · rw [ht']
      have hle : tr.stalled.toNat ≤ 1 := Bool.toNat_le _
      simp [tally, Output.isLeaving, Output.isChanged, Output.isStalled, Output.isOnline, hp, hc.1, hc.2, hle]
    · have := (h.first (hk ▸ hkn)).2 tr ht
      simp [hr] at this

theorem After.stalls {input : Input} {m' m'' : Machine} {out out' : List Output} (h : After t input m' out)
    (hs : m'.Stalls m'' out') : After t input m'' (out ++ out') := by
  cases hs with
  | none => simpa using h
  | @stalls _ tr tr' r p ht hs ht' hs' hr he hk hp =>
    have hc := h.counts
    rw [ht] at hc
    refine ⟨?_, ?_, ?_, ?_, ?_, fun hkn => ?_⟩
    · simpa [List.countP_append, Output.isChanged, hp, he] using h.epoch
    · simpa [List.countP_append, Output.isChanged, hp] using h.changed
    · simpa [List.any_append, Output.isLeaving, hp] using h.leaving
    · simpa [List.any_append, Output.isOnline, hp] using h.online
    · rw [ht', List.foldl_append, hc]
      simp [tally, Output.isLeaving, Output.isChanged, Output.isStalled, Output.isOnline, hp, hs, hs']
    · obtain ⟨h1, h2⟩ := h.first (hk ▸ hkn)
      refine ⟨by simpa [ht, ht', Output.isLeaving, hp] using h1, fun tr'' htr'' => ?_⟩
      obtain rfl := Option.some.inj (ht'.symm.trans htr'')
      rw [hr]
      exact h2 tr ht

theorem after_step (h : Fits t) : After t i.2 (t.outcome i).1 (t.outcome i).2 :=
  (after_handles h (Machine.handle_handles _ _ _)).stalls (Machine.checkStall_stalls _ _)

theorem fits_step (h : Fits t) (i : Nat × Input) : Fits (t.step i) := by
  have ha := after_step (i := i) h
  refine ⟨?_, ha.first⟩
  have hc := ha.counts
  show match (t.outcome i).1.transition with | some tr => _ ∧ _ | none => _
  cases ht : (t.outcome i).1.transition with
  | none =>
    rw [ht] at hc
    exact hc
  | some tr =>
    rw [ht] at hc
    exact ⟨congrArg Prod.fst hc, congrArg Prod.snd hc⟩

/-- At most one of each in a transition. -/
theorem Fits.once (h : Fits t) : t.stalls ≤ 1 ∧ t.onlines ≤ 1 := by
  have hc := h.counts
  cases ht : t.m.transition with
  | none =>
    rw [ht] at hc
    exact hc
  | some tr =>
    rw [ht] at hc
    exact ⟨hc.1 ▸ Bool.toNat_le _, by omega⟩

theorem phases_of_fits (h : Fits t) (i : Nat × Input) : Phases t i :=
  have ha := after_step (i := i) h
  ⟨ha.epoch, ha.changed, ha.leaving, ha.online, (fits_step h i).once⟩

end Track

/-! ## The thread's loop -/

/-- What a read and a network check would answer. -/
structure Answers where
  sim : Option Identity
  gate : Gate

namespace Machine

/-- One round of the loop, if something is due. -/
def round (m : Machine) (now : Nat) (a : Answers) : Machine :=
  if m.wantsRead now then (m.step (.sim a.sim) now).1
  else if m.wantsGate now then (m.step (.gate a.gate) now).1
  else m

/-- The loop, given the answers its rounds would get. -/
def drain (now : Nat) (as : List Answers) (m : Machine) : Machine := as.foldl (fun m a => m.round now a) m

/-- Nothing is due at `now`, and the thread sleeps until later. -/
structure Asleep (m : Machine) (now : Nat) : Prop where
  read : m.wantsRead now = false
  gate : m.wantsGate now = false
  wake : ∀ w, m.nextWake now = some w → now < w

/-- No stall is overdue: the check was made at `now`. -/
def Checked (m : Machine) (now : Nat) : Prop := ∀ t, m.transition = some t → t.stalled = false → now < t.started + stallAfter

theorem checked_checkStall (m : Machine) (now : Nat) : (m.checkStall now).1.Checked now := by
  unfold checkStall
  cases ht : m.transition with
  | none => intro t h; simp [ht] at h
  | some t =>
    dsimp only
    split
    · next h =>
      intro t' ht' hs
      obtain rfl := Option.some.inj (ht.symm.trans ht')
      simp only [hs, Bool.false_or, decide_eq_true_eq] at h
      omega
    · intro t' ht' hs
      obtain rfl := Option.some.inj ht'
      cases hs

theorem checked_step (m : Machine) (input : Input) (now : Nat) : (m.step input now).1.Checked now := checked_checkStall _ _

/-- No read is due at `now`. -/
structure NoRead (m : Machine) (now : Nat) : Prop where
  requested : m.readRequested = false
  seed : m.known = none → ∀ t, m.nextSeed = some t → now < t
  poll : ∀ t, m.transition = some t → t.resolved = none → t.stalled = false → now < t.nextRead

/-- No check is due at `now`, whether or not the transition still waits for one. -/
def NoGate (m : Machine) (now : Nat) : Prop := ∀ t, m.transition = some t → gating t now → now < t.nextGate

variable {m : Machine}

theorem wantsRead_eq_false {now : Nat} : m.wantsRead now = false ↔ m.NoRead now := by
  unfold wantsRead seedDue
  simp only [Bool.or_eq_false_iff, Option.any_eq_false]
  refine ⟨fun h => ⟨h.1.1, fun hk t ht => by simpa [hk, ht] using h.1.2, fun t ht hr hs => by simpa [hr, hs] using h.2 t ht⟩,
    fun h => ⟨⟨h.requested, ?_⟩, fun t ht => ?_⟩⟩
  · cases hk : m.known with
    | some k => rfl
    | none =>
      cases hn : m.nextSeed with
      | none => rfl
      | some t => simpa using h.seed hk t hn
  · cases hr : t.resolved with
    | some c => rfl
    | none =>
      cases hs : t.stalled with
      | true => rfl
      | false => simpa using h.poll t ht hr hs

theorem wantsGate_eq_false {now : Nat} : m.wantsGate now = false ↔ m.NoGate now := by
  unfold wantsGate
  rw [Option.any_eq_false]
  refine ⟨fun h t ht hg => by simpa [hg] using h t ht, fun h t ht => ?_⟩
  cases hg : gating t now with
  | false => rfl
  | true => simpa using h t ht hg

theorem asleep_of_idle {now : Nat} (hc : m.Checked now) (hr : m.NoRead now) (hg : m.NoGate now) :
    m.Asleep now := by
  refine ⟨wantsRead_eq_false.mpr hr, wantsGate_eq_false.mpr hg, fun w hw => ?_⟩
  have hmem : w ∈ m.wakes now := List.min?_mem hw
  unfold wakes at hmem
  rcases List.mem_append.mp hmem with hseed | htr
  · split at hseed
    · next hk => exact hr.seed (by simpa using hk) w (by simpa using hseed)
    · cases hseed
  · cases ht : m.transition with
    | none => simp [ht] at htr
    | some t =>
      rw [ht] at htr
      rcases List.mem_append.mp htr with hin | hin
      · split at hin
        · cases hin
        · next hs =>
          have hs : t.stalled = false := by simpa using hs
          rcases List.mem_cons.mp hin with rfl | hin
          · exact hc t ht hs
          · split at hin
            · next hres =>
              obtain rfl := List.mem_singleton.mp hin
              exact hr.poll t ht (by simpa using hres) hs
            · cases hin
      · split at hin
        · next hgate =>
          obtain rfl := List.mem_singleton.mp hin
          exact hg t ht hgate
        · cases hin

/-- The check for a stall makes nothing due. -/
theorem checkStall_same (m : Machine) (now : Nat) :
    (m.checkStall now).1.readRequested = m.readRequested ∧ (m.checkStall now).1.known = m.known ∧
      (m.checkStall now).1.nextSeed = m.nextSeed ∧
      ∀ t', (m.checkStall now).1.transition = some t' → ∃ t, m.transition = some t ∧ t'.resolved = t.resolved ∧
        (t'.stalled = false → t.stalled = false) ∧ t'.nextRead = t.nextRead ∧ t'.nextGate = t.nextGate := by
  unfold checkStall
  cases ht : m.transition with
  | none => exact ⟨rfl, rfl, rfl, fun t' h => by simp [ht] at h⟩
  | some t =>
    dsimp only
    split
    · exact ⟨rfl, rfl, rfl, fun t' h => ⟨t', ht ▸ h, rfl, id, rfl, rfl⟩⟩
    · refine ⟨rfl, rfl, rfl, fun t' h => ⟨t, rfl, ?_⟩⟩
      obtain rfl := Option.some.inj h
      exact ⟨rfl, nofun, rfl, rfl⟩

theorem NoRead.checkStall {now : Nat} (h : m.NoRead now) : (m.checkStall now).1.NoRead now := by
  obtain ⟨hr, hk, hn, ht⟩ := checkStall_same m now
  refine ⟨hr.trans h.requested, fun hk' t hs => h.seed (hk ▸ hk') t (hn ▸ hs), fun t' ht' hres hs => ?_⟩
  obtain ⟨t, h1, h2, h3, h4, -⟩ := ht t' ht'
  rw [h4]
  exact h.poll t h1 (h2 ▸ hres) (h3 hs)

theorem noRead_afterRead (m : Machine) (now : Nat) : (m.afterRead now).NoRead now := by
  have hpoll : 0 < SimIdentity.poll := by decide
  have hretry : 0 < seedRetry := by decide
  refine ⟨rfl, fun hk t ht => ?_, fun t ht _ _ => ?_⟩
  · have ht : (if m.seedDue now then (if m.seedTries + 1 < SimIdentity.seedTries then some (now + seedRetry) else none) else m.nextSeed) = some t := ht
    split at ht
    · split at ht
      · obtain rfl := Option.some.inj ht
        omega
      · cases ht
    · next hdue =>
      have hk : m.known = none := hk
      simpa [seedDue, hk, ht] using hdue
  · obtain ⟨t', -, rfl⟩ := Option.map_eq_some_iff.mp (show m.transition.map _ = some t from ht)
    show now < now + SimIdentity.poll
    omega

theorem NoRead.identity {now : Nat} (h : m.NoRead now) (id : Identity) : (m.identity id now).1.NoRead now := by
  have hchange : (m.change id now).1.NoRead now := by
    refine ⟨h.requested, nofun, fun t ht hr => ?_⟩
    obtain rfl := Option.some.inj (show some _ = some t from ht)
    cases hr
  unfold Machine.identity
  split
  · split
    · exact ⟨h.requested, nofun, h.poll⟩
    · exact hchange
  · split
    · refine ⟨h.requested, nofun, fun t ht hr hs => ?_⟩
      obtain ⟨t', ht', heq⟩ := Option.map_eq_some_iff.mp (show m.transition.map _ = some t from ht)
      split at heq
      · obtain rfl := heq
        cases hr
      · obtain rfl := heq
        exact h.poll t' ht' hr hs
    · exact hchange

/-- A read leaves none due. -/
theorem noRead_sim (m : Machine) (id : Option Identity) (now : Nat) : (m.step (.sim id) now).1.NoRead now := by
  cases id with
  | none => exact (noRead_afterRead m now).checkStall
  | some id => exact ((noRead_afterRead m now).identity id).checkStall

/-- A check touches only the transition, and one that waits for `online` is checked again
    later. -/
theorem onGate_same (m : Machine) (g : Gate) (now : Nat) :
    (m.onGate g now).1.readRequested = m.readRequested ∧ (m.onGate g now).1.known = m.known ∧
      (m.onGate g now).1.nextSeed = m.nextSeed ∧
      ∀ t, (m.onGate g now).1.transition = some t → m.transition = some t ∧ t.resolved = none ∨ t.resolved.isSome ∧ now < t.nextGate := by
  have hpoll : 0 < SimIdentity.poll := by decide
  unfold onGate
  cases ht : m.transition with
  | none => exact ⟨rfl, rfl, rfl, fun t h => by simp [ht] at h⟩
  | some t =>
    dsimp only
    cases hr : t.resolved with
    | none =>
      refine ⟨rfl, rfl, rfl, fun t' h => ?_⟩
      obtain rfl := Option.some.inj (ht.symm.trans h)
      exact .inl ⟨rfl, hr⟩
    | some c =>
      have hlater : ∀ t' : Transition, t'.resolved = some c → t'.nextGate = now + SimIdentity.poll → t'.resolved.isSome ∧ now < t'.nextGate :=
        fun t' h1 h2 => ⟨by simp [h1], by omega⟩
      dsimp only
      split
      · refine ⟨rfl, rfl, rfl, fun t' h => ?_⟩
        obtain rfl := Option.some.inj h
        exact .inr (hlater _ rfl rfl)
      · split
        · refine ⟨rfl, rfl, rfl, fun t' h => ?_⟩
          obtain rfl := Option.some.inj h
          exact .inr (hlater _ rfl rfl)
        · exact ⟨rfl, rfl, rfl, nofun⟩

theorem noGate_gate (m : Machine) (g : Gate) (now : Nat) : (m.step (.gate g) now).1.NoGate now := by
  obtain ⟨-, -, -, hg⟩ := onGate_same m g now
  obtain ⟨-, -, -, hs⟩ := checkStall_same (m.onGate g now).1 now
  intro t' ht' hgate
  obtain ⟨t, ht, hr, -, -, hn⟩ := hs t' ht'
  rw [hn]
  rcases hg t ht with ⟨-, hnone⟩ | ⟨-, hlt⟩
  · simp [gating, hr, hnone] at hgate
  · exact hlt

theorem NoRead.gate {now : Nat} (h : m.NoRead now) (g : Gate) : (m.step (.gate g) now).1.NoRead now := by
  obtain ⟨hr, hk, hn, hg⟩ := onGate_same m g now
  have hgate : (m.onGate g now).1.NoRead now := by
    refine ⟨hr.trans h.requested, fun hk' t ht => h.seed (hk ▸ hk') t (hn ▸ ht), fun t ht hres hs => ?_⟩
    rcases hg t ht with ⟨hm, -⟩ | ⟨hsome, -⟩
    · exact h.poll t hm hres hs
    · simp [hres] at hsome
  exact hgate.checkStall

theorem round_of_idle {now : Nat} (hr : m.NoRead now) (hg : m.NoGate now) (a : Answers) : m.round now a = m := by
  simp [round, wantsRead_eq_false.mpr hr, wantsGate_eq_false.mpr hg]

theorem drain_of_idle {now : Nat} (hr : m.NoRead now) (hg : m.NoGate now) (as : List Answers) : drain now as m = m := by
  induction as with
  | nil => rfl
  | cons a as ih => simpa [drain, round_of_idle hr hg] using ih

/-- Two rounds do everything that is due. -/
theorem drain_asleep {now : Nat} (hc : m.Checked now) (a b : Answers) (rest : List Answers) :
    (drain now (a :: b :: rest) m).Asleep now := by
  have hdone : ∀ m' : Machine, m'.Checked now → m'.NoRead now → m'.NoGate now → ∀ as, (drain now as m').Asleep now := by
    intro m' hc' hr hg as
    rw [drain_of_idle hr hg]
    exact asleep_of_idle hc' hr hg
  show (drain now (b :: rest) (m.round now a)).Asleep now
  -- what is left after the first round is at most a check
  suffices ∀ m' : Machine, m'.Checked now → m'.NoRead now → (drain now (b :: rest) m').Asleep now by
    cases hr : m.wantsRead now with
    | true =>
      simp only [round, hr, if_true]
      exact this _ (checked_step _ _ _) (noRead_sim m a.sim now)
    | false =>
      have hr' := wantsRead_eq_false.mp hr
      cases hg : m.wantsGate now with
      | true =>
        simp only [round, hr, hg, Bool.false_eq_true, if_false, if_true]
        exact this _ (checked_step _ _ _) (hr'.gate a.gate)
      | false =>
        simp only [round, hr, hg, Bool.false_eq_true, if_false]
        exact this m hc hr'
  intro m' hc' hr
  show (drain now rest (m'.round now b)).Asleep now
  cases hg : m'.wantsGate now with
  | true =>
    simp only [round, wantsRead_eq_false.mpr hr, hg, Bool.false_eq_true, if_false, if_true]
    exact hdone _ (checked_step _ _ _) (hr.gate b.gate) (noGate_gate m' b.gate now) rest
  | false =>
    rw [round_of_idle hr (wantsGate_eq_false.mp hg)]
    exact hdone m' hc' hr (wantsGate_eq_false.mp hg) rest

end Machine

/-- Every run keeps the rules of the phases, and after any input that comes next two
    rounds of the loop put the thread to sleep. -/
theorem identity_tracked (start : Nat) (is : List (Nat × Input)) :
    Along Track.step Track.Phases (Track.start start) is ∧
      (∀ (i : Nat × Input) (a b : Answers) (rest : List Answers),
        let t := exec Track.step (Track.start start) (is ++ [i])
        (Machine.drain t.now (a :: b :: rest) t.m).Asleep t.now) ∧
      ∀ (a b : Answers) (rest : List Answers), (Machine.drain start (a :: b :: rest) (.new start)).Asleep start := by
  refine ⟨?_, fun i a b rest => ?_, fun a b rest => Machine.drain_asleep (fun _ h => by cases h) a b rest⟩
  · exact along_invariant (fun _ i h => Track.fits_step h i) (fun _ i h => Track.phases_of_fits h i) (Track.fits_start start)
  · rw [exec_snoc]
    exact Machine.drain_asleep (Machine.checked_step _ _ _) a b rest

end OpenU60.SimIdentity
