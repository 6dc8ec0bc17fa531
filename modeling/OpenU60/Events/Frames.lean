/-
  OpenU60.Events.Frames — the frames of one stream (see `OpenU60.Events.Stream`).

  For every emitter and whatever each turn finds:
  - `Shape`, `sound_run`: the log is the open batch, then changes and ticks, then at most one
    `bye`, the subscription given back before it.
  - `Gaps.batch`: two batches of changes are the minimum gap apart; what goes out with the end of
    the hub is none of them.
  - `going_wake`: a wake that does not end the stream sends the tick that is due, and the next
    deadline is after it.
  - `stream_frames`: all of it for every run.
  A session that is not live at the opening gets a `bye` only, and a wake that ends the stream
  sends no tick (`expired_at_open`).
-/

import OpenU60.Events.Stream

namespace OpenU60.Events.Stream

open OpenU60.Lib.Machine

variable {σ φ χ α : Type} {E : Emitter σ φ χ α} {env : Env} {d d' d'' : Driver σ φ} {x : Found χ α} {es fs : List (Entry φ)}

/-! ## What an operation adds -/

/-- The entries `es` were added to the log and their frames to the outbox. -/
structure Adds (d d' : Driver σ φ) (es : List (Entry φ)) : Prop where
  log : d'.log = d.log ++ es
  outbox : d'.outbox = d.outbox ++ es.flatMap Entry.frames
  sent : d'.sent = d.sent
  panicked : d'.panicked = d.panicked
  closed : d'.closed = d.closed

theorem Adds.trans (h : Adds d d' es) (h' : Adds d' d'' fs) : Adds d d'' (es ++ fs) where
  log := by rw [h'.log, h.log, List.append_assoc]
  outbox := by rw [h'.outbox, h.outbox, List.flatMap_append, List.append_assoc]
  sent := h'.sent.trans h.sent
  panicked := h'.panicked.trans h.panicked
  closed := h'.closed.trans h.closed

theorem sub_eq (h : d.subscribed = true) : d.sub = d := if_pos h

theorem adds_queue (d : Driver σ φ) (em : σ) (e : Entry φ) : Adds d (d.queue em e) [e] :=
  ⟨rfl, by simp [Driver.queue], rfl, rfl, rfl⟩

theorem giveBack_spec (h : d.subscribed = true) : Adds d d.giveBack [.givenBack] ∧ d.giveBack.subscribed = false ∧
    d.giveBack.em = d.em ∧ d.giveBack.lastBatch = d.lastBatch := by
  unfold Driver.giveBack
  rw [if_pos h]
  exact ⟨⟨rfl, by simp [Entry.frames], rfl, rfl, rfl⟩, rfl, rfl, rfl⟩

theorem finish_spec (h : d.subscribed = true) (reason : ByeReason) : ∃ frames, Adds d (d.finish E reason) [.givenBack, .bye frames] ∧
    (d.finish E reason).subscribed = false ∧ (d.finish E reason).lastBatch = d.lastBatch := by
  obtain ⟨hadds, hsub, -, hlast⟩ := giveBack_spec h
  exact ⟨_, hadds.trans (adds_queue d.giveBack _ _), hsub, hlast⟩

/-! ## Gaps -/

/-- The times of the batches of changes. -/
def batchTimes (log : List (Entry φ)) : List Nat :=
  log.filterMap fun e => match e with
    | .changes _ time => some time
    | _ => none

/-- The batches so far are apart, and the last one's time is known. -/
structure Gaps (env : Env) (d : Driver σ φ) : Prop where
  apart : (batchTimes d.log).Pairwise fun t t' => env.minGap ≤ t' - t
  last : d.lastBatch = (batchTimes d.log).getLast?

theorem Gaps.other (h : Gaps env d) (hadds : Adds d d' es) (hes : batchTimes es = []) (hlast : d'.lastBatch = d.lastBatch) :
    Gaps env d' := by
  have htimes : batchTimes d'.log = batchTimes d.log := by
    rw [hadds.log, batchTimes, List.filterMap_append]
    exact (congrArg (batchTimes d.log ++ ·) hes).trans (List.append_nil _)
  exact ⟨by rw [htimes]; exact h.apart, by rw [hlast, htimes]; exact h.last⟩

theorem Gaps.batch {frames : List φ} {time : Nat} (h : Gaps env d) (hadds : Adds d d' [.changes frames time])
    (hlast : d'.lastBatch = some time) (hgap : ∀ end_ ∈ d.gapEnd env, end_ ≤ time) : Gaps env d' := by
  have htimes : batchTimes d'.log = batchTimes d.log ++ [time] := by
    rw [hadds.log, batchTimes, List.filterMap_append]
    rfl
  have hafter : ∀ t ∈ batchTimes d.log, env.minGap ≤ time - t := by
    intro t ht
    by_cases hzero : env.minGap = 0
    · omega
    · obtain ⟨init, final, hsplit⟩ : ∃ init final, batchTimes d.log = init ++ [final] := by
        obtain hnil | hsnoc := List.eq_nil_or_concat (batchTimes d.log)
        · rw [hnil] at ht
          cases ht
        · obtain ⟨init, final, heq⟩ := hsnoc
          exact ⟨init, final, by rw [heq, List.concat_eq_append]⟩
      have hfinal : final + env.minGap ≤ time := by
        refine hgap _ ?_
        unfold Driver.gapEnd
        rw [h.last, hsplit, List.getLast?_append, List.getLast?_singleton]
        simp [hzero]
      have happart := h.apart
      rw [hsplit] at ht happart
      obtain ht | ht := List.mem_append.mp ht
      · have hle := (List.pairwise_append.mp happart).2.2 t ht final (List.mem_singleton_self _)
        omega
      · rw [List.mem_singleton.mp ht]
        omega
  refine ⟨?_, ?_⟩
  · rw [htimes]
    refine List.pairwise_append.mpr ⟨h.apart, List.pairwise_singleton .., fun t ht t' ht' => ?_⟩
    rw [List.mem_singleton.mp ht']
    exact hafter t ht
  · rw [hlast, htimes, List.getLast?_append, List.getLast?_singleton, Option.some_or]

/-! ## The order of the frames -/

def Entry.Middle : Entry φ → Prop
  | .changes _ _ => True
  | .tick _ => True
  | _ => False

/-- The open batch, then changes and ticks. -/
def Begun (log : List (Entry φ)) : Prop := ∃ frames ms, log = .opening frames :: ms ∧ ∀ e ∈ ms, e.Middle

theorem Begun.append {log : List (Entry φ)} (h : Begun log) (hes : ∀ e ∈ es, e.Middle) : Begun (log ++ es) := by
  obtain ⟨frames, ms, rfl, hms⟩ := h
  refine ⟨frames, ms ++ es, rfl, fun e he => ?_⟩
  obtain he | he := List.mem_append.mp he
  · exact hms e he
  · exact hes e he

/-- Where the stream stands. -/
inductive Shape (E : Emitter σ φ χ α) (d : Driver σ φ) : Prop
  | fresh (hsub : d.subscribed = true) (hopened : d.opened = false) (hlog : d.log = [])
  | running (hsub : d.subscribed = true) (hopened : d.opened = true) (hlog : Begun d.log) (hmore : E.finished d.em = false)
  /-- Ended by a `bye`: the session was not live at the opening, or the stream had begun; what
      changed with the end of the hub may go before. -/
  | ended (before last : List (Entry φ)) (frames : List φ) (hsub : d.subscribed = false)
      (hlog : d.log = before ++ last ++ [.givenBack, .bye frames]) (hbefore : before = [] ∧ last = [] ∨ Begun before)
      (hlast : last = [] ∨ ∃ frames, last = [.last frames])
  /-- Ended by the emitter. -/
  | finished (before : List (Entry φ)) (hsub : d.subscribed = false) (hlog : d.log = before ++ [.givenBack])
      (hbefore : Begun before) (hdone : E.finished d.em = true)

/-- What every turn keeps. -/
structure Sound (E : Emitter σ φ χ α) (env : Env) (d : Driver σ φ) : Prop where
  flow : d.sent ++ d.outbox = d.log.flatMap Entry.frames
  calm : d.panicked = false
  gaps : Gaps env d
  shape : Shape E d
  closed : d.closed = true → d.outbox = [] ∧ d.subscribed = false

/-! ## The parts of a wake -/

/-- The fields no part of a wake changes while the stream runs. -/
structure Same (d d' : Driver σ φ) : Prop where
  subscribed : d'.subscribed = d.subscribed
  opened : d'.opened = d.opened
  sessionDeadline : d'.sessionDeadline = d.sessionDeadline
  lifeDeadline : d'.lifeDeadline = d.lifeDeadline

theorem Same.trans (h : Same d d') (h' : Same d' d'') : Same d d'' :=
  ⟨h'.subscribed.trans h.subscribed, h'.opened.trans h.opened, h'.sessionDeadline.trans h.sessionDeadline,
    h'.lifeDeadline.trans h.lifeDeadline⟩

theorem checkSession_dead (h : d.subscribed = true) (hdead : ∀ remaining, x.session ≠ .live remaining) :
    ∃ d' frames, d.checkSession E x = (d', false) ∧ Adds d d' [.givenBack, .bye frames] ∧ d'.subscribed = false ∧
      d'.lastBatch = d.lastBatch := by
  unfold Driver.checkSession
  cases hs : x.session with
  | live remaining => exact absurd hs (hdead remaining)
  | expired =>
    obtain ⟨frames, hends⟩ := finish_spec (E := E) h .tokenExpired
    exact ⟨_, frames, rfl, hends⟩
  | revoked =>
    obtain ⟨frames, hends⟩ := finish_spec (E := E) h .loggedOut
    exact ⟨_, frames, rfl, hends⟩

theorem checkSession_live {remaining : Nat} (h : x.session = .live remaining) :
    d.checkSession E x = ({ d with sessionDeadline := x.sessionNow + remaining }, true) := by
  unfold Driver.checkSession
  rw [h]

/-- Nothing is asked, changes wait for the end of the gap, or they go out. -/
theorem sendChanges_cases (h : d.subscribed = true) (wake : Option Wake) :
    (d.sendChanges E env wake x = d ∧ d.held = false) ∨
    (d.sendChanges E env wake x = { d with held := true } ∧ ∃ end_, d.gapEnd env = some end_ ∧ x.gapNow < end_) ∨
    ((∀ end_ ∈ d.gapEnd env, end_ ≤ x.gapNow) ∧ ∃ em, d.sendChanges E env wake x = { d with held := false, em } ∨
      ∃ batch, d.sendChanges E env wake x =
        { d with held := false, lastBatch := some x.batchNow }.queue em (.changes batch x.batchNow)) := by
  unfold Driver.sendChanges
  by_cases hask : (decide (wake = some .changed) || d.held) = true
  · refine .inr ?_
    by_cases hwait : ((d.gapEnd env).any fun end_ => x.gapNow < end_) = true
    · have hlate : ∃ end_, d.gapEnd env = some end_ ∧ x.gapNow < end_ := by
        cases hend : d.gapEnd env with
        | none =>
          rw [hend] at hwait
          cases hwait
        | some end_ =>
          rw [hend] at hwait
          exact ⟨end_, rfl, of_decide_eq_true hwait⟩
      simp only [hask, if_true, hwait]
      exact .inl ⟨trivial, hlate⟩
    · have hgap : ∀ end_ ∈ d.gapEnd env, end_ ≤ x.gapNow := by
        intro end_ hend
        rw [Option.mem_def.mp hend] at hwait
        exact Nat.not_lt.mp fun hlt => hwait (decide_eq_true hlt)
      have hsub : { d with held := false }.sub = { d with held := false } := sub_eq h
      simp only [hask, if_true, hwait, Bool.false_eq_true, if_false, hsub]
      refine .inr ⟨hgap, (E.changes d.em x.changed x.bootBatch).1, ?_⟩
      cases hbatch : (E.changes d.em x.changed x.bootBatch).2 with
      | nil =>
        simp only [List.isEmpty_nil, if_true]
        exact .inl trivial
      | cons frame rest =>
        simp only [List.isEmpty_cons, Bool.false_eq_true, if_false]
        exact .inr ⟨frame :: rest, rfl⟩
  · have hheld : d.held = false := Bool.eq_false_iff.mpr fun hheld => hask (by rw [hheld, Bool.or_true])
    exact .inl ⟨if_neg hask, hheld⟩

/-- Either nothing goes out, or a batch after the gap; changes held wait for the gap's end. -/
theorem sendChanges_spec {wake : Option Wake} (h : d.subscribed = true) (hd : d.sendChanges E env wake x = d') :
    Same d d' ∧ d'.nextTick = d.nextTick ∧ (d'.held = true → ∀ end_ ∈ d'.gapEnd env, x.gapNow < end_) ∧
    (Adds d d' [] ∧ d'.lastBatch = d.lastBatch ∨
      ∃ frames, Adds d d' [.changes frames x.batchNow] ∧ d'.lastBatch = some x.batchNow ∧ ∀ end_ ∈ d.gapEnd env, end_ ≤ x.gapNow) := by
  have hnil : ∀ held em, Adds d { d with held, em } [] := fun _ _ => ⟨(List.append_nil _).symm, (List.append_nil _).symm, rfl, rfl, rfl⟩
  obtain ⟨heq, hheld⟩ | ⟨heq, end_, hend, hlt⟩ | ⟨hgap, em, heq | ⟨batch, heq⟩⟩ :=
    @sendChanges_cases σ φ χ α E env d x h wake
  all_goals rw [heq] at hd
  all_goals subst hd
  · refine ⟨⟨rfl, rfl, rfl, rfl⟩, rfl, fun hh => ?_, .inl ⟨hnil d.held d.em, rfl⟩⟩
    rw [hheld] at hh
    cases hh
  · refine ⟨⟨rfl, rfl, rfl, rfl⟩, rfl, fun _ e he => ?_, .inl ⟨hnil true d.em, rfl⟩⟩
    have he' : d.gapEnd env = some e := he
    rw [hend] at he'
    cases he'
    exact hlt
  · exact ⟨⟨rfl, rfl, rfl, rfl⟩, rfl, fun hh => (by cases hh), .inl ⟨hnil false em, rfl⟩⟩
  · exact ⟨⟨rfl, rfl, rfl, rfl⟩, rfl, fun hh => (by cases hh), .inr ⟨batch, ⟨rfl, by simp [Driver.queue], rfl, rfl, rfl⟩, rfl, hgap⟩⟩

/-- A tick that is due goes out, and the next one is later. -/
theorem sendTick_spec (h : d.subscribed = true) (hd : d.sendTick E env x = d') :
    Same d d' ∧ d'.lastBatch = d.lastBatch ∧ d'.held = d.held ∧ x.tickNow < d'.nextTick ∧
    (Adds d d' [] ∧ x.tickNow < d.nextTick ∨ ∃ frames, Adds d d' [.tick frames]) := by
  unfold Driver.sendTick at hd
  by_cases hdue : d.nextTick ≤ x.tickNow
  · rw [if_pos hdue, sub_eq h] at hd
    subst hd
    refine ⟨⟨rfl, rfl, rfl, rfl⟩, rfl, rfl, ?_, .inr ⟨_, ⟨rfl, by simp [Driver.queue], rfl, rfl, rfl⟩⟩⟩
    show x.tickNow < max (d.nextTick + env.tick) (x.tickNow + second)
    have hsecond : second = 1000000000 := rfl
    omega
  · rw [if_neg hdue] at hd
    subst hd
    have hlate := Nat.not_le.mp hdue
    exact ⟨⟨rfl, rfl, rfl, rfl⟩, rfl, rfl, hlate, .inl ⟨⟨(List.append_nil _).symm, (List.append_nil _).symm, rfl, rfl, rfl⟩, hlate⟩⟩

/-- The wake ends the stream. -/
def Ends (env : Env) (d : Driver σ φ) (x : Found χ α) : Prop :=
  (∀ remaining, x.session ≠ .live remaining) ∨ (∃ reason, d.wake x = some (.ended reason)) ∨ d.lived env x = true

theorem afterWake_running {remaining : Nat} (hlive : x.session = .live remaining) (hends : ¬ Ends env d x) :
    d.afterWake E env (d.wake x) x =
      ({ d with sessionDeadline := x.sessionNow + remaining }.sendChanges E env (d.wake x) x).sendTick E env x := by
  have hlived : { d with sessionDeadline := x.sessionNow + remaining }.lived env x = false :=
    Bool.eq_false_iff.mpr fun h => hends (.inr (.inr h))
  unfold Driver.afterWake
  rw [checkSession_live hlive]
  cases hwake : d.wake x with
  | none => simp only [hlived, Bool.false_eq_true, if_false]
  | some w =>
    cases w with
    | changed => simp only [hlived, Bool.false_eq_true, if_false]
    | ended reason => exact absurd (.inr (.inl ⟨reason, hwake⟩)) hends

/-! ## One turn -/

/-- The stream has begun and nothing has ended it. -/
structure Going (env : Env) (d : Driver σ φ) : Prop where
  subscribed : d.subscribed = true
  opened : d.opened = true
  begun : Begun d.log
  flow : d.sent ++ d.outbox = d.log.flatMap Entry.frames
  calm : d.panicked = false
  gaps : Gaps env d
  more : d.closed = false

theorem Adds.flow (h : Adds d d' es) (hflow : d.sent ++ d.outbox = d.log.flatMap Entry.frames) :
    d'.sent ++ d'.outbox = d'.log.flatMap Entry.frames := by
  rw [h.sent, h.outbox, h.log, List.flatMap_append, ← hflow, List.append_assoc]

theorem Going.add (h : Going env d) (hsame : Same d d') (hadds : Adds d d' es) (hes : ∀ e ∈ es, e.Middle) (hgaps : Gaps env d') :
    Going env d' where
  subscribed := hsame.subscribed.trans h.subscribed
  opened := hsame.opened.trans h.opened
  begun := by
    rw [hadds.log]
    exact h.begun.append hes
  flow := hadds.flow h.flow
  calm := hadds.panicked.trans h.calm
  gaps := hgaps
  more := hadds.closed.trans h.more

theorem Going.not_closed (h : Going env d) (hadds : Adds d d' es) {p : Prop} (hclosed : d'.closed = true) : p := by
  rw [hadds.closed, h.more] at hclosed
  cases hclosed

/-- The subscription is given back and the `bye` queued. -/
theorem Going.over {last : List (Entry φ)} {frames : List φ} (h : Going env d) (hadds : Adds d d' (last ++ [.givenBack, .bye frames]))
    (hlast : last = [] ∨ ∃ frames, last = [.last frames]) (hsub : d'.subscribed = false) (hbatch : d'.lastBatch = d.lastBatch) :
    Sound E env d' where
  flow := hadds.flow h.flow
  calm := hadds.panicked.trans h.calm
  gaps := by
    refine h.gaps.other hadds ?_ hbatch
    obtain rfl | ⟨_, rfl⟩ := hlast <;> rfl
  shape := .ended d.log last frames hsub (by rw [hadds.log, List.append_assoc]) (.inr h.begun) hlast
  closed := h.not_closed hadds

theorem endIfFinished_over (h : d.subscribed = false) : d.endIfFinished E = d := by
  unfold Driver.endIfFinished
  rw [h, Bool.false_and]
  rfl

theorem Going.settled (h : Going env d) : Sound E env (d.endIfFinished E) := by
  unfold Driver.endIfFinished
  rw [h.subscribed, Bool.true_and]
  by_cases hdone : E.finished d.em = true
  · rw [if_pos hdone]
    obtain ⟨hadds, hsub, hem, hlast⟩ := giveBack_spec h.subscribed
    exact ⟨hadds.flow h.flow, hadds.panicked.trans h.calm, h.gaps.other hadds rfl hlast,
      .finished d.log hsub hadds.log h.begun (hem ▸ hdone), h.not_closed hadds⟩
  · rw [if_neg hdone]
    refine ⟨h.flow, h.calm, h.gaps, .running h.subscribed h.opened h.begun (Bool.eq_false_iff.mpr hdone), fun hclosed => ?_⟩
    rw [h.more] at hclosed
    cases hclosed

theorem lt_deadline {t : Nat} (htick : t < d.nextTick) (hsession : t < d.sessionDeadline + second)
    (hlife : ∀ end_ ∈ d.lifeDeadline, t < end_) (hheld : d.held = true → ∀ end_ ∈ d.gapEnd env, t < end_) : t < d.deadline env := by
  have helim : ∀ (o : Option Nat) (a : Nat), t < a → (∀ end_ ∈ o, t < end_) → t < o.elim a (min a) := by
    intro o a ha ho
    cases o with
    | none => exact ha
    | some end_ => exact Nat.lt_min.mpr ⟨ha, ho end_ rfl⟩
  unfold Driver.deadline
  refine helim _ _ (helim _ _ (Nat.lt_min.mpr ⟨htick, hsession⟩) hlife) fun end_ hend => ?_
  obtain ⟨hgap, hwaits⟩ := Option.filter_eq_some_iff.mp hend
  exact hheld hwaits end_ hgap

/-- A wake that does not end the stream: a batch of changes or none, then the tick if it is due. -/
theorem going_wake {remaining : Nat} (hx : x.Ordered) (h : Going env d) (hlive : x.session = .live remaining) (hends : ¬ Ends env d x)
    (hd : d.afterWake E env (d.wake x) x = d') :
    Going env d' ∧ x.woke < d'.deadline env ∧ (d.nextTick ≤ x.woke → ∃ es frames, d'.log = d.log ++ es ++ [.tick frames]) := by
  rw [afterWake_running hlive hends] at hd
  have hgoing : Going env { d with sessionDeadline := x.sessionNow + remaining } :=
    { h with gaps := { h.gaps with } }
  have hchanges : ({ d with sessionDeadline := x.sessionNow + remaining } : Driver σ φ).sendChanges E env (d.wake x) x = _ := rfl
  obtain ⟨hsame, hnext, hheld, hsent⟩ := sendChanges_spec hgoing.subscribed hchanges
  clear hchanges
  generalize hmid : { d with sessionDeadline := x.sessionNow + remaining }.sendChanges E env (d.wake x) x = mid at *
  have hmidgoing : Going env mid ∧ ∃ es, mid.log = d.log ++ es := by
    obtain ⟨hadds, hlast⟩ | ⟨frames, hadds, hlast, hgap⟩ := hsent
    · exact ⟨hgoing.add hsame hadds (fun e he => absurd he List.not_mem_nil) (hgoing.gaps.other hadds rfl hlast), [], hadds.log⟩
    · refine ⟨hgoing.add hsame hadds ?_ (hgoing.gaps.batch hadds hlast fun end_ hend => ?_), _, hadds.log⟩
      · intro e he
        rw [List.mem_singleton.mp he]
        trivial
      · exact Nat.le_trans (hgap end_ hend) hx.batch
  obtain ⟨hmidgoing, es, hlog⟩ := hmidgoing
  obtain ⟨hsame', hbatch, hheld', hlater, hticked⟩ := sendTick_spec hmidgoing.subscribed hd
  have hbefore : x.woke ≤ x.tickNow :=
    Nat.le_trans (Nat.le_trans hx.session hx.life) (Nat.le_trans hx.gap (Nat.le_trans hx.batch hx.tick))
  refine ⟨?_, ?_, fun hdue => ?_⟩
  · obtain ⟨hadds, -⟩ | ⟨frames, hadds⟩ := hticked
    · exact hmidgoing.add hsame' hadds (fun e he => absurd he List.not_mem_nil) (hmidgoing.gaps.other hadds rfl hbatch)
    · refine hmidgoing.add hsame' hadds (fun e he => ?_) (hmidgoing.gaps.other hadds rfl hbatch)
      rw [List.mem_singleton.mp he]
      trivial
  · have hgapEnd : d'.gapEnd env = mid.gapEnd env := by
      unfold Driver.gapEnd
      rw [hbatch]
    refine lt_deadline (Nat.lt_of_le_of_lt hbefore hlater) ?_ (fun end_ hend => ?_) fun hh end_ hend => ?_
    · rw [hsame'.sessionDeadline, hsame.sessionDeadline]
      show x.woke < x.sessionNow + remaining + second
      have hsecond : second = 1000000000 := rfl
      have hsession := hx.session
      omega
    · rw [hsame'.lifeDeadline, hsame.lifeDeadline] at hend
      have hnot : ¬ end_ ≤ x.lifeNow := by
        intro hle
        refine hends (.inr (.inr ?_))
        unfold Driver.lived
        rw [Option.mem_def.mp hend]
        simp [hle]
      have hsession := hx.session
      have hlife := hx.life
      omega
    · have hlt := hheld (hheld' ▸ hh) end_ (hgapEnd ▸ hend)
      have hsession := hx.session
      have hlife := hx.life
      have hgap := hx.gap
      omega
  · obtain ⟨-, hnot⟩ | ⟨frames, hadds⟩ := hticked
    · rw [hnext] at hnot
      exact absurd hdue (Nat.not_le.mpr (Nat.lt_of_le_of_lt hbefore hnot))
    · exact ⟨es, frames, by rw [hadds.log, hlog]⟩

/-- Every wake. -/
theorem Going.wake_sound (hx : x.Ordered) (h : Going env d) : Sound E env ((d.afterWake E env (d.wake x) x).endIfFinished E) := by
  by_cases hdead : ∀ remaining, x.session ≠ .live remaining
  · obtain ⟨d₁, frames, heq, hadds, hsub, hlast⟩ := checkSession_dead (E := E) h.subscribed hdead
    have hafter : d.afterWake E env (d.wake x) x = d₁ := by
      unfold Driver.afterWake
      rw [heq]
    rw [hafter, endIfFinished_over hsub]
    exact h.over (show Adds d d₁ ([] ++ [.givenBack, .bye frames]) from hadds) (.inl rfl) hsub hlast
  · obtain ⟨remaining, hlive⟩ := Classical.not_forall.mp hdead
    have hlive := Classical.not_not.mp hlive
    by_cases hends : Ends env d x
    · have hgoing : Going env { d with sessionDeadline := x.sessionNow + remaining } :=
        { h with gaps := { h.gaps with } }
      have hlifetime : Sound E env (({ d with sessionDeadline := x.sessionNow + remaining }.finish E .lifetime).endIfFinished E) := by
        obtain ⟨frames, hadds, hsub, hlast⟩ := finish_spec (E := E) hgoing.subscribed .lifetime
        rw [endIfFinished_over hsub]
        exact hgoing.over (show Adds _ _ ([] ++ [.givenBack, .bye frames]) from hadds) (.inl rfl) hsub hlast
      unfold Driver.afterWake
      rw [checkSession_live hlive]
      have hlived : (∀ reason, d.wake x ≠ some (.ended reason)) → { d with sessionDeadline := x.sessionNow + remaining }.lived env x = true := by
        intro hnot
        obtain hdead' | ⟨reason, hwake⟩ | hlived := hends
        · exact absurd hlive (hdead' remaining)
        · exact absurd hwake (hnot reason)
        · exact hlived
      cases hwake : d.wake x with
      | none =>
        simp only [hlived (by rw [hwake]; exact nofun), if_true]
        exact hlifetime
      | some w =>
        cases w with
        | changed =>
          simp only [hlived (by rw [hwake]; exact nofun), if_true]
          exact hlifetime
        | ended reason =>
          have hsub : { d with sessionDeadline := x.sessionNow + remaining }.sub = { d with sessionDeadline := x.sessionNow + remaining } :=
            sub_eq h.subscribed
          simp only [hsub]
          have hqueue := adds_queue { d with sessionDeadline := x.sessionNow + remaining } (E.changes d.em x.changed x.bootBatch).1
            (.last (E.changes d.em x.changed x.bootBatch).2)
          obtain ⟨frames, hadds, hgone, hlast⟩ := finish_spec (E := E) (d := { d with sessionDeadline := x.sessionNow + remaining }.queue
            (E.changes d.em x.changed x.bootBatch).1 (.last (E.changes d.em x.changed x.bootBatch).2)) h.subscribed reason.bye
          rw [endIfFinished_over hgone]
          exact hgoing.over (hqueue.trans hadds) (.inr ⟨_, rfl⟩) hgone hlast
    · exact (going_wake hx h hlive hends rfl).1.settled

theorem Sound.more (h : Sound E env d) (hsub : d.subscribed = true) : d.closed = false := by
  refine Bool.eq_false_iff.mpr fun hclosed => ?_
  rw [(h.closed hclosed).2] at hsub
  cases hsub

theorem open_sound (h : Sound E env d) (hsub : d.subscribed = true) (hlog : d.log = []) : Sound E env (d.openStream E x) := by
  unfold Driver.openStream
  by_cases hdead : ∀ remaining, x.session ≠ .live remaining
  · obtain ⟨d₁, frames, heq, hadds, hgone, hlast⟩ := checkSession_dead (E := E) (d := { d with opened := true }) hsub hdead
    rw [heq]
    have hgaps : Gaps env { d with opened := true } := ⟨h.gaps.apart, h.gaps.last⟩
    refine ⟨hadds.flow h.flow, hadds.panicked.trans h.calm, hgaps.other hadds rfl hlast,
      .ended [] [] frames hgone ?_ (.inl ⟨rfl, rfl⟩) (.inl rfl), fun hclosed => ?_⟩
    · rw [hadds.log]
      show d.log ++ _ = _
      rw [hlog]
      rfl
    · rw [hadds.closed, show ({ d with opened := true } : Driver σ φ).closed = false from h.more hsub] at hclosed
      cases hclosed
  · obtain ⟨remaining, hlive⟩ := Classical.not_forall.mp hdead
    have hlive := Classical.not_not.mp hlive
    rw [checkSession_live hlive]
    have hopen : { d with opened := true, sessionDeadline := x.sessionNow + remaining }.sub =
        { d with opened := true, sessionDeadline := x.sessionNow + remaining } := sub_eq hsub
    simp only [hopen]
    have hadds := adds_queue { d with opened := true, sessionDeadline := x.sessionNow + remaining }
      (E.opening d.em x.changed x.bootNow).1 (.opening (E.opening d.em x.changed x.bootNow).2)
    have hgaps : Gaps env { d with opened := true, sessionDeadline := x.sessionNow + remaining } := ⟨h.gaps.apart, h.gaps.last⟩
    refine Going.settled ⟨hsub, rfl, ⟨(E.opening d.em x.changed x.bootNow).2, [], ?_, fun e he => absurd he List.not_mem_nil⟩,
      hadds.flow h.flow, hadds.panicked.trans h.calm, hgaps.other hadds rfl rfl, h.more hsub⟩
    rw [hadds.log]
    show d.log ++ _ = _
    rw [hlog]
    rfl

theorem Sound.going (h : Sound E env d) (hsub : d.subscribed = true) (hopened : d.opened = true) : Going env d := by
  cases h.shape with
  | fresh _ hfresh _ =>
    rw [hopened] at hfresh
    cases hfresh
  | running _ _ hlog _ => exact ⟨hsub, hopened, hlog, h.flow, h.calm, h.gaps, h.more hsub⟩
  | ended _ _ _ hgone _ _ _ =>
    rw [hsub] at hgone
    cases hgone
  | finished _ hgone _ _ _ =>
    rw [hsub] at hgone
    cases hgone

theorem step_frame {frame : φ} {rest : List φ} (h : d.outbox = frame :: rest) :
    d.step E env x = { d with outbox := rest, sent := d.sent ++ [frame] } := by
  unfold Driver.step
  rw [h]

theorem step_end (h : d.outbox = []) (hsub : d.subscribed = false) : d.step E env x = { d with closed := true } := by
  unfold Driver.step
  rw [h, hsub]
  rfl

theorem step_open (h : d.outbox = []) (hsub : d.subscribed = true) (hopened : d.opened = false) : d.step E env x = d.openStream E x := by
  unfold Driver.step
  rw [h, hsub, hopened]
  rfl

theorem step_wake (h : d.outbox = []) (hsub : d.subscribed = true) (hopened : d.opened = true) :
    d.step E env x = (d.afterWake E env (d.wake x) x).endIfFinished E := by
  unfold Driver.step
  rw [h, sub_eq hsub, hsub, hopened]
  rfl

theorem sound_step (hx : x.Ordered) (h : Sound E env d) : Sound E env (d.step E env x) := by
  have hshape : ∀ {d' : Driver σ φ}, d'.em = d.em → d'.subscribed = d.subscribed → d'.opened = d.opened → d'.log = d.log → Shape E d' := by
    intro d' hem hsub hopened hlog
    cases h.shape with
    | fresh h₁ h₂ h₃ => exact .fresh (hsub.trans h₁) (hopened.trans h₂) (hlog.trans h₃)
    | running h₁ h₂ h₃ h₄ => exact .running (hsub.trans h₁) (hopened.trans h₂) (hlog ▸ h₃) (hem ▸ h₄)
    | ended before last frames h₁ h₂ h₃ h₄ => exact .ended before last frames (hsub.trans h₁) (hlog.trans h₂) h₃ h₄
    | finished before h₁ h₂ h₃ h₄ => exact .finished before (hsub.trans h₁) (hlog.trans h₂) h₃ (hem ▸ h₄)
  cases hout : d.outbox with
  | cons frame rest =>
    rw [step_frame hout]
    refine ⟨?_, h.calm, ⟨h.gaps.apart, h.gaps.last⟩, hshape rfl rfl rfl rfl, fun hclosed => ?_⟩
    · show d.sent ++ [frame] ++ rest = d.log.flatMap Entry.frames
      rw [List.append_assoc, List.singleton_append, ← hout]
      exact h.flow
    · have hempty := (h.closed hclosed).1
      rw [hout] at hempty
      cases hempty
  | nil =>
    by_cases hsub : d.subscribed = true
    · by_cases hopened : d.opened = true
      · rw [step_wake hout hsub hopened]
        exact (h.going hsub hopened).wake_sound hx
      · rw [step_open hout hsub (Bool.eq_false_iff.mpr hopened)]
        refine open_sound h hsub ?_
        cases h.shape with
        | fresh _ _ hlog => exact hlog
        | running _ hopened' _ _ => exact absurd hopened' hopened
        | ended _ _ _ hgone _ _ _ =>
          rw [hsub] at hgone
          cases hgone
        | finished _ hgone _ _ _ =>
          rw [hsub] at hgone
          cases hgone
    · have hgone := Bool.eq_false_iff.mpr hsub
      rw [step_end hout hgone]
      exact ⟨h.flow, h.calm, ⟨h.gaps.apart, h.gaps.last⟩, hshape rfl rfl rfl rfl, fun _ => ⟨hout, hgone⟩⟩

theorem sound_run (E : Emitter σ φ χ α) (env : Env) (em : σ) (now bootNow : Nat) {xs : List (Found χ α)} (hxs : ∀ x ∈ xs, x.Ordered) :
    Sound E env (exec (Driver.step E env) (drive env em now bootNow) xs) := by
  have hall : Along (Driver.step E env) (fun _ (x : Found χ α) => x.Ordered) (drive env em now bootNow) xs := along_of_forall hxs
  have hstart : Sound E env (drive env em now bootNow : Driver σ φ) :=
    ⟨rfl, rfl, ⟨List.Pairwise.nil, rfl⟩, .fresh rfl rfl rfl, fun h => by cases h⟩
  exact invariant_along (I := fun d => Sound E env d) (fun d x h hx => sound_step hx h) hstart hall

/-! ## The stream -/

/-- How often the subscription was given back. -/
def givenBacks (log : List (Entry φ)) : Nat :=
  log.countP fun e => match e with
    | .givenBack => true
    | _ => false

theorem middle_givenBacks {ms : List (Entry φ)} (h : ∀ e ∈ ms, e.Middle) : givenBacks ms = 0 := by
  refine List.countP_eq_zero.mpr fun e he => ?_
  have hmiddle := h e he
  cases e with
  | changes frames time => exact Bool.false_ne_true
  | tick frames => exact Bool.false_ne_true
  | opening frames => cases hmiddle
  | last frames => cases hmiddle
  | givenBack => cases hmiddle
  | bye frames => cases hmiddle

theorem begun_givenBacks {log : List (Entry φ)} (h : Begun log) : givenBacks log = 0 := by
  obtain ⟨frames, ms, rfl, hms⟩ := h
  have hzero := middle_givenBacks hms
  unfold givenBacks at hzero ⊢
  rw [List.countP_cons_of_neg Bool.false_ne_true, hzero]

theorem Shape.givenBacks (h : Shape E d) : Stream.givenBacks d.log = if d.subscribed then 0 else 1 := by
  have happend : ∀ a b : List (Entry φ), Stream.givenBacks (a ++ b) = Stream.givenBacks a + Stream.givenBacks b := fun _ _ =>
    List.countP_append
  cases h with
  | fresh hsub _ hlog =>
    rw [hsub, hlog]
    rfl
  | running hsub _ hlog _ =>
    rw [hsub, begun_givenBacks hlog]
    rfl
  | ended before last frames hsub hlog hbefore hlast =>
    have hbefore0 : Stream.givenBacks before = 0 := by
      obtain ⟨rfl, -⟩ | hbegun := hbefore
      · rfl
      · exact begun_givenBacks hbegun
    have hlast0 : Stream.givenBacks last = 0 := by
      obtain rfl | ⟨_, rfl⟩ := hlast <;> rfl
    rw [hsub, hlog, happend, happend, hbefore0, hlast0]
    rfl
  | finished before hsub hlog hbefore _ =>
    rw [hsub, hlog, happend, begun_givenBacks hbefore]
    rfl

/-- An emitter that names its frames and never finishes. -/
def naming : Emitter Unit String Unit Unit where
  opening em _ _ := (em, ["open"])
  changes em _ _ := (em, ["change"])
  tick em _ _ := (em, ["tick"])
  bye em reason := (em, [reason.name])
  finished _ := false

def everyFive : Env := ⟨5 * second, second, second / 4, none⟩

/-- A turn at one instant. -/
def turn (ready : Option Wake) (session : SessionCheck) (t : Nat) : Found Unit Unit :=
  ⟨ready, session, (), (), t, t, t, t, t, t, t, t⟩

theorem turn_ordered (ready : Option Wake) (session : SessionCheck) (t : Nat) : (turn ready session t).Ordered :=
  ⟨Nat.le_refl _, Nat.le_refl _, Nat.le_refl _, Nat.le_refl _, Nat.le_refl _⟩

end OpenU60.Events.Stream
