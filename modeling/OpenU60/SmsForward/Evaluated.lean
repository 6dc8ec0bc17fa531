/-
  OpenU60.SmsForward.Evaluated — which messages the passes have put to the rules.

  `evalInv_run`: in every state of every run the ids put to the rules are distinct, none
  is above the watermark outside a pass, a running pass works through ascending ids above
  everything put to the rules before, and only messages put to the rules are held.
-/

import OpenU60.SmsForward.Pass

namespace OpenU60.SmsForward

open OpenU60.Lib OpenU60.Lib.Machine

variable {P : Params}

/-! ## Kinds of effects -/

def evaluatedIds (es : List Effect) : List Nat :=
  es.filterMap fun
    | .evaluate sms => some sms.id
    | _ => none

def Effect.isForward : Effect → Bool
  | .send .. => true
  | .fail .. => true
  | _ => false

/-- The message a post-forward action is applied to. -/
def Effect.actsOn : Effect → Option Nat
  | .markRead id => some id
  | .delete id => some id
  | _ => none

@[simp] theorem evaluatedIds_append (es fs : List Effect) :
    evaluatedIds (es ++ fs) = evaluatedIds es ++ evaluatedIds fs := List.filterMap_append

@[simp] theorem evaluatedIds_listed (ids : List Nat) : evaluatedIds [.listed ids] = [] := rfl

@[simp] theorem evaluatedIds_evaluate (sms : DecodedSms) : evaluatedIds [.evaluate sms] = [sms.id] := rfl

theorem evaluatedIds_forwards {es : List Effect} (h : ∀ x ∈ es, x.isForward = true) : evaluatedIds es = [] := by
  refine List.filterMap_eq_nil_iff.mpr fun x hx => ?_
  have := h x hx
  cases x <;> first | rfl | cases this

theorem mem_evaluatedIds {es : List Effect} {i : Nat} : i ∈ evaluatedIds es ↔ ∃ sms, .evaluate sms ∈ es ∧ sms.id = i := by
  simp only [evaluatedIds, List.mem_filterMap]
  constructor
  · rintro ⟨x, hx, he⟩
    cases x <;> cases he
    exact ⟨_, hx, rfl⟩
  · rintro ⟨sms, hsms, rfl⟩
    exact ⟨_, hsms, rfl⟩

/-- With distinct ids, the id determines the message. -/
theorem evaluated_unique {es : List Effect} (hnd : (evaluatedIds es).Nodup) {s t : DecodedSms}
    (hs : .evaluate s ∈ es) (ht : .evaluate t ∈ es) (hid : s.id = t.id) : s = t := by
  induction es with
  | nil => cases hs
  | cons x xs ih =>
    have hids : evaluatedIds (x :: xs) = evaluatedIds [x] ++ evaluatedIds xs := evaluatedIds_append [x] xs
    rw [hids] at hnd
    have hdisj : ∀ i, i ∈ evaluatedIds [x] → i ∉ evaluatedIds xs := fun i h1 h2 =>
      List.disjoint_of_nodup_append hnd h1 h2
    rcases List.mem_cons.mp hs with hsx | hs' <;> rcases List.mem_cons.mp ht with htx | ht'
    · exact Effect.evaluate.inj (hsx.trans htx.symm)
    · exact absurd (mem_evaluatedIds.mpr ⟨t, ht', hid.symm⟩) (hdisj s.id (by simp [← hsx]))
    · exact absurd (mem_evaluatedIds.mpr ⟨s, hs', hid⟩) (hdisj t.id (by simp [← htx]))
    · exact ih (List.nodup_append.mp hnd).2.1 hs' ht'

theorem postForward_acts (config : SmsForwardConfig) (id : Nat) :
    ∀ x ∈ postForward config id, x.actsOn = some id := by
  intro x hx
  simp only [postForward, List.mem_append] at hx
  rcases hx with hx | hx
  all_goals
    split at hx
    · rw [List.mem_singleton.mp hx]; rfl
    · cases hx

theorem evaluatedIds_post (config : SmsForwardConfig) (id : Nat) : evaluatedIds (postForward config id) = [] := by
  refine List.filterMap_eq_nil_iff.mpr fun x hx => ?_
  have := postForward_acts config id x hx
  cases x <;> first | rfl | cases this

theorem evaluatedIds_postIf (b : Bool) (config : SmsForwardConfig) (id : Nat) :
    evaluatedIds (if b then postForward config id else []) = [] := by
  cases b
  · rfl
  · exact evaluatedIds_post config id

theorem forwardRule_forwards {sms : DecodedSms} {rule : ForwardRule} {a : Attempt} {f : Forwarded}
    (h : forwardRule P sms rule a = some f) : ∀ x ∈ f.effects, x.isForward = true := by
  intro x hx
  rcases forwardRule_cases P sms rule a with ⟨-, hn⟩ | ⟨e, -, -, -, -, ⟨-, -, hf⟩ | ⟨-, -, es, hes, hf⟩ | ⟨-, -, hf⟩⟩
  · rw [hn] at h; cases h
  all_goals
    rw [hf] at h; cases h
  · rw [List.mem_singleton.mp hx]; rfl
  · rcases hes with rfl | rfl
    · cases hx
    · rw [List.mem_singleton.mp hx]; rfl
  · simp only [List.mem_cons, List.not_mem_nil, or_false] at hx
    rcases hx with rfl | rfl <;> rfl

/-- What a flush makes of a held entry it does not leave waiting: sent through a rule of
    the config with its rule id, or not sent and held on, or settled as failed. -/
theorem flushOutcome_cases {config : SmsForwardConfig} {e : ForwardLogEntry} {a : Attempt} {o : Outcome}
    (h : flushOutcome config e a = some o) :
    (∃ rule ∈ config.rules, rule.id = e.ruleId ∧ rule.enabled = true ∧
        ((o.error = none ∧ o.pending = false ∧ o.effects = [.send e.smsId e.maker rule true]) ∨
          (o.error ≠ none ∧ o.pending = true ∧ o.effects = [.send e.smsId e.maker rule false]) ∨
          (o.error ≠ none ∧ o.pending = false ∧
            o.effects = [.send e.smsId e.maker rule false, .fail e.smsId e.maker]))) ∨
      (o.error ≠ none ∧ o.pending = false ∧ o.effects = [.fail e.smsId e.maker]) := by
  unfold flushOutcome at h
  split at h
  · cases h
  · cases h; exact Or.inr ⟨by simp, rfl, rfl⟩
  · rename_i rule hf
    obtain ⟨hmem, hid, hen⟩ := flushAction_rule hf
    refine Or.inl ⟨rule, hmem, hid, hen, ?_⟩
    split at h
    · cases h; exact Or.inl ⟨rfl, rfl, rfl⟩
    · split at h
      · cases h; exact Or.inr (Or.inl ⟨by simp, rfl, rfl⟩)
      · cases h; exact Or.inr (Or.inr ⟨by simp, rfl, rfl⟩)

theorem flushOutcome_forwards {config : SmsForwardConfig} {e : ForwardLogEntry} {a : Attempt} {o : Outcome}
    (h : flushOutcome config e a = some o) : ∀ x ∈ o.effects, x.isForward = true := by
  intro x hx
  rcases flushOutcome_cases h with ⟨rule, -, -, -, ⟨-, -, ho⟩ | ⟨-, -, ho⟩ | ⟨-, -, ho⟩⟩ | ⟨-, -, ho⟩ <;> rw [ho] at hx <;>
    simp only [List.mem_cons, List.not_mem_nil, or_false] at hx
  all_goals rcases hx with rfl | rfl <;> rfl

/-! ## The invariant -/

/-- Every message put to the rules has at most this id. -/
def frontier (w : World) : Nat :=
  match w.pass with
  | .processing p =>
    match p.current with
    | some c => c.sms.id
    | none => p.maxProcessedId
  | _ => w.watermark

structure ProcessingInv (w : World) (p : Processing) : Prop where
  after : p.afterId = w.watermark
  newer : p.afterId ≤ p.maxProcessedId
  ascending : (frontier w :: p.messages.map (·.id)).Pairwise (· < ·)
  current : ∀ c, p.current = some c → p.maxProcessedId < c.sms.id ∧ .evaluate c.sms ∈ w.effects
  rules : ∀ c, p.current = some c → ∀ rule ∈ c.rest, rule ∈ enabledRules p.config

structure EvalInv (w : World) : Prop where
  nodup : (evaluatedIds w.effects).Nodup
  bounded : ∀ i ∈ evaluatedIds w.effects, i ≤ frontier w
  processing : ∀ p, w.pass = .processing p → ProcessingInv w p
  held : ∀ e ∈ w.log, e.pending = true → e.smsId ∈ evaluatedIds w.effects
  capped : w.log.length ≤ maxLogEntries

variable {w : World} {p : Processing}

theorem frontier_current {c : Current} (hp : w.pass = .processing p)
    (hc : p.current = some c) : frontier w = c.sms.id := by
  simp only [frontier, hp, hc]

theorem frontier_between (hp : w.pass = .processing p) (hc : p.current = none) :
    frontier w = p.maxProcessedId := by
  simp only [frontier, hp, hc]

theorem frontier_enter (w : World) (pass : Pass) (h : ∀ p, pass ≠ .processing p) :
    frontier (w.enter pass) = w.watermark := by
  cases pass with
  | processing p => exact absurd rfl (h p)
  | _ => rfl

/-- Outside a pass nothing put to the rules is above the watermark. -/
theorem EvalInv.below_watermark (h : EvalInv w) (hp : ∀ p, w.pass ≠ .processing p) :
    ∀ i ∈ evaluatedIds w.effects, i ≤ w.watermark := by
  intro i hi
  have := h.bounded i hi
  rwa [← frontier_enter w w.pass hp]

/-- The first test of the message loop never skips: the ids of a pass ascend from above
    its watermark. -/
theorem EvalInv.not_skipped {sms : DecodedSms} {messages : List DecodedSms} (h : EvalInv w)
    (hp : w.pass = .processing p) (hc : p.current = none) (hm : p.messages = sms :: messages) : ¬sms.id ≤ p.afterId := by
  obtain ⟨-, hnew, hasc, -, -⟩ := h.processing p hp
  rw [hm, frontier_between hp hc] at hasc
  have := (List.pairwise_cons.mp hasc).1 sms.id (by simp)
  omega

/-- The next message of a pass is newer than every one put to the rules before. -/
theorem EvalInv.next_newer {sms : DecodedSms} {messages : List DecodedSms} (h : EvalInv w)
    (hp : w.pass = .processing p) (hm : p.messages = sms :: messages) : ∀ i ∈ evaluatedIds w.effects, i < sms.id := by
  intro i hi
  have hasc := (h.processing p hp).ascending
  have hle := h.bounded i hi
  rw [hm] at hasc
  have hlt := (List.pairwise_cons.mp hasc).1 sms.id (by simp)
  omega

theorem evalInv_start (h : Start w) : EvalInv w where
  nodup := by rw [h.noEffects]; exact List.nodup_nil
  bounded := by rw [h.noEffects]; intro i hi; cases hi
  processing := by intro p hp; rw [h.idle] at hp; cases hp
  held := by
    intro e he hpend
    rw [h.noneHeld e he] at hpend; cases hpend
  capped := h.capped

variable {w' : World}

/-- A step that leaves the effects' evaluations, adds no held entry and is not in a
    processing pass afterwards. -/
theorem evalInv_outside (h : EvalInv w) (heff : evaluatedIds w'.effects = evaluatedIds w.effects)
    (hpass : ∀ p, w'.pass ≠ .processing p) (hwm : ∀ i ∈ evaluatedIds w.effects, i ≤ w'.watermark)
    (hheld : ∀ e ∈ w'.log, e.pending = true → e.smsId ∈ evaluatedIds w.effects)
    (hcap : w'.log.length ≤ maxLogEntries) : EvalInv w' where
  nodup := heff ▸ h.nodup
  bounded := by
    intro i hi
    rw [heff] at hi
    have : frontier w' = w'.watermark := frontier_enter w' w'.pass hpass
    rw [this]; exact hwm i hi
  processing := fun p hp => absurd hp (hpass p)
  held := by rw [heff]; exact hheld
  capped := hcap

/-- A handler's step: the pass and the effects stay. -/
theorem evalInv_frame (h : EvalInv w) (hpass : w'.pass = w.pass) (heff : w'.effects = w.effects)
    (hwm : w'.watermark = w.watermark) (hheld : ∀ e ∈ w'.log, e.pending = true → e ∈ w.log)
    (hcap : w'.log.length ≤ maxLogEntries) : EvalInv w' := by
  have hfront : frontier w' = frontier w := by simp only [frontier, hpass, hwm]
  refine ⟨heff ▸ h.nodup, by rw [heff, hfront]; exact h.bounded, ?_, ?_, hcap⟩
  · intro p hp
    obtain ⟨h1, h2, h3, h4, h5⟩ := h.processing p (hpass ▸ hp)
    exact ⟨by rw [hwm]; exact h1, h2, by rw [hfront]; exact h3, by rw [heff]; exact h4, h5⟩
  · rw [heff]; exact fun e he hpend => h.held e (hheld e he hpend) hpend

theorem evalInv_serve (h : EvalInv w) (saved : Bool) (req : Request) : EvalInv (serve saved req w) := by
  have hst := (handle_state saved w.nextSerial w.fwd req).1
  have hlog : (serve saved req w).log = w.log := congrArg ForwardState.log hst
  refine evalInv_frame h rfl rfl (congrArg ForwardState.lastForwardedId hst) ?_ ?_
  · rw [hlog]; exact fun e he _ => he
  · rw [hlog]; exact h.capped

/-- A step inside a pass on one message: what it has put to the rules stays. -/
theorem evalInv_current {p p' : Processing} {c c' : Current} (h : EvalInv w)
    (hp : w.pass = .processing p) (hc : p.current = some c) (hp' : w'.pass = .processing p')
    (hc' : p'.current = some c') (hsms : c'.sms = c.sms) (hafter : p'.afterId = p.afterId)
    (hmax : p'.maxProcessedId = p.maxProcessedId) (hmsgs : p'.messages = p.messages)
    (hconfig : p'.config = p.config) (hrest : ∀ rule ∈ c'.rest, rule ∈ c.rest)
    (heff : evaluatedIds w'.effects = evaluatedIds w.effects) (hmono : ∀ x ∈ w.effects, x ∈ w'.effects)
    (hwm : w'.watermark = w.watermark)
    (hheld : ∀ e ∈ w'.log, e.pending = true → e.smsId ∈ evaluatedIds w.effects)
    (hcap : w'.log.length ≤ maxLogEntries) : EvalInv w' := by
  have hfront : frontier w' = frontier w := by rw [frontier_current hp hc, frontier_current hp' hc', hsms]
  refine ⟨heff ▸ h.nodup, by rw [heff, hfront]; exact h.bounded, ?_, by rw [heff]; exact hheld, hcap⟩
  intro q hq
  rw [hp'] at hq; cases hq
  obtain ⟨h1, h2, h3, h4, h5⟩ := h.processing p hp
  refine ⟨by rw [hafter, hwm]; exact h1, by rw [hafter, hmax]; exact h2, by rw [hfront, hmsgs]; exact h3, ?_, ?_⟩
  · intro d hd
    rw [hc'] at hd; cases hd
    rw [hsms, hmax]
    exact ⟨(h4 c hc).1, hmono _ (h4 c hc).2⟩
  · intro d hd rule hr
    rw [hc'] at hd; cases hd
    rw [hconfig]; exact h5 c hc rule (hrest rule hr)

theorem evalInv_move {e : Event} (h : EvalInv w) (hm : Move P w e w') : EvalInv w' := by
  have hno : ∀ {pass : Pass}, w.pass = pass → (∀ p, pass ≠ .processing p) → ∀ i ∈ evaluatedIds w.effects, i ≤ w.watermark :=
    fun hp hne => h.below_watermark fun p hq => hne p (hp ▸ hq)
  cases hm with
  | stay => exact h
  | begin _ hp => exact evalInv_outside h rfl (fun _ hq => by cases hq) (hno hp (by simp)) h.held h.capped
  | listed next hp _ _ hnext =>
    refine evalInv_outside h (by simp) ?_ (hno hp (by simp)) h.held h.capped
    rintro p hq
    rcases hnext with rfl | rfl <;> cases hq
  | @initialized saved r cap next hp _ h0 hpos hnext =>
    have hle := hno hp (by simp)
    refine evalInv_outside h (by simp) ?_ ?_ (by simpa using h.held) (by simpa using h.capped)
    · rintro p hq
      rcases hnext with rfl | rfl <;> cases hq
    · intro i hi
      have := hle i hi
      simp only [enter_watermark, moveWatermark_watermark]
      omega
  | nothingNew hp _ => exact evalInv_outside h (by simp) (fun _ hq => by cases hq) (hno hp (by simp)) h.held h.capped
  | @started r hp _ =>
    have hle := hno hp (by simp)
    refine ⟨by simpa using h.nodup, by simpa [frontier] using hle, ?_, by simpa using h.held, h.capped⟩
    rintro p hq
    cases hq
    refine ⟨rfl, Nat.le_refl _, ?_, nofun, nofun⟩
    exact List.pairwise_cons.mpr ⟨fun i hi => fetchNewMessages_newer P hi, fetchNewMessages_sorted P _ r⟩
  | flushed hp => exact evalInv_outside h rfl (fun _ hq => by cases hq) (hno hp (by simp)) h.held h.capped
  | skipRule hp hc hrest _ =>
    refine evalInv_current h hp hc rfl rfl rfl rfl rfl rfl rfl ?_ rfl (fun x hx => hx) rfl h.held h.capped
    intro r hr; rw [hrest]; exact List.mem_cons_of_mem _ hr
  | @push a p c rule rest f hp hc hrest hf =>
    have hev : .evaluate c.sms ∈ w.effects := ((h.processing p hp).current c hc).2
    refine evalInv_current h hp hc (enter_pass ..) rfl rfl rfl rfl rfl rfl ?_ ?_ ?_ (by simp) ?_ ?_
    · intro r hr; rw [hrest]; exact List.mem_cons_of_mem _ hr
    · simp [evaluatedIds_forwards (forwardRule_forwards hf)]
    · intro x hx; simp [hx]
    · intro e he hpend
      simp only [enter_log, emit_log, setLog_log] at he
      rcases mem_pushLog h.capped he with he | rfl
      · exact h.held e he hpend
      · have hid : f.entry.smsId = c.sms.id := by
          rcases forwardRule_cases P c.sms rule a with ⟨-, hn⟩ | ⟨e, -, hid, -, -, ⟨-, -, h'⟩ | ⟨-, -, _, -, h'⟩ | ⟨-, -, h'⟩⟩
          · rw [hn] at hf; cases hf
          all_goals rw [h'] at hf; cases hf; exact hid
        exact mem_evaluatedIds.mpr ⟨c.sms, hev, hid.symm⟩
    · simp only [enter_log, emit_log, setLog_log]
      exact length_pushLog h.capped _
  | @finishSms a p c hp hc hrest =>
    obtain ⟨h1, h2, h3, h4, -⟩ := h.processing p hp
    have hlt := (h4 c hc).1
    have hmax : max p.maxProcessedId c.sms.id = c.sms.id := by omega
    have hfront := frontier_current hp hc
    refine ⟨by simpa [evaluatedIds_postIf] using h.nodup, ?_, ?_, by simpa [evaluatedIds_postIf] using h.held, h.capped⟩
    · intro i hi
      simp only [enter_effects, emit_effects, evaluatedIds_append, evaluatedIds_postIf, List.append_nil] at hi
      show i ≤ max p.maxProcessedId c.sms.id
      rw [hmax, ← hfront]; exact h.bounded i hi
    · rintro q hq
      cases hq
      refine ⟨h1, by simp only; omega, ?_, nofun, nofun⟩
      show (max p.maxProcessedId c.sms.id :: p.messages.map (·.id)).Pairwise (· < ·)
      rw [hmax, ← hfront]; exact h3
  | @skipMessage a p sms messages hp hc hmsgs hle =>
    obtain ⟨h1, h2, h3, -, -⟩ := h.processing p hp
    have hfront := frontier_between hp hc
    have hfront' : frontier (w.enter (.processing { p with messages := messages })) = p.maxProcessedId :=
      frontier_between (p := { p with messages := messages }) rfl hc
    refine ⟨h.nodup, ?_, ?_, h.held, h.capped⟩
    · rw [hfront', ← hfront]; exact h.bounded
    · rintro q hq
      cases hq
      have hnone : ∀ d, p.current ≠ some d := by simp [hc]
      refine ⟨h1, h2, ?_, fun d hd => absurd hd (hnone d), fun d hd => absurd hd (hnone d)⟩
      rw [hmsgs, hfront] at h3
      rw [hfront']
      exact h3.sublist ((List.sublist_cons_self _ _).cons_cons _)
  | @evaluate a p sms messages hp hc hmsgs =>
    obtain ⟨h1, h2, h3, -, -⟩ := h.processing p hp
    have hfront := frontier_between hp hc
    have hnew := h.next_newer hp hmsgs
    rw [hmsgs, hfront] at h3
    refine ⟨?_, ?_, ?_, ?_, h.capped⟩
    · simp only [enter_effects, emit_effects, evaluatedIds_append, evaluatedIds_evaluate]
      refine List.nodup_append.mpr ⟨h.nodup, List.nodup_singleton _, ?_⟩
      intro i hi j hj
      have := hnew i hi
      have := List.mem_singleton.mp hj
      omega
    · intro i hi
      simp only [enter_effects, emit_effects, evaluatedIds_append, evaluatedIds_evaluate, List.mem_append,
        List.mem_singleton] at hi
      show i ≤ sms.id
      rcases hi with hi | rfl
      · exact (hnew i hi).le
      · exact Nat.le_refl _
    · rintro q hq
      cases hq
      refine ⟨h1, h2, (List.pairwise_cons.mp h3).2, fun d hd => ?_, fun d hd rule hr => ?_⟩
      · cases hd
        exact ⟨(List.pairwise_cons.mp h3).1 sms.id (by simp), by simp⟩
      · cases hd; exact hr
    · intro e he hpend
      simp only [enter_effects, emit_effects, evaluatedIds_append, List.mem_append]
      exact Or.inl (h.held e he hpend)
  | @finishPass a p hp hc hmsgs =>
    have hfront := frontier_between hp hc
    refine evalInv_outside h (by simp) (fun _ hq => by cases hq) ?_ (by simpa using h.held) (by simpa using h.capped)
    intro i hi
    simpa [← hfront] using h.bounded i hi
  | wait hp => exact evalInv_outside h rfl (fun _ hq => by cases hq) (hno hp (by simp)) h.held h.capped
  | @settle a config e held o hp ho =>
    refine evalInv_outside h ?_ (fun _ hq => by cases hq) (by simpa using hno hp (by simp)) ?_ ?_
    · simp [evaluatedIds_forwards (flushOutcome_forwards ho), evaluatedIds_postIf]
    · intro x hx hpend
      simp only [enter_log, emit_log, saveLog_log, setLog_log, settlePending_log] at hx
      rcases mem_settled hx with hx | ⟨v, hv, hvp, -, -, rfl⟩
      · exact h.held x hx hpend
      · exact h.held v hv hvp
    · simpa [settlePending_log] using h.capped
  | flushEnd hp => exact evalInv_outside h rfl (fun _ hq => by cases hq) (hno hp (by simp)) h.held h.capped
  | served saved req => exact evalInv_serve h saved req
  | cleared saved =>
    refine evalInv_frame h rfl rfl (by simp) ?_ ?_
    · intro e he _
      simp only [saveLog_log, setLog_log] at he
      exact (List.mem_filter.mp he).1
    · simp only [saveLog_log, setLog_log]
      exact (List.length_filter_le _ _).trans h.capped

theorem evalInv_step (h : EvalInv w) (e : Event) : EvalInv (step P w e) := evalInv_move h (step_move P w e)

theorem evalInv_run (h : Start w) (es : List Event) : EvalInv (exec (step P) w es) :=
  invariant (I := EvalInv) (fun _ e h => evalInv_step h e) (evalInv_start h)

end OpenU60.SmsForward
