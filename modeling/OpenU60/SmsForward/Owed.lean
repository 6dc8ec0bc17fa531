/-
  OpenU60.SmsForward.Owed — what is still to happen to a message, and what guards its
  post-forward actions.

  A message is owed a forward while one of its log entries is held or the running pass
  still has a rule to try on it (`toCome`, a queue that a push takes one forward from and
  every other step leaves alone). A failed or held entry is all the log knows of a
  forward that has not gone out, so what matters about a push onto a full log is whether
  the entry it drops belongs to a message still owed a forward.
-/

import OpenU60.Lib.History
import OpenU60.SmsForward.Evaluated

namespace OpenU60.SmsForward

open OpenU60.Lib OpenU60.Lib.History OpenU60.Lib.FirstMatch

variable (P : Params)

/-- The forwards a pass still has to try, in order. -/
def toCome : Pass → List (DecodedSms × ForwardRule)
  | .processing p =>
    let current := p.current.toList.flatMap fun c => c.rest.map (c.sms, ·)
    let later := p.messages.flatMap fun sms => (enabledRules p.config).map (sms, ·)
    (current ++ later).filter fun x => applies P x.2 x.1
  | _ => []

/-- A forward of the message is held in `log` or still `todo`. -/
def Owed (log : List ForwardLogEntry) (todo : List (DecodedSms × ForwardRule)) (id : Nat) : Prop :=
  (∃ e ∈ log, e.pending = true ∧ e.smsId = id) ∨ ∃ x ∈ todo, x.1.id = id

instance decidableOwed (log : List ForwardLogEntry) (todo : List (DecodedSms × ForwardRule)) (id : Nat) :
    Decidable (Owed log todo id) :=
  inferInstanceAs (Decidable (_ ∨ _))

/-- The entry this step pushes. -/
def pushed (w : World) : Event → Option ForwardLogEntry
  | .advance a =>
    match w.pass with
    | .processing p =>
      match p.current with
      | some c =>
        match c.rest with
        | rule :: _ => (forwardRule P c.sms rule a).map (·.entry)
        | [] => none
      | none => none
    | _ => none
  | _ => none

/-- The entry this step's push drops from a full log, and what it leaves. -/
def dropped (w : World) (e : Event) : Option (ForwardLogEntry × List ForwardLogEntry) :=
  (pushed P w e).bind fun entry => makeRoom (w.log ++ [entry])

variable {P}

/-! ## The queue of forwards to come -/

theorem toCome_processing (p : Processing) :
    toCome P (.processing p) =
      (p.current.toList.flatMap (fun c => c.rest.map (c.sms, ·)) ++
        p.messages.flatMap fun sms => (enabledRules p.config).map (sms, ·)).filter fun x => applies P x.2 x.1 := rfl

theorem toCome_outside {pass : Pass} (h : ∀ p, pass ≠ .processing p) : toCome P pass = [] := by
  cases pass with
  | processing p => exact absurd rfl (h p)
  | _ => rfl

variable {p : Processing} {c : Current}

theorem toCome_skipRule {rule : ForwardRule} {rest : List ForwardRule}
    (hc : p.current = some c) (hrest : c.rest = rule :: rest) (happ : applies P rule c.sms = false) :
    toCome P (.processing { p with current := some { c with rest := rest } }) = toCome P (.processing p) := by
  simp [toCome_processing, hc, hrest, happ]

theorem toCome_push {rule : ForwardRule} {rest : List ForwardRule} {b : Bool}
    (hc : p.current = some c) (hrest : c.rest = rule :: rest) (happ : applies P rule c.sms = true) :
    toCome P (.processing p) =
      (c.sms, rule) :: toCome P (.processing { p with current := some { c with rest := rest, allSucceeded := b } }) := by
  simp [toCome_processing, hc, hrest, happ]

theorem toCome_finishSms {n : Nat} (hc : p.current = some c) (hrest : c.rest = []) :
    toCome P (.processing { p with maxProcessedId := n, current := none }) = toCome P (.processing p) := by
  simp [toCome_processing, hc, hrest]

theorem toCome_evaluate {sms : DecodedSms} {messages : List DecodedSms} (hc : p.current = none)
    (hm : p.messages = sms :: messages) :
    toCome P (.processing { p with messages := messages, current := some ⟨sms, enabledRules p.config, true⟩ }) =
      toCome P (.processing p) := by
  simp [toCome_processing, hc, hm]

/-- What a forward to come is of: the message at hand or one not put to the rules yet. -/
theorem mem_toCome {x : DecodedSms × ForwardRule} :
    x ∈ toCome P (.processing p) ↔ applies P x.2 x.1 = true ∧
      ((∃ c, p.current = some c ∧ x.1 = c.sms ∧ x.2 ∈ c.rest) ∨ (x.1 ∈ p.messages ∧ x.2 ∈ enabledRules p.config)) := by
  obtain ⟨sms, rule⟩ := x
  simp only [toCome_processing, List.mem_filter, List.mem_append, List.mem_flatMap, Option.mem_toList, List.mem_map,
    Prod.mk.injEq]
  constructor
  · rintro ⟨⟨c, hc, r, hr, rfl, rfl⟩ | ⟨s, hs, r, hr, rfl, rfl⟩, happ⟩
    · exact ⟨happ, Or.inl ⟨c, hc, rfl, hr⟩⟩
    · exact ⟨happ, Or.inr ⟨hs, hr⟩⟩
  · rintro ⟨happ, ⟨c, hc, rfl, hr⟩ | ⟨hs, hr⟩⟩
    · exact ⟨Or.inl ⟨c, hc, rule, hr, rfl, rfl⟩, happ⟩
    · exact ⟨Or.inr ⟨sms, hs, rule, hr, rfl, rfl⟩, happ⟩

variable {w : World}

theorem pushed_eq {a : Attempt} {rule : ForwardRule}
    {rest : List ForwardRule} {f : Forwarded} (hp : w.pass = .processing p) (hc : p.current = some c)
    (hrest : c.rest = rule :: rest) (hf : forwardRule P c.sms rule a = some f) :
    pushed P w (.advance a) = some f.entry := by
  simp only [pushed, hp, hc, hrest, hf, Option.map_some]

/-- What a push leaves: the log with the new entry, but for what it drops. -/
theorem mem_push_or_dropped {e : Event} {entry : ForwardLogEntry} (hcap : w.log.length ≤ maxLogEntries)
    (hpush : pushed P w e = some entry) {x : ForwardLogEntry} (hx : x ∈ w.log ∨ x = entry) :
    x ∈ pushLog w.log entry ∨ dropped P w e = some (x, pushLog w.log entry) := by
  have hx : x ∈ w.log ++ [entry] := by simpa using hx
  simp only [dropped, hpush, Option.bind_some, pushLog_eq hcap]
  cases hr : makeRoom (w.log ++ [entry]) with
  | none => exact Or.inl hx
  | some y =>
    obtain ⟨v, rest⟩ := y
    rcases (makeRoom_mem hr x).mp hx with rfl | hx
    · exact Or.inr rfl
    · exact Or.inl hx

/-- A message owed a forward after a push was owed one before. -/
theorem owed_before_push {log : List ForwardLogEntry} (hcap : log.length ≤ maxLogEntries) {entry : ForwardLogEntry}
    {x : DecodedSms × ForwardRule} (hid : entry.smsId = x.1.id) {todo : List (DecodedSms × ForwardRule)} {id : Nat}
    (h : Owed (pushLog log entry) todo id) : Owed log (x :: todo) id := by
  rcases h with ⟨e, he, hpend, heid⟩ | ⟨y, hy, hyid⟩
  · rcases mem_pushLog hcap he with he | rfl
    · exact Or.inl ⟨e, he, hpend, heid⟩
    · exact Or.inr ⟨x, List.mem_cons_self .., hid.symm.trans heid⟩
  · exact Or.inr ⟨y, List.mem_cons_of_mem _ hy, hyid⟩

/-- And after a held entry's outcome is written back. -/
theorem owed_before_settle {log : List ForwardLogEntry} {smsId : Nat} {ruleId : UInt32} {error : Option String}
    {pending : Bool} {now : Int} {id : Nat}
    (h : Owed (updateFirst (heldAs smsId ruleId) (writeOutcome error pending now) log) [] id) : Owed log [] id := by
  rcases h with ⟨e, he, hpend, heid⟩ | ⟨y, hy, -⟩
  · rcases mem_settled he with he | ⟨v, hv, hvpend, -, -, rfl⟩
    · exact Or.inl ⟨e, he, hpend, heid⟩
    · exact Or.inl ⟨v, hv, hvpend, heid⟩
  · cases hy

/-! ## The steps that matter to a message -/

/-- A step that leaves the log alone, at most reads the device, and changes nothing that
    is to come for a message already put to the rules. -/
structure Quiet (P : Params) (w w' : World) : Prop where
  log : w'.log = w.log
  effects : ∃ l, w'.effects = w.effects ++ l ∧ ∀ x ∈ l, ∃ ids, x = .listed ids
  todo : ∀ i ∈ evaluatedIds w.effects, ∀ x, x.1.id = i → (x ∈ toCome P w'.pass ↔ x ∈ toCome P w.pass)
  come : ∀ x ∈ toCome P w'.pass, x ∈ toCome P w.pass ∨ x.2 ∈ enabledRules w.config
  current : ∀ p' c', w'.pass = .processing p' → p'.current = some c' → ∃ p c, w.pass = .processing p ∧
    p.current = some c ∧ c'.sms = c.sms ∧ c'.allSucceeded = c.allSucceeded ∧
      ∀ rule ∈ c.rest, applies P rule c.sms = true → rule ∈ c'.rest
  flushing : ∀ config held, w'.pass = .flushing config held → (∃ l, w.pass = .flushing config (l ++ held)) ∨
    (config = w.config ∧ held = w.log.filter (·.pending))
  processing : ∀ p', w'.pass = .processing p' → p'.config = w.config ∨ ∃ p, w.pass = .processing p ∧ p'.config = p.config

/-- What a step does for the messages put to the rules: nothing, or one of five things. -/
inductive Turn (P : Params) (w : World) : Event → World → Prop where
  | quiet {w' : World} (e : Event) : Quiet P w w' → Turn P w e w'
  | push {a : Attempt} {p : Processing} {c : Current} {rule : ForwardRule} {rest : List ForwardRule} {f : Forwarded} :
      w.pass = .processing p → p.current = some c → c.rest = rule :: rest → forwardRule P c.sms rule a = some f →
      Turn P w (.advance a)
        (((w.setLog (pushLog w.log f.entry)).emit f.effects).enter (.processing
          { p with current := some { c with rest := rest, allSucceeded := c.allSucceeded && f.entry.success } }))
  | finishSms {a : Attempt} {p : Processing} {c : Current} :
      w.pass = .processing p → p.current = some c → c.rest = [] →
      Turn P w (.advance a)
        ((w.emit (if c.allSucceeded then postForward p.config c.sms.id else [])).enter
          (.processing { p with maxProcessedId := max p.maxProcessedId c.sms.id, current := none }))
  | evaluate {a : Attempt} {p : Processing} {sms : DecodedSms} {messages : List DecodedSms} :
      w.pass = .processing p → p.current = none → p.messages = sms :: messages →
      Turn P w (.advance a)
        ((w.emit [.evaluate sms]).enter
          (.processing { p with messages := messages, current := some ⟨sms, enabledRules p.config, true⟩ }))
  | settle {a : Attempt} {config : SmsForwardConfig} {e : ForwardLogEntry} {held : List ForwardLogEntry} {o : Outcome} :
      w.pass = .flushing config (e :: held) → flushOutcome config e a = some o →
      Turn P w (.advance a)
        (let r := settlePending w.log e.smsId e.ruleId o.error o.pending a.finish.wall
         (((w.setLog r.1).saveLog a.saved).emit (o.effects ++ if r.2 then postForward config e.smsId else [])).enter
           (.flushing config held))
  | cleared (saved : Bool) : Turn P w (.logClear saved) ((w.setLog (clearLog w.log)).saveLog saved)

variable {w' : World}

/-- Between processing passes nothing is to come. -/
theorem quiet_outside {l : List Effect} (hlog : w'.log = w.log) (heff : w'.effects = w.effects ++ l)
    (hl : ∀ x ∈ l, ∃ ids, x = .listed ids) (htodo : toCome P w.pass = []) (hno : ∀ p, w'.pass ≠ .processing p)
    (hflush : ∀ config held, w'.pass = .flushing config held → (∃ l, w.pass = .flushing config (l ++ held)) ∨
      (config = w.config ∧ held = w.log.filter (·.pending))) : Quiet P w w' where
  log := hlog
  effects := ⟨l, heff, hl⟩
  todo := by intro _ _ x _; rw [htodo, toCome_outside hno]
  come := by rw [toCome_outside hno]; intro x hx; cases hx
  current := fun p' _ hp' => absurd hp' (hno p')
  flushing := hflush
  processing := fun p' hp' => absurd hp' (hno p')

theorem mem_before {l : List Effect} {x : Effect} (heff : w'.effects = w.effects ++ l) (hno : x ∉ l) (hx : x ∈ w'.effects) :
    x ∈ w.effects :=
  (List.mem_append.mp (heff ▸ hx)).resolve_right hno

/-- A handler that leaves the log, the pass and the effects. -/
theorem quiet_frame (hlog : w'.log = w.log) (hpass : w'.pass = w.pass) (heff : w'.effects = w.effects) :
    Quiet P w w' where
  log := hlog
  effects := ⟨[], by simp [heff], by simp⟩
  todo := by intro _ _ x _; rw [hpass]
  come := by rw [hpass]; exact fun x hx => Or.inl hx
  current := by
    rw [hpass]
    exact fun p c hp hc => ⟨p, c, hp, hc, rfl, rfl, fun _ h _ => h⟩
  flushing := by rw [hpass]; exact fun config held h => Or.inl ⟨[], h⟩
  processing := by rw [hpass]; exact fun p hp => Or.inr ⟨p, hp, rfl⟩

theorem serve_log (saved : Bool) (req : Request) (w : World) : (serve saved req w).log = w.log :=
  congrArg ForwardState.log (handle_state saved w.nextSerial w.fwd req).1

theorem move_turn {e : Event} (h : EvalInv w) (hm : Move P w e w') : Turn P w e w' := by
  have hnone : ∀ {pass : Pass}, w.pass = pass → (∀ p, pass ≠ .processing p) → toCome P w.pass = [] :=
    fun hp hne => by rw [hp]; exact toCome_outside hne
  cases hm with
  | stay => exact .quiet _ (quiet_frame rfl rfl rfl)
  | begin _ hp =>
    exact .quiet _ (quiet_outside (l := []) rfl (by simp) (by simp) (hnone hp (by simp)) (by simp) (by simp))
  | listed next hp _ _ hnext =>
    refine .quiet _ (quiet_outside rfl rfl (by simp) (hnone hp (by simp)) ?_ ?_)
    all_goals rcases hnext with rfl | rfl <;> simp
  | initialized next hp _ _ _ hnext =>
    refine .quiet _ (quiet_outside (by simp) rfl (by simp) (hnone hp (by simp)) ?_ ?_)
    all_goals rcases hnext with rfl | rfl <;> simp
  | nothingNew hp _ =>
    exact .quiet _ (quiet_outside rfl rfl (by simp) (hnone hp (by simp)) (by simp) (by simp))
  | @started r hp _ =>
    refine .quiet _ ⟨rfl, ⟨_, rfl, by simp⟩, ?_, ?_, ?_, by simp, ?_⟩
    · -- what is fetched is above everything put to the rules
      intro i hi x hx
      rw [hnone hp (by simp)]
      simp only [List.not_mem_nil, iff_false]
      intro hin
      rcases (mem_toCome.mp hin).2 with ⟨c, hc, -⟩ | ⟨hmsg, -⟩
      · cases hc
      · have hle := h.below_watermark (by simp [hp]) i hi
        have hlt := fetchNewMessages_newer P (List.mem_map_of_mem hmsg)
        simp only [hx] at hlt
        omega
    · intro x hx
      rcases (mem_toCome.mp hx).2 with ⟨c, hc, -⟩ | ⟨-, hr⟩
      · cases hc
      · exact Or.inr hr
    · intro p c hq hc
      cases hq
      cases hc
    · intro p hq
      cases hq
      exact Or.inl rfl
  | flushed hp =>
    refine .quiet _ (quiet_outside (l := []) rfl (by simp) (by simp) (hnone hp (by simp)) (by simp) ?_)
    intro config held hq
    cases hq
    exact Or.inr ⟨rfl, rfl⟩
  | @skipRule a p c rule rest hp hc hrest happ =>
    have hqueue := toCome_skipRule hc hrest happ
    refine .quiet _ ⟨rfl, ⟨[], by simp, by simp⟩, ?_, ?_, ?_, by simp, ?_⟩
    · intro _ _ x _
      rw [hp, enter_pass, hqueue]
    · intro x hx
      rw [enter_pass, hqueue] at hx
      exact Or.inl (hp ▸ hx)
    · intro q d hq hd
      cases hq
      cases hd
      refine ⟨p, c, hp, hc, rfl, rfl, fun r hr happr => ?_⟩
      rw [hrest] at hr
      rcases List.mem_cons.mp hr with rfl | hr
      · rw [happr] at happ; cases happ
      · exact hr
    · intro q hq
      cases hq
      exact Or.inr ⟨p, hp, rfl⟩
  | push hp hc hrest hf => exact .push hp hc hrest hf
  | finishSms hp hc hrest => exact .finishSms hp hc hrest
  | skipMessage hp hc hm hle => exact absurd hle (h.not_skipped hp hc hm)
  | evaluate hp hc hm => exact .evaluate hp hc hm
  | finishPass hp hc hm =>
    refine .quiet _ (quiet_outside (l := []) (by simp) (by simp) (by simp) ?_ (by simp) (by simp))
    rw [hp, toCome_processing, hc, hm]; rfl
  | @wait a config e held hp =>
    refine .quiet _ (quiet_outside (l := []) rfl (by simp) (by simp) (hnone hp (by simp)) (by simp) ?_)
    intro c l hq
    cases hq
    exact Or.inl ⟨[e], hp⟩
  | settle hp ho => exact .settle hp ho
  | flushEnd hp =>
    exact .quiet _ (quiet_outside (l := []) rfl (by simp) (by simp) (hnone hp (by simp)) (by simp) (by simp))
  | served saved req => exact .quiet _ (quiet_frame (serve_log saved req w) rfl rfl)
  | cleared saved => exact .cleared saved

/-- Only a configuration request changes the configuration. -/
theorem move_config {e : Event} (hm : Move P w e w') (he : ∀ saved req, e ≠ .request saved req) :
    w'.config = w.config := by
  cases hm with
  | served saved req => exact absurd rfl (he saved req)
  | _ => simp

/-! ## Guarded actions -/

/-- Each post-forward action on a message stands where `R` allows it, given the effects
    before it. -/
@[irreducible] def ActsGuarded (R : List Effect → Nat → Prop) (es : List Effect) : Prop :=
  Guarded (fun before x => ∀ id, x.actsOn = some id → R before id) [] es

variable {R : List Effect → Nat → Prop}

theorem actsGuarded_nil : ActsGuarded R [] := by
  unfold ActsGuarded; trivial

theorem ActsGuarded.split {es before after : List Effect} {x : Effect} {id : Nat} (h : ActsGuarded R es)
    (hes : es = before ++ x :: after) (hx : x.actsOn = some id) : R before id := by
  unfold ActsGuarded at h
  simpa using guarded_iff.mp h before x after hes id hx

theorem actsGuarded_quiet {es fs : List Effect} (h : ActsGuarded R es) (hq : ∀ x ∈ fs, x.actsOn = none) :
    ActsGuarded R (es ++ fs) := by
  unfold ActsGuarded at h ⊢
  exact guarded_append.mpr ⟨h, guarded_of_free fun x hx _ id hid => by rw [hq x hx] at hid; cases hid⟩

theorem actsGuarded_forwards {es fs : List Effect} (h : ActsGuarded R es) (hf : ∀ x ∈ fs, x.isForward = true) :
    ActsGuarded R (es ++ fs) := by
  refine actsGuarded_quiet h fun x hx => ?_
  have := hf x hx
  cases x <;> first | rfl | cases this

variable {es : List Effect}

theorem acts_of_post {b : Bool} {config : SmsForwardConfig} {id : Nat} {x : Effect}
    (h : x ∈ if b then postForward config id else []) : x.actsOn = some id := by
  cases b with
  | false => cases h
  | true => exact postForward_acts config id x h

theorem actsGuarded_post (h : ActsGuarded R es) (config : SmsForwardConfig) (id : Nat)
    (hR : ∀ fs, (∀ x ∈ fs, x.actsOn = some id) → R (es ++ fs) id) : ActsGuarded R (es ++ postForward config id) := by
  unfold ActsGuarded at h ⊢
  refine guarded_append.mpr ⟨h, guarded_iff.mpr fun before x after hsplit i hi => ?_⟩
  have hacts := postForward_acts config id
  rw [hsplit] at hacts
  have hx : x.actsOn = some id := hacts x (by simp)
  rw [hx] at hi
  cases hi
  exact hR before fun y hy => hacts y (by simp [hy])

end OpenU60.SmsForward
