/-
  OpenU60.SmsForward.RuleIdentity — a held forward goes out through the rule it was held
  for, in any interleaving of the thread with the handlers.

  A held entry names its rule by id, and `next_rule_id` is one more than the largest id
  among the rules and the log. That keeps clear of a deleted rule once its entry is in the
  log, not before: a pass works on the rules it cloned, and a rule deleted while the pass
  still has it to try leaves no trace until its entry is pushed. A rule created in between
  can take its id, and then the held message goes to the new rule's destination.
  `sent_by_maker`: in every run that creates no rule with the id of one the running pass
  still has to try, every forward is sent through the rule it was made for.
-/

import OpenU60.SmsForward.Owed

namespace OpenU60.SmsForward

open OpenU60.Lib OpenU60.Lib.Machine OpenU60.Lib.FirstMatch

/-- Every send is through the rule the forward was made for. -/
def SentByMaker (es : List Effect) : Prop := ∀ id maker rule ok, Effect.send id maker rule ok ∈ es → rule.serial = maker

variable (P : Params)

/-- A rule is created only with an id that no rule the running pass still has to try has. -/
def KeepsIdentity (w : World) : Event → Prop
  | .request _ (.rulesCreate (.ok _)) =>
    ∀ x ∈ toCome P w.pass, x.2.id.toNat ≠ maxRuleId w.config.rules w.log + 1
  | _ => True

instance decidableKeepsIdentity (w : World) : ∀ e : Event, Decidable (KeepsIdentity P w e)
  | .request _ (.rulesCreate (.ok _)) => inferInstanceAs (Decidable (∀ x ∈ _, _))
  | .request _ (.rulesCreate (.error _)) => .isTrue trivial
  | .request _ (.configSet _) => .isTrue trivial
  | .request _ (.rulesUpdate _) => .isTrue trivial
  | .request _ (.rulesDelete _) => .isTrue trivial
  | .request _ (.rulesToggle _) => .isTrue trivial
  | .poll .. => .isTrue trivial
  | .newSms => .isTrue trivial
  | .fetch _ => .isTrue trivial
  | .flush => .isTrue trivial
  | .advance _ => .isTrue trivial
  | .logClear _ => .isTrue trivial

/-- The rules with this id are the one with this serial. -/
def IsRule (rules : List ForwardRule) (id : UInt32) (serial : Nat) : Prop := ∀ r ∈ rules, r.id = id → r.serial = serial

/-- An id stands for one rule, in the configuration and for whatever names it: a held
    entry, a rule a pass still has to try, an entry being flushed. -/
structure IdentityInv (w : World) : Prop where
  eval : EvalInv w
  sent : SentByMaker w.effects
  rules : ∀ r ∈ w.config.rules, IsRule w.config.rules r.id r.serial
  logged : ∀ e ∈ w.log, e.pending = true → IsRule w.config.rules e.ruleId e.maker
  come : ∀ x ∈ toCome P w.pass, IsRule w.config.rules x.2.id x.2.serial
  flushing : ∀ config held, w.pass = .flushing config held → ∀ e ∈ held, IsRule config.rules e.ruleId e.maker

variable {P}

theorem identityInv_start {w : World} (h : Start w) (hids : (w.config.rules.map (·.id)).Nodup) : IdentityInv P w where
  eval := evalInv_start h
  sent := by rw [h.noEffects]; intro _ _ _ _ hs; cases hs
  rules := by
    intro r hr r' hr' hid
    rw [List.inj_on_of_nodup_map hids hr' hr hid]
  logged := by
    intro e he hpend
    rw [h.noneHeld e he] at hpend; cases hpend
  come := by rw [h.idle]; intro x hx; cases hx
  flushing := by intro config held hp; rw [h.idle] at hp; cases hp

theorem SentByMaker.append {es fs : List Effect} (h : SentByMaker es)
    (hfs : ∀ id maker rule ok, Effect.send id maker rule ok ∈ fs → rule.serial = maker) : SentByMaker (es ++ fs) := by
  intro id maker rule ok hs
  rcases List.mem_append.mp hs with hs | hs
  · exact h id maker rule ok hs
  · exact hfs id maker rule ok hs

/-! ## Requests -/

theorem le_maxRuleId (rules : List ForwardRule) (log : List ForwardLogEntry) :
    (∀ r ∈ rules, r.id.toNat ≤ maxRuleId rules log) ∧ ∀ e ∈ log, e.ruleId.toNat ≤ maxRuleId rules log := by
  have hle : ∀ (l : List Nat), ∀ n ∈ l, n ≤ l.foldr max 0 := fun l n hn => List.le_max_of_le' 0 hn (Nat.le_refl n)
  constructor
  · intro r hr
    exact hle _ _ (List.mem_append_left _ (List.mem_map_of_mem hr))
  · intro e he
    exact hle _ _ (List.mem_append_right _ (List.mem_map_of_mem he))

theorem nextRuleId_eq {rules : List ForwardRule} {log : List ForwardLogEntry} {id : UInt32}
    (h : nextRuleId rules log = some id) : id.toNat = maxRuleId rules log + 1 := by
  unfold nextRuleId at h
  split at h
  · cases h
    rw [toNat_ofNat_u32, Nat.mod_eq_of_lt ‹_›]
  · cases h

/-- Each rule after a request keeps the id and the serial of one before it, or is the new
    one. -/
theorem handle_rules (saved : Bool) (serial : Nat) (f : SmsForwarder) (req : Request) :
    ∀ r ∈ (handle saved serial f req).1.config.rules, (∃ r₀ ∈ f.config.rules, r₀.id = r.id ∧ r₀.serial = r.serial) ∨
      (r.serial = serial ∧ r.id.toNat = maxRuleId f.config.rules f.state.log + 1 ∧
        ∃ body, req = .rulesCreate (.ok body)) := by
  have hsame : ∀ r ∈ f.config.rules, ∃ r₀ ∈ f.config.rules, r₀.id = r.id ∧ r₀.serial = r.serial :=
    fun r hr => ⟨r, hr, rfl, rfl⟩
  have hedit : ∀ (id : UInt32) (edit : ForwardRule → ForwardRule), (∀ r, (edit r).id = r.id ∧ (edit r).serial = r.serial) →
      ∀ r ∈ (editRule saved f id edit).1.config.rules, ∃ r₀ ∈ f.config.rules, r₀.id = r.id ∧ r₀.serial = r.serial := by
    intro id edit hkeep r hr
    rcases editRule_cases saved f id edit with ⟨l₁, r', l₂, hl, -, -, hc⟩ | ⟨-, -, hsameF⟩
    · rw [hc] at hr
      have hmem : ∀ x ∈ l₁ ++ r' :: l₂, ∃ r₀ ∈ f.config.rules, r₀.id = x.id ∧ r₀.serial = x.serial :=
        fun x hx => hsame x (hl ▸ hx)
      rcases List.mem_append.mp hr with hr | hr
      · exact hmem r (List.mem_append_left _ hr)
      · rcases List.mem_cons.mp hr with rfl | hr
        · obtain ⟨hid, hserial⟩ := hkeep r'
          rw [hid, hserial]
          exact hmem r' (by simp)
        · exact hmem r (by simp [hr])
    · rw [hsameF] at hr; exact hsame r hr
  intro r hr
  cases req with
  | configSet body =>
    left
    simp only [handle, configSet] at hr
    split at hr
    · exact hsame r hr
    · split at hr
      · exact hsame r hr
      · simp only [commitConfig_config] at hr
        exact hsame r hr
  | rulesCreate body =>
    simp only [handle, rulesCreate] at hr
    split at hr
    · exact Or.inl (hsame r hr)
    · rename_i req
      split at hr
      · exact Or.inl (hsame r hr)
      · rename_i id hid
        simp only [commitConfig_config, List.mem_append, List.mem_singleton] at hr
        rcases hr with hr | rfl
        · exact Or.inl (hsame r hr)
        · exact Or.inr ⟨rfl, nextRuleId_eq hid, req, rfl⟩
  | rulesUpdate body =>
    left
    simp only [handle, rulesUpdate] at hr
    split at hr
    · exact hsame r hr
    · exact hedit _ _ (by simp) r hr
  | rulesDelete body =>
    left
    simp only [handle, rulesDelete] at hr
    split at hr
    · exact hsame r hr
    · split at hr
      · exact hsame r hr
      · split at hr
        · exact hsame r hr
        · simp only [commitConfig_config] at hr
          exact hsame r (List.mem_filter.mp hr).1
  | rulesToggle body =>
    left
    simp only [handle, rulesToggle] at hr
    split at hr
    · exact hsame r hr
    · split at hr
      · exact hsame r hr
      · split at hr
        · exact hsame r hr
        · exact hedit _ _ (by simp) r hr

theorem identityInv_served {w : World} {saved : Bool} {req : Request} (h : IdentityInv P w)
    (heval : EvalInv (serve saved req w)) (hok : KeepsIdentity P w (.request saved req)) :
    IdentityInv P (serve saved req w) := by
  have hlog := serve_log saved req w
  -- what stood for one rule still does, unless the new rule has its id
  have hkeep : ∀ id serial, IsRule w.config.rules id serial →
      ((∃ body, req = .rulesCreate (.ok body)) → id.toNat ≠ maxRuleId w.config.rules w.log + 1) →
      IsRule (serve saved req w).config.rules id serial := by
    intro id serial his hfresh r hr hid
    rcases handle_rules saved w.nextSerial w.fwd req r hr with ⟨r₀, hr₀, hid₀, hs₀⟩ | ⟨-, hnew, hbody⟩
    · rw [← hs₀]
      exact his r₀ hr₀ (hid₀.trans hid)
    · exact absurd (hid ▸ hnew) (hfresh hbody)
  have hmax := le_maxRuleId w.config.rules w.log
  refine ⟨heval, h.sent, ?_, ?_, ?_, h.flushing⟩
  · intro r hr
    rcases handle_rules saved w.nextSerial w.fwd req r hr with ⟨r₀, hr₀, hid₀, hs₀⟩ | ⟨hs, hnew, -⟩
    · rw [← hid₀, ← hs₀]
      refine hkeep _ _ (h.rules r₀ hr₀) fun _ he => ?_
      have := hmax.1 r₀ hr₀
      omega
    · intro r' hr' hid
      rcases handle_rules saved w.nextSerial w.fwd req r' hr' with ⟨r₀, hr₀, hid₀, -⟩ | ⟨hs', -, -⟩
      · have hle := hmax.1 r₀ hr₀
        rw [hid₀, hid] at hle
        have hnew : r.id.toNat = maxRuleId w.config.rules w.log + 1 := hnew
        omega
      · rw [hs', hs]
  · intro e he hpend
    rw [hlog] at he
    refine hkeep _ _ (h.logged e he hpend) fun _ heq => ?_
    have := hmax.2 e he
    omega
  · intro x hx
    refine hkeep _ _ (h.come x hx) fun hbody => ?_
    obtain ⟨body, rfl⟩ := hbody
    exact hok x hx

/-! ## The thread's steps -/

theorem identityInv_quiet {w w' : World} (h : IdentityInv P w) (heval : EvalInv w') (hconfig : w'.config = w.config)
    (hq : Quiet P w w') : IdentityInv P w' := by
  obtain ⟨l, heff, hl⟩ := hq.effects
  refine ⟨heval, ?_, by rw [hconfig]; exact h.rules, by rw [hq.log, hconfig]; exact h.logged, ?_, ?_⟩
  · rw [heff]
    refine h.sent.append fun id maker rule ok hs => ?_
    obtain ⟨ids, hids⟩ := hl _ hs
    cases hids
  · intro x hx
    rw [hconfig]
    rcases hq.come x hx with hx | hx
    · exact h.come x hx
    · exact h.rules x.2 (List.mem_filter.mp hx).1
  · intro config held hp e he
    rcases hq.flushing config held hp with ⟨l, hold⟩ | ⟨rfl, rfl⟩
    · exact h.flushing config _ hold e (List.mem_append_right _ he)
    · obtain ⟨he, hpend⟩ := List.mem_filter.mp he
      exact h.logged e he hpend

theorem identityInv_push {w w' : World} {a : Attempt} {p : Processing} {c : Current} {rule : ForwardRule}
    {rest : List ForwardRule} {f : Forwarded} (h : IdentityInv P w) (heval : EvalInv w')
    (hp : w.pass = .processing p) (hc : p.current = some c) (hrest : c.rest = rule :: rest)
    (hf : forwardRule P c.sms rule a = some f)
    (hw' : w' = ((w.setLog (pushLog w.log f.entry)).emit f.effects).enter (.processing
      { p with current := some { c with rest := rest, allSucceeded := c.allSucceeded && f.entry.success } })) :
    IdentityInv P w' := by
  obtain ⟨happ, hrid, hmaker, hsent⟩ : applies P rule c.sms = true ∧ f.entry.ruleId = rule.id ∧
      f.entry.maker = rule.serial ∧ ∀ id maker r ok, Effect.send id maker r ok ∈ f.effects → r.serial = maker := by
    rcases forwardRule_cases P c.sms rule a with
      ⟨-, hn⟩ | ⟨e, happ, -, hrid, hmk, ⟨-, -, h'⟩ | ⟨-, -, es, hes, h'⟩ | ⟨-, -, h'⟩⟩
    · rw [hn] at hf; cases hf
    all_goals
      rw [h'] at hf; cases hf
      refine ⟨happ, hrid, hmk, ?_⟩
    · intro id maker r ok hs
      simp only [List.mem_singleton, Effect.send.injEq] at hs
      rw [hs.2.1, hs.2.2.1]
    · intro id maker r ok hs
      rcases hes with rfl | rfl
      · cases hs
      · simp only [List.mem_singleton, Effect.send.injEq] at hs
        rw [hs.2.1, hs.2.2.1]
    · intro id maker r ok hs
      simp only [List.mem_cons, reduceCtorEq, List.not_mem_nil, or_false, Effect.send.injEq] at hs
      rw [hs.2.1, hs.2.2.1]
  have hqueue : toCome P w.pass = (c.sms, rule) :: toCome P w'.pass := by
    rw [hw', hp]; exact toCome_push hc hrest happ
  have hlog : w'.log = pushLog w.log f.entry := by simp [hw']
  have hconfig : w'.config = w.config := by simp [hw']
  refine ⟨heval, ?_, by rw [hconfig]; exact h.rules, ?_, ?_, ?_⟩
  · have heff : w'.effects = w.effects ++ f.effects := by simp [hw']
    rw [heff]
    exact h.sent.append hsent
  · intro e he hpend
    rw [hlog] at he
    rw [hconfig]
    rcases mem_pushLog h.eval.capped he with he | rfl
    · exact h.logged e he hpend
    · rw [hrid, hmaker]
      exact h.come (c.sms, rule) (by rw [hqueue]; exact List.mem_cons_self ..)
  · intro x hx
    rw [hconfig]
    exact h.come x (by rw [hqueue]; exact List.mem_cons_of_mem _ hx)
  · intro config held hq
    rw [hw'] at hq
    cases hq

theorem identityInv_settle {w w' : World} {a : Attempt} {c : SmsForwardConfig} {entry : ForwardLogEntry}
    {held : List ForwardLogEntry} {o : Outcome} (h : IdentityInv P w) (heval : EvalInv w')
    (hp : w.pass = .flushing c (entry :: held)) (ho : flushOutcome c entry a = some o)
    (hw' : w' = let r := settlePending w.log entry.smsId entry.ruleId o.error o.pending a.finish.wall
      (((w.setLog r.1).saveLog a.saved).emit (o.effects ++ if r.2 then postForward c entry.smsId else [])).enter
        (.flushing c held)) : IdentityInv P w' := by
  have hlog : w'.log = updateFirst (heldAs entry.smsId entry.ruleId) (writeOutcome o.error o.pending a.finish.wall) w.log := by
    simp [hw', settlePending_log]
  have hconfig : w'.config = w.config := by simp [hw']
  have hmine := h.flushing c (entry :: held) hp
  refine ⟨heval, ?_, by rw [hconfig]; exact h.rules, ?_, by simp [hw', toCome], ?_⟩
  · rw [hw']
    simp only [enter_effects, emit_effects, saveLog_effects, setLog_effects]
    refine h.sent.append fun id maker rule ok hs => ?_
    rcases List.mem_append.mp hs with hs | hs
    · -- the rule was looked up by the entry's id, and that id is its maker's
      rcases flushOutcome_cases ho with
        ⟨r, hr, hrid, -, ⟨-, -, hes⟩ | ⟨-, -, hes⟩ | ⟨-, -, hes⟩⟩ | ⟨-, -, hes⟩ <;> rw [hes] at hs <;>
        simp only [List.mem_cons, reduceCtorEq, List.not_mem_nil, or_false, Effect.send.injEq] at hs
      all_goals
        rw [hs.2.1, hs.2.2.1]
        exact hmine entry (List.mem_cons_self ..) r hr hrid
    · split at hs
      · cases postForward_acts _ _ _ hs
      · cases hs
  · intro e he hpend
    rw [hlog] at he
    rw [hconfig]
    rcases mem_settled he with he | ⟨v, hv, hvpend, -, -, rfl⟩
    · exact h.logged e he hpend
    · exact h.logged v hv hvpend
  · intro config held' hq e he
    rw [hw'] at hq
    cases hq
    exact hmine e (List.mem_cons_of_mem _ he)

theorem identityInv_step {w : World} {e : Event} (h : IdentityInv P w) (hok : KeepsIdentity P w e) :
    IdentityInv P (step P w e) := by
  have heval := evalInv_step (P := P) h.eval e
  by_cases hreq : ∃ saved req, e = .request saved req
  · obtain ⟨saved, req, rfl⟩ := hreq
    exact identityInv_served h heval hok
  · have hconfig := move_config (step_move P w e) fun saved req he => hreq ⟨saved, req, he⟩
    have ht := move_turn h.eval (step_move P w e)
    generalize hw' : step P w e = w' at ht heval hconfig ⊢
    cases ht with
    | quiet _ hq => exact identityInv_quiet h heval hconfig hq
    | push hp hc hrest hf => exact identityInv_push h heval hp hc hrest hf rfl
    | @finishSms a p c hp hc hrest =>
      refine ⟨heval, h.sent.append ?_, h.rules, h.logged, ?_, by simp⟩
      · intro id maker rule ok hs
        split at hs
        · cases postForward_acts _ _ _ hs
        · cases hs
      · rw [enter_pass, toCome_finishSms hc hrest, ← hp]
        exact h.come
    | evaluate hp hc hm =>
      refine ⟨heval, h.sent.append (by simp), h.rules, h.logged, ?_, by simp⟩
      rw [enter_pass, toCome_evaluate hc hm, ← hp]
      exact h.come
    | settle hp ho => exact identityInv_settle h heval hp ho rfl
    | cleared saved =>
      refine ⟨heval, by simpa using h.sent, by simpa using h.rules, ?_, by simpa using h.come, by simpa using h.flushing⟩
      intro e he hpend
      simp only [saveLog_log, setLog_log] at he
      rw [hconfig]
      exact h.logged e (List.mem_filter.mp he).1 hpend

/-- In every interleaving in which no rule is created with the id of one the running pass
    still has to try, every forward goes out through the rule it was made for. -/
theorem sent_by_maker {w : World} (hw : Start w) (hids : (w.config.rules.map (·.id)).Nodup) {es : List Event}
    (hes : Along (step P) (KeepsIdentity P) w es) : SentByMaker (exec (step P) w es).effects :=
  (invariant_along (I := IdentityInv P) (fun _ _ h hok => identityInv_step h hok) (identityInv_start hw hids) hes).sent

/-! ## Two runs -/

def ownPhone : ForwardRule := ⟨1, "own phone", true, .all, .ntfy "https://ntfy.example" "own" none, 0⟩

/-- The rule is deleted and one to another address created. -/
def replaceRule : List Event :=
  [.request true (.rulesDelete (some (.obj [("id", .int 1)]))),
   .request true (.rulesCreate (.ok ⟨"team", true, .all, .webhook "https://team.example" "POST" []⟩))]

/-- A message is held for the rule; the rule is replaced before its entry is pushed or
    after, and the held message flushed. -/
def holdAndReplace (before after : List Event) : List Event :=
  [.newSms, .fetch (nvReads [receivedItem 5 "bank" "code 1234"]), sends] ++ before ++ [holds] ++ after ++
    [sends, sends, .flush, sends]

def forwardOwn : World := forwarder ⟨true, 30, false, false, [ownPhone]⟩ 4

theorem replaced_after_push :
    SentByMaker (exec (step device) forwardOwn (holdAndReplace [] replaceRule)).effects ∧
      Effect.fail 5 0 ∈ (exec (step device) forwardOwn (holdAndReplace [] replaceRule)).effects := by
  have h := sent_by_maker (forwarder_start ⟨true, 30, false, false, [ownPhone]⟩ 4) (by decide)
    (show Along (step device) (KeepsIdentity device) _ (holdAndReplace [] replaceRule) by decide +kernel)
  exact ⟨h, by decide +kernel⟩

/-- Replaced while the pass still has the deleted rule to try: the new rule gets its id
    and is sent the message held for it. -/
theorem replaced_before_push :
    ¬∀ (P : Params) (w : World) (es : List Event), Start w → (w.config.rules.map (·.id)).Nodup →
      SentByMaker (exec (step P) w es).effects := by
  intro h
  have hrun := h device forwardOwn (holdAndReplace replaceRule []) (forwarder_start ..) (by decide)
  have hsend : Effect.send 5 0 ⟨1, "team", true, .all, .webhook "https://team.example" "POST" [], 2⟩ true ∈
      (exec (step device) forwardOwn (holdAndReplace replaceRule [])).effects := by
    decide +kernel
  exact absurd (hrun 5 0 _ true hsend) (by decide)

end OpenU60.SmsForward
