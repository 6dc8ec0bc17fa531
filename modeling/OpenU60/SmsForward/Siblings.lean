/-
  OpenU60.SmsForward.Siblings — a failed forward keeps its SMS: once one rule's forward of
  an SMS is settled as failed, no later success of another rule's deletes it or marks it
  read, in any interleaving of the thread with the handlers.

  The failed forward is remembered by its log entry alone. Clearing and trimming keep it
  while a sibling is held, but not while a sibling is still to be tried: a clear between
  the failed push and the held one forgets it, and so does a push that finds nothing else
  to drop. A log full of kept entries drops its first, which can be it too.
  `never_acts_on_failed`: in every run where no clear and no push forgets the failure of a
  message still owed a forward, no action follows a failure.
-/

import OpenU60.SmsForward.Owed

namespace OpenU60.SmsForward

open OpenU60.Lib OpenU60.Lib.Machine OpenU60.Lib.FirstMatch

/-- No action on a message after one of its forwards was settled as failed. -/
def NeverActsOnFailed : List Effect → Prop := ActsGuarded fun before id => ∀ maker, .fail id maker ∉ before

def settledFailure (e : ForwardLogEntry) : Bool := !e.success && !e.pending

variable (P : Params)

/-- What a push drops is no settled failure, or not the last one of its message, or of a
    message no longer owed a forward; a clear comes when no message with an unprotected
    failure has a rule still to be tried. -/
def KeepsFailures (w : World) (e : Event) : Prop :=
  (∀ x ∈ dropped P w e, settledFailure x.1 = true →
    (∃ y ∈ x.2, y.smsId = x.1.smsId ∧ settledFailure y = true) ∨ ¬Owed x.2 (toCome P w.pass).tail x.1.smsId) ∧
    match e with
    | .logClear _ => ∀ y ∈ w.log, settledFailure y = true → (∃ x ∈ toCome P w.pass, x.1.id = y.smsId) →
        ∃ z ∈ w.log, z.pending = true ∧ z.smsId = y.smsId
    | _ => True

instance decidableKeepsFailures (w : World) : ∀ e : Event, Decidable (KeepsFailures P w e)
  | .poll .. => inferInstanceAs (Decidable (_ ∧ True))
  | .newSms => inferInstanceAs (Decidable (_ ∧ True))
  | .fetch _ => inferInstanceAs (Decidable (_ ∧ True))
  | .flush => inferInstanceAs (Decidable (_ ∧ True))
  | .advance _ => inferInstanceAs (Decidable (_ ∧ True))
  | .request .. => inferInstanceAs (Decidable (_ ∧ True))
  | .logClear _ => inferInstanceAs (Decidable (_ ∧ ∀ y ∈ w.log, _ → _ → ∃ z ∈ w.log, _))

/-- The held entries a flush works through that have this key. -/
def sameKey (id : Nat) (ruleId : UInt32) (e : ForwardLogEntry) : Bool := e.smsId == id && e.ruleId == ruleId

/-- A failure is in the log as long as its message is owed a forward; a flush finds each
    of its entries still held. -/
structure FailureInv (w : World) : Prop where
  eval : EvalInv w
  guarded : NeverActsOnFailed w.effects
  known : ∀ id maker, .fail id maker ∈ w.effects → id ∈ evaluatedIds w.effects
  remembered : ∀ id maker, .fail id maker ∈ w.effects → Owed w.log (toCome P w.pass) id →
    ∃ e ∈ w.log, e.smsId = id ∧ settledFailure e = true
  current : ∀ p c, w.pass = .processing p → p.current = some c → c.allSucceeded = true →
    ∀ maker, .fail c.sms.id maker ∉ w.effects
  flushing : ∀ config held, w.pass = .flushing config held →
    ∀ id ruleId, held.countP (sameKey id ruleId) ≤ w.log.countP (heldAs id ruleId)

variable {P}

theorem settledFailure_iff {e : ForwardLogEntry} : settledFailure e = true ↔ e.success = false ∧ e.pending = false := by
  simp [settledFailure]

theorem failureInv_start {w : World} (h : Start w) : FailureInv P w where
  eval := evalInv_start h
  guarded := by rw [h.noEffects]; exact actsGuarded_nil
  known := by rw [h.noEffects]; intro _ _ hf; cases hf
  remembered := by rw [h.noEffects]; intro _ _ hf; cases hf
  current := by intro p c hp; rw [h.idle] at hp; cases hp
  flushing := by intro config held hp; rw [h.idle] at hp; cases hp

theorem countP_held (log : List ForwardLogEntry) (id : Nat) (ruleId : UInt32) :
    (log.filter (·.pending)).countP (sameKey id ruleId) = log.countP (heldAs id ruleId) := by
  rw [List.countP_filter]
  refine List.countP_congr fun e _ => ?_
  simp only [sameKey, heldAs, Bool.and_eq_true]
  tauto

theorem failureInv_quiet {w w' : World} (h : FailureInv P w) (heval : EvalInv w') (hq : Quiet P w w') :
    FailureInv P w' := by
  obtain ⟨l, heff, hl⟩ := hq.effects
  have hfails : ∀ id maker, .fail id maker ∈ w'.effects → .fail id maker ∈ w.effects :=
    fun id maker => mem_before heff fun hf => nomatch hl _ hf
  have hknown : ∀ id maker, .fail id maker ∈ w'.effects → id ∈ evaluatedIds w.effects := fun id maker hf =>
    h.known id maker (hfails id maker hf)
  refine ⟨heval, ?_, ?_, ?_, ?_, ?_⟩
  · rw [heff]
    refine actsGuarded_quiet h.guarded fun x hx => ?_
    obtain ⟨ids, rfl⟩ := hl x hx
    rfl
  · intro id maker hf
    rw [heff, evaluatedIds_append]
    exact List.mem_append_left _ (hknown id maker hf)
  · intro id maker hf howed
    have howed : Owed w.log (toCome P w.pass) id := by
      rcases howed with ⟨e, he, hpend⟩ | ⟨x, hx, hxid⟩
      · exact Or.inl ⟨e, hq.log ▸ he, hpend⟩
      · exact Or.inr ⟨x, (hq.todo id (hknown id maker hf) x hxid).mp hx, hxid⟩
    rw [hq.log]
    exact h.remembered id maker (hfails id maker hf) howed
  · intro p' c' hp' hc' hall maker hf
    obtain ⟨p, c, hp, hc, hsms, hsucc, -⟩ := hq.current p' c' hp' hc'
    rw [hsms] at hf
    exact h.current p c hp hc (hsucc ▸ hall) maker (hfails _ maker hf)
  · intro config held hp' id ruleId
    rw [hq.log]
    rcases hq.flushing config held hp' with ⟨l, hp⟩ | ⟨-, rfl⟩
    · have := h.flushing config (l ++ held) hp id ruleId
      rw [List.countP_append] at this
      omega
    · rw [countP_held]

theorem failureInv_push {w w' : World} {a : Attempt} {p : Processing} {c : Current} {rule : ForwardRule}
    {rest : List ForwardRule} {f : Forwarded} (h : FailureInv P w) (heval : EvalInv w')
    (hp : w.pass = .processing p) (hc : p.current = some c) (hrest : c.rest = rule :: rest)
    (hf : forwardRule P c.sms rule a = some f)
    (hok : ∀ x ∈ dropped P w (.advance a), settledFailure x.1 = true →
      (∃ y ∈ x.2, y.smsId = x.1.smsId ∧ settledFailure y = true) ∨ ¬Owed x.2 (toCome P w.pass).tail x.1.smsId)
    (hw' : w' = ((w.setLog (pushLog w.log f.entry)).emit f.effects).enter (.processing
      { p with current := some { c with rest := rest, allSucceeded := c.allSucceeded && f.entry.success } })) :
    FailureInv P w' := by
  have hcap := h.eval.capped
  have hev : c.sms.id ∈ evaluatedIds w.effects := mem_evaluatedIds.mpr ⟨c.sms, ((h.eval.processing p hp).current c hc).2, rfl⟩
  have hforwards := forwardRule_forwards hf
  -- a failure on record is the entry's, and then the entry is one
  obtain ⟨happ, hid, hout⟩ : applies P rule c.sms = true ∧ f.entry.smsId = c.sms.id ∧
      ((∀ id maker, .fail id maker ∉ f.effects) ∨
        (f.entry.success = false ∧ settledFailure f.entry = true ∧ ∀ id maker, .fail id maker ∈ f.effects → id = c.sms.id)) := by
    rcases forwardRule_cases P c.sms rule a with
      ⟨-, hn⟩ | ⟨e, happ, hid, -, -, ⟨-, -, h'⟩ | ⟨-, -, es, hes, h'⟩ | ⟨hs, hpd, h'⟩⟩
    · rw [hn] at hf; cases hf
    all_goals
      rw [h'] at hf; cases hf
    · exact ⟨happ, hid, Or.inl (by simp)⟩
    · refine ⟨happ, hid, Or.inl ?_⟩
      rcases hes with rfl | rfl <;> simp
    · refine ⟨happ, hid, Or.inr ⟨hs, settledFailure_iff.mpr ⟨hs, hpd⟩, ?_⟩⟩
      intro id maker hin
      simp only [List.mem_cons, reduceCtorEq, List.not_mem_nil, or_false, false_or, Effect.fail.injEq] at hin
      exact hin.1
  have hqueue : toCome P w.pass = (c.sms, rule) :: toCome P w'.pass := by
    rw [hw', hp]; exact toCome_push hc hrest happ
  have hlog : w'.log = pushLog w.log f.entry := by simp [hw']
  have heff : w'.effects = w.effects ++ f.effects := by simp [hw']
  have hpush : pushed P w (.advance a) = some f.entry := pushed_eq hp hc hrest hf
  -- a failure stays in the log, or another of its message does
  have hkept : ∀ x, x ∈ w.log ∨ x = f.entry → settledFailure x = true → Owed w'.log (toCome P w'.pass) x.smsId →
      ∃ y ∈ w'.log, y.smsId = x.smsId ∧ settledFailure y = true := by
    intro x hx hfail howed
    rw [hlog] at howed ⊢
    rcases mem_push_or_dropped hcap hpush hx with hin | hdrop
    · exact ⟨x, hin, rfl, hfail⟩
    · have hdropped := hok _ hdrop hfail
      simp only [hqueue, List.tail_cons] at hdropped
      rcases hdropped with hother | hnot
      · exact hother
      · exact absurd howed hnot
  refine ⟨heval, ?_, ?_, ?_, ?_, ?_⟩
  · rw [heff]; exact actsGuarded_forwards h.guarded hforwards
  · intro id maker hfail
    rw [heff, evaluatedIds_append]
    rw [heff] at hfail
    refine List.mem_append_left _ ?_
    rcases List.mem_append.mp hfail with hfail | hfail
    · exact h.known id maker hfail
    · rcases hout with hno | ⟨-, -, hsame⟩
      · exact absurd hfail (hno id maker)
      · rw [hsame id maker hfail]; exact hev
  · intro id maker hfail howed
    rw [heff] at hfail
    rcases List.mem_append.mp hfail with hfail | hfail
    · have hbefore : Owed w.log (toCome P w.pass) id := by
        rw [hqueue]; exact owed_before_push hcap hid (hlog ▸ howed)
      obtain ⟨e, he, rfl, hefail⟩ := h.remembered id maker hfail hbefore
      exact hkept e (Or.inl he) hefail howed
    · rcases hout with hno | ⟨-, hentry, hsame⟩
      · exact absurd hfail (hno id maker)
      · have hsms := hsame id maker hfail
        rw [← hid] at hsms
        obtain ⟨y, hy, hyid, hyfail⟩ := hkept f.entry (Or.inr rfl) hentry (hsms ▸ howed)
        exact ⟨y, hy, hyid.trans hsms.symm, hyfail⟩
  · intro q d hq hd hall maker hfail
    rw [hw'] at hq
    cases hq
    cases hd
    simp only [Bool.and_eq_true] at hall
    rw [heff] at hfail
    rcases List.mem_append.mp hfail with hfail | hfail
    · exact h.current p c hp hc hall.1 maker hfail
    · rcases hout with hno | ⟨hs, -, -⟩
      · exact hno _ maker hfail
      · rw [hall.2] at hs; cases hs
  · intro config held hq
    rw [hw'] at hq
    cases hq

theorem failureInv_finishSms {w w' : World} {p : Processing} {c : Current} (h : FailureInv P w) (heval : EvalInv w')
    (hp : w.pass = .processing p) (hc : p.current = some c) (hrest : c.rest = [])
    (hw' : w' = (w.emit (if c.allSucceeded then postForward p.config c.sms.id else [])).enter
      (.processing { p with maxProcessedId := max p.maxProcessedId c.sms.id, current := none })) : FailureInv P w' := by
  have hqueue : toCome P w'.pass = toCome P w.pass := by
    rw [hw', hp]; exact toCome_finishSms hc hrest
  have hlog : w'.log = w.log := by simp [hw']
  have heff : w'.effects = w.effects ++ if c.allSucceeded then postForward p.config c.sms.id else [] := by simp [hw']
  have hfails : ∀ id maker, .fail id maker ∈ w'.effects → .fail id maker ∈ w.effects :=
    fun id maker => mem_before heff fun hf => nomatch acts_of_post hf
  refine ⟨heval, ?_, ?_, ?_, ?_, ?_⟩
  · rw [heff]
    cases hall : c.allSucceeded with
    | false => simpa using h.guarded
    | true =>
      refine actsGuarded_post h.guarded p.config c.sms.id fun fs hfs maker hf => ?_
      rcases List.mem_append.mp hf with hf | hf
      · exact h.current p c hp hc hall maker hf
      · cases hfs _ hf
  · intro id maker hf
    rw [heff, evaluatedIds_append]
    exact List.mem_append_left _ (h.known id maker (hfails id maker hf))
  · intro id maker hf howed
    rw [hlog, hqueue] at howed
    rw [hlog]
    exact h.remembered id maker (hfails id maker hf) howed
  · intro q d hq hd
    rw [hw'] at hq
    cases hq
    cases hd
  · intro config held hq
    rw [hw'] at hq
    cases hq

theorem failureInv_evaluate {w w' : World} {p : Processing} {sms : DecodedSms} {messages : List DecodedSms}
    (h : FailureInv P w) (heval : EvalInv w') (hp : w.pass = .processing p) (hc : p.current = none)
    (hm : p.messages = sms :: messages)
    (hw' : w' = (w.emit [.evaluate sms]).enter
      (.processing { p with messages := messages, current := some ⟨sms, enabledRules p.config, true⟩ })) :
    FailureInv P w' := by
  have hqueue : toCome P w'.pass = toCome P w.pass := by
    rw [hw', hp]; exact toCome_evaluate hc hm
  have hlog : w'.log = w.log := by simp [hw']
  have heff : w'.effects = w.effects ++ [.evaluate sms] := by simp [hw']
  have hfails : ∀ id maker, .fail id maker ∈ w'.effects → .fail id maker ∈ w.effects := by
    intro id maker hf
    rw [heff] at hf
    simpa using hf
  refine ⟨heval, ?_, ?_, ?_, ?_, ?_⟩
  · rw [heff]
    refine actsGuarded_quiet h.guarded fun x hx => ?_
    rw [List.mem_singleton.mp hx]; rfl
  · intro id maker hf
    rw [heff, evaluatedIds_append]
    exact List.mem_append_left _ (h.known id maker (hfails id maker hf))
  · intro id maker hf howed
    rw [hlog, hqueue] at howed
    rw [hlog]
    exact h.remembered id maker (hfails id maker hf) howed
  · intro q d hq hd _ maker hf
    rw [hw'] at hq
    cases hq
    cases hd
    -- the message is new, so no forward of it has been settled
    have hknown := h.known sms.id maker (hfails sms.id maker hf)
    have := h.eval.next_newer hp hm sms.id hknown
    omega
  · intro config held hq
    rw [hw'] at hq
    cases hq

theorem failureInv_settle {w w' : World} {a : Attempt} {c : SmsForwardConfig} {entry : ForwardLogEntry}
    {held : List ForwardLogEntry} {o : Outcome} (h : FailureInv P w) (heval : EvalInv w')
    (hp : w.pass = .flushing c (entry :: held)) (ho : flushOutcome c entry a = some o)
    (hw' : w' = let r := settlePending w.log entry.smsId entry.ruleId o.error o.pending a.finish.wall
      (((w.setLog r.1).saveLog a.saved).emit (o.effects ++ if r.2 then postForward c entry.smsId else [])).enter
        (.flushing c held)) : FailureInv P w' := by
  set write := writeOutcome o.error o.pending a.finish.wall with hwrite
  have hnone : toCome P w.pass = [] := toCome_outside (by simp [hp])
  have hnone' : toCome P w'.pass = [] := by rw [hw']; rfl
  have hlog : w'.log = updateFirst (heldAs entry.smsId entry.ruleId) write w.log := by simp [hw', settlePending_log, hwrite]
  set done := (settlePending w.log entry.smsId entry.ruleId o.error o.pending a.finish.wall).2 with hdone
  have heff : w'.effects = (w.effects ++ o.effects) ++ if done then postForward c entry.smsId else [] := by
    simp [hw', hdone, List.append_assoc]
  have hforwards := flushOutcome_forwards ho
  -- a failure put on record is the entry's, and is written to it
  have hfail : ∀ id maker, .fail id maker ∈ o.effects → id = entry.smsId ∧ o.error ≠ none ∧ o.pending = false := by
    intro id maker hf
    rcases flushOutcome_cases ho with
      ⟨r, -, -, -, ⟨-, -, hes⟩ | ⟨-, -, hes⟩ | ⟨hne, hpd, hes⟩⟩ | ⟨hne, hpd, hes⟩ <;> rw [hes] at hf <;>
      simp only [List.mem_cons, reduceCtorEq, List.not_mem_nil, or_false, false_or, Effect.fail.injEq] at hf
    all_goals exact ⟨hf.1, hne, hpd⟩
  -- the entry is still held in the log
  have hfound : ∃ v, w.log.find? (heldAs entry.smsId entry.ruleId) = some v := by
    have hcount := h.flushing c (entry :: held) hp entry.smsId entry.ruleId
    have hpos : 0 < w.log.countP (heldAs entry.smsId entry.ruleId) := by
      rw [List.countP_cons_of_pos (by simp [sameKey])] at hcount
      omega
    obtain ⟨v, hv, hheld⟩ := List.countP_pos_iff.mp hpos
    cases hf : w.log.find? (heldAs entry.smsId entry.ruleId) with
    | some v => exact ⟨v, rfl⟩
    | none => exact absurd hheld (List.find?_eq_none.mp hf v hv)
  have hstays : ∀ e ∈ w.log, settledFailure e = true → e ∈ w'.log := by
    intro e he hef
    rw [hlog]
    refine mem_updateFirst_of_not he ?_
    simp [heldAs, (settledFailure_iff.mp hef).2]
  refine ⟨heval, ?_, ?_, ?_, ?_, ?_⟩
  · rw [heff]
    have hquiet := actsGuarded_forwards h.guarded hforwards
    cases hd : done with
    | false =>
      simp only [Bool.false_eq_true, if_false, List.append_nil]
      exact hquiet
    | true =>
      obtain ⟨⟨v, hv⟩, herr, -, hall⟩ := settlePending_done (hdone ▸ hd)
      obtain ⟨hvpend, hvid, -⟩ := heldAs_iff.mp (List.find?_some hv)
      refine actsGuarded_post hquiet c entry.smsId fun fs hfs maker hf => ?_
      rcases List.mem_append.mp hf with hf | hf
      · rcases List.mem_append.mp hf with hf | hf
        · obtain ⟨e, he, heid, hef⟩ := h.remembered _ maker hf (Or.inl ⟨v, List.mem_of_find?_eq_some hv, hvpend, hvid⟩)
          have hsucc := hall e (hlog ▸ hstays e he hef) heid
          rw [(settledFailure_iff.mp hef).1] at hsucc
          cases hsucc
        · exact (hfail _ maker hf).2.1 herr
      · cases hfs _ hf
  · intro id maker hf
    rw [heff, List.append_assoc, evaluatedIds_append]
    refine List.mem_append_left _ ?_
    rw [heff] at hf
    rcases List.mem_append.mp hf with hf | hf
    · rcases List.mem_append.mp hf with hf | hf
      · exact h.known id maker hf
      · obtain ⟨v, hv⟩ := hfound
        obtain ⟨hvpend, hvid, -⟩ := heldAs_iff.mp (List.find?_some hv)
        rw [(hfail id maker hf).1, ← hvid]
        exact h.eval.held v (List.mem_of_find?_eq_some hv) hvpend
    · cases acts_of_post hf
  · intro id maker hf howed
    rw [hnone', hlog] at howed
    have hbefore : Owed w.log (toCome P w.pass) id := by rw [hnone]; exact owed_before_settle howed
    rw [heff] at hf
    rcases List.mem_append.mp hf with hf | hf
    · rcases List.mem_append.mp hf with hf | hf
      · obtain ⟨e, he, heid, hef⟩ := h.remembered id maker hf hbefore
        exact ⟨e, hstays e he hef, heid, hef⟩
      · obtain ⟨rfl, hne, hpd⟩ := hfail id maker hf
        obtain ⟨v, hv⟩ := hfound
        obtain ⟨-, hvid, -⟩ := heldAs_iff.mp (List.find?_some hv)
        refine ⟨write v, hlog ▸ mem_updateFirst_self hv, hvid, settledFailure_iff.mpr ⟨?_, hpd⟩⟩
        simpa [hwrite] using Option.ne_none_iff_isSome.mp hne
    · cases acts_of_post hf
  · intro q d hq
    rw [hw'] at hq
    cases hq
  · intro config held' hq id ruleId
    rw [hw'] at hq
    cases hq
    have hcount := h.flushing c (entry :: held) hp id ruleId
    rw [List.countP_cons] at hcount
    rw [hlog]
    by_cases hkey : sameKey id ruleId entry = true
    · have := countP_updateFirst_le (heldAs entry.smsId entry.ruleId) (heldAs id ruleId) write w.log
      rw [if_pos hkey] at hcount
      omega
    · -- another key: the update leaves its entries alone
      rw [countP_updateFirst_eq]
      · omega
      · intro v hv
        obtain ⟨-, hvid, hvrid⟩ := heldAs_iff.mp hv
        have hno : ¬(v.smsId = id ∧ v.ruleId = ruleId) := by
          rintro ⟨rfl, rfl⟩
          exact hkey (by simp [sameKey, hvid, hvrid])
        simp only [heldAs, hwrite, writeOutcome_smsId, writeOutcome_ruleId]
        by_cases hid : v.smsId = id
        · have hrid : (v.ruleId == ruleId) = false := by simpa using fun e => hno ⟨hid, e⟩
          simp [hrid]
        · have hid : (v.smsId == id) = false := by simpa using hid
          simp [hid]

theorem failureInv_cleared {w : World} {saved : Bool} (h : FailureInv P w)
    (heval : EvalInv ((w.setLog (clearLog w.log)).saveLog saved))
    (hok : ∀ y ∈ w.log, settledFailure y = true → (∃ x ∈ toCome P w.pass, x.1.id = y.smsId) →
      ∃ z ∈ w.log, z.pending = true ∧ z.smsId = y.smsId) :
    FailureInv P ((w.setLog (clearLog w.log)).saveLog saved) := by
  refine ⟨heval, by simpa using h.guarded, by simpa using h.known, ?_, by simpa using h.current, ?_⟩
  · intro id maker hf howed
    simp only [saveLog_effects, setLog_effects, saveLog_log, setLog_log, saveLog_pass, setLog_pass] at hf howed ⊢
    have hbefore : Owed w.log (toCome P w.pass) id := by
      rcases howed with ⟨e, he, hpend⟩ | htodo
      · exact Or.inl ⟨e, (List.mem_filter.mp he).1, hpend⟩
      · exact Or.inr htodo
    obtain ⟨e, he, heid, hef⟩ := h.remembered id maker hf hbefore
    have hheld : ∃ z ∈ w.log, z.pending = true ∧ z.smsId = e.smsId := by
      rcases hbefore with ⟨z, hz, hpend, hzid⟩ | ⟨x, hx, hxid⟩
      · exact ⟨z, hz, hpend, hzid.trans heid.symm⟩
      · exact hok e he hef ⟨x, hx, hxid.trans heid.symm⟩
    obtain ⟨z, hz, hzpend, hzid⟩ := hheld
    refine ⟨e, List.mem_filter.mpr ⟨he, ?_⟩, heid, hef⟩
    have hin : e.smsId ∈ heldIds w.log := List.mem_map.mpr ⟨z, List.mem_filter.mpr ⟨hz, hzpend⟩, hzid⟩
    simp [keepEntry, (settledFailure_iff.mp hef).1, hin]
  · intro config held hp id ruleId
    have hcount := h.flushing config held (by simpa using hp) id ruleId
    have hkeep : (clearLog w.log).countP (heldAs id ruleId) = w.log.countP (heldAs id ruleId) := by
      unfold clearLog
      rw [List.countP_filter]
      refine List.countP_congr fun e _ => ?_
      simp only [Bool.and_eq_true, and_iff_left_iff_imp]
      intro he
      simp [keepEntry, (heldAs_iff.mp he).1]
    simpa [hkeep] using hcount

theorem failureInv_step {w : World} {e : Event} (h : FailureInv P w) (hok : KeepsFailures P w e) :
    FailureInv P (step P w e) := by
  have heval := evalInv_step (P := P) h.eval e
  have ht := move_turn h.eval (step_move P w e)
  obtain ⟨hdrop, hclear⟩ := hok
  generalize hw' : step P w e = w' at ht heval ⊢
  cases ht with
  | quiet _ hq => exact failureInv_quiet h heval hq
  | push hp hc hrest hf => exact failureInv_push h heval hp hc hrest hf hdrop rfl
  | finishSms hp hc hrest => exact failureInv_finishSms h heval hp hc hrest rfl
  | evaluate hp hc hm => exact failureInv_evaluate h heval hp hc hm rfl
  | settle hp ho => exact failureInv_settle h heval hp ho rfl
  | cleared saved => exact failureInv_cleared h heval hclear

/-- In every interleaving of the thread with the handlers in which no clear and no push
    forgets the failure of a message still owed a forward, no message is deleted or marked
    read after one of its forwards failed. -/
theorem never_acts_on_failed {w : World} (hw : Start w) {es : List Event}
    (hes : Along (step P) (KeepsFailures P) w es) : NeverActsOnFailed (exec (step P) w es).effects :=
  (invariant_along (I := FailureInv P) (fun _ _ h hok => failureInv_step h hok) (failureInv_start hw) hes).guarded

/-! ## Two runs -/

/-- Every message goes to two rules, and is deleted afterwards. -/
def twoRules : SmsForwardConfig :=
  ⟨true, 30, false, true,
    [⟨1, "webhook", true, .all, .webhook "https://hook.example" "POST" [], 0⟩,
     ⟨2, "push", true, .all, .ntfy "https://ntfy.example" "sms" none, 1⟩]⟩

/-- The first rule fails, the second is held; `early` clears the log between the two,
    `late` after both. Then the held one goes out. -/
def failThenHold (early late : List Event) : List Event :=
  [.newSms, .fetch (nvReads [receivedItem 5 "bank" "code 1234"]), sends, fails] ++ early ++ [holds] ++ late ++
    [sends, sends, .flush, sends]

theorem late_clear_keeps_message :
    NeverActsOnFailed (exec (step device) (forwarder twoRules 4) (failThenHold [] [.logClear true])).effects ∧
      Effect.send 5 1 ⟨2, "push", true, .all, .ntfy "https://ntfy.example" "sms" none, 1⟩ true ∈
        (exec (step device) (forwarder twoRules 4) (failThenHold [] [.logClear true])).effects := by
  have h := never_acts_on_failed (forwarder_start twoRules 4)
    (show Along (step device) (KeepsFailures device) _ (failThenHold [] [.logClear true]) by decide +kernel)
  exact ⟨h, by decide +kernel⟩

/-- Clearing the log after the first rule failed and before the second is held: the
    message is deleted when the second goes out. -/
theorem early_clear_deletes_message :
    ¬∀ (P : Params) (w : World) (es : List Event), Start w → NeverActsOnFailed (exec (step P) w es).effects := by
  intro h
  have hrun := h device (forwarder twoRules 4) (failThenHold [.logClear true] []) (forwarder_start ..)
  have hlast : (exec (step device) (forwarder twoRules 4) (failThenHold [.logClear true] [])).effects =
      (exec (step device) (forwarder twoRules 4) (failThenHold [.logClear true] [])).effects.dropLast ++ .delete 5 :: [] := by
    decide +kernel
  have hfail : Effect.fail 5 0 ∈
      (exec (step device) (forwarder twoRules 4) (failThenHold [.logClear true] [])).effects.dropLast := by
    decide +kernel
  exact hrun.split hlast rfl 0 hfail

end OpenU60.SmsForward
