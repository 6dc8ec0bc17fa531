/-
  OpenU60.SmsForward.Delivery — when an SMS may be deleted or marked read: in runs of the
  sms-events thread, only once at least one enabled rule matched it and every enabled rule
  that matched it has sent it.

  The code decides it twice, after the rule loop (every forward it tried succeeded) and
  when a held forward goes out (every entry of that SMS in the log is a success). Both
  tests miss something:
  - an SMS no rule matches passes the first one, and is deleted or marked read unforwarded;
  - a log full of kept entries, or one where the failed sibling is not kept yet, drops
    what the second one needs.
  `acts_only_on_delivered`: in every run that does neither, every action is on a message
  delivered before it.
-/

import OpenU60.SmsForward.Owed

namespace OpenU60.SmsForward

open OpenU60.Lib OpenU60.Lib.Machine OpenU60.Lib.History OpenU60.Lib.FirstMatch

def Sent (es : List Effect) (id : Nat) (rule : ForwardRule) : Prop := ∃ maker, .send id maker rule true ∈ es

variable (P : Params)

def Matched (config : SmsForwardConfig) (sms : DecodedSms) : Prop :=
  ∃ rule ∈ enabledRules config, applies P rule sms = true

/-- Some enabled rule matched the message, and each that did has sent it. -/
def Delivered (config : SmsForwardConfig) (es : List Effect) (sms : DecodedSms) : Prop :=
  Matched P config sms ∧ ∀ rule ∈ enabledRules config, applies P rule sms = true → Sent es sms.id rule

def ActsOnDelivered (config : SmsForwardConfig) : List Effect → Prop :=
  ActsGuarded fun before id => ∃ sms, sms.id = id ∧ .evaluate sms ∈ before ∧ Delivered P config before sms

/-! ## The steps that keep it -/

def Event.fromThread : Event → Bool
  | .request .. => false
  | .logClear _ => false
  | _ => true

/-- The SMS whose rules this step has all tried, with the config it was tried under. -/
def loopDone (w : World) : Event → Option (SmsForwardConfig × DecodedSms)
  | .advance _ =>
    match w.pass with
    | .processing p =>
      match p.current with
      | some c => if c.rest.isEmpty then some (p.config, c.sms) else none
      | none => none
    | _ => none
  | _ => none

/-- A step of the thread; an SMS whose loop it ends was matched, or nothing is done after
    a forward; what it drops from a full log is a success, or of a message no longer owed
    a forward. -/
def KeepsDelivery (w : World) (e : Event) : Prop :=
  e.fromThread = true ∧
    (∀ x ∈ loopDone w e, Matched P x.1 x.2 ∨ (x.1.markReadAfterForward = false ∧ x.1.deleteAfterForward = false)) ∧
    ∀ x ∈ dropped P w e, x.1.success = false → ¬Owed x.2 (toCome P w.pass).tail x.1.smsId

instance decidableKeepsDelivery (w : World) (e : Event) : Decidable (KeepsDelivery P w e) :=
  have : ∀ config sms, Decidable (Matched P config sms) := fun config sms =>
    inferInstanceAs (Decidable (∃ rule ∈ enabledRules config, applies P rule sms = true))
  inferInstanceAs (Decidable (_ ∧ _))

/-! ## The invariant -/

/-- The pass works under this config. -/
def Pass.under (config : SmsForwardConfig) : Pass → Prop
  | .processing p => p.config = config
  | .flushing c _ => c = config
  | _ => True

/-- Where a forward of a message owed one stands: sent, in the log as not sent, or to
    come. -/
structure DeliveryInv (config : SmsForwardConfig) (w : World) : Prop where
  eval : EvalInv w
  stored : w.config = config
  under : w.pass.under config
  guarded : ActsOnDelivered P config w.effects
  owed : ∀ s, .evaluate s ∈ w.effects → Owed w.log (toCome P w.pass) s.id →
    ∀ rule ∈ enabledRules config, applies P rule s = true →
      Sent w.effects s.id rule ∨ (∃ e ∈ w.log, e.smsId = s.id ∧ e.ruleId = rule.id ∧ e.success = false) ∨
        (s, rule) ∈ toCome P w.pass
  matched : ∀ e ∈ w.log, e.pending = true → ∃ s, .evaluate s ∈ w.effects ∧ s.id = e.smsId ∧ Matched P config s
  current : ∀ p c, w.pass = .processing p → p.current = some c → c.allSucceeded = true →
    ∀ rule ∈ enabledRules config, applies P rule c.sms = true → Sent w.effects c.sms.id rule ∨ rule ∈ c.rest

variable {P}
variable {config : SmsForwardConfig}

@[simp] theorem under_processing (p : Processing) : (Pass.processing p).under config ↔ p.config = config := Iff.rfl

@[simp] theorem under_flushing (c : SmsForwardConfig) (held : List ForwardLogEntry) :
    (Pass.flushing c held).under config ↔ c = config := Iff.rfl

theorem Sent.mono {es fs : List Effect} {id : Nat} {rule : ForwardRule} (h : Sent es id rule) :
    Sent (es ++ fs) id rule := by
  obtain ⟨m, hm⟩ := h
  exact ⟨m, List.mem_append_left _ hm⟩

theorem Delivered.mono {es fs : List Effect} {sms : DecodedSms} (h : Delivered P config es sms) :
    Delivered P config (es ++ fs) sms :=
  ⟨h.1, fun rule hr happ => (h.2 rule hr happ).mono⟩

theorem actsOnDelivered_post {es : List Effect} {sms : DecodedSms} (h : ActsOnDelivered P config es)
    (hev : .evaluate sms ∈ es) (hd : Delivered P config es sms) (c : SmsForwardConfig) :
    ActsOnDelivered P config (es ++ postForward c sms.id) :=
  actsGuarded_post h c sms.id fun _ _ => ⟨sms, rfl, List.mem_append_left _ hev, hd.mono⟩

theorem deliveryInv_start {w : World} (h : Start w) : DeliveryInv P w.config w where
  eval := evalInv_start h
  stored := rfl
  under := by rw [h.idle]; trivial
  guarded := by rw [h.noEffects]; exact actsGuarded_nil
  owed := by rw [h.noEffects]; intro s hs; cases hs
  matched := by
    intro e he hpend
    rw [h.noneHeld e he] at hpend; cases hpend
  current := by intro p c hp; rw [h.idle] at hp; cases hp

theorem deliveryInv_quiet {w w' : World} (h : DeliveryInv P config w) (heval : EvalInv w') (hconfig : w'.config = w.config)
    (hq : Quiet P w w') : DeliveryInv P config w' := by
  obtain ⟨l, heff, hl⟩ := hq.effects
  have hevals : ∀ s, .evaluate s ∈ w'.effects → .evaluate s ∈ w.effects :=
    fun s => mem_before heff fun hs => nomatch hl _ hs
  refine ⟨heval, hconfig.trans h.stored, ?_, ?_, ?_, ?_, ?_⟩
  · cases hp' : w'.pass with
    | idle => trivial
    | fetching => trivial
    | processing p' =>
      rcases hq.processing p' hp' with hc | ⟨p, hp, hc⟩
      · exact hc.trans h.stored
      · have hunder := h.under
        rw [hp] at hunder
        exact hc.trans hunder
    | flushing c held =>
      rcases hq.flushing c held hp' with ⟨l, hp⟩ | ⟨hc, -⟩
      · have hunder := h.under
        rwa [hp] at hunder
      · exact hc.trans h.stored
  · rw [heff]
    refine actsGuarded_quiet h.guarded fun x hx => ?_
    obtain ⟨ids, rfl⟩ := hl x hx
    rfl
  · intro s hs howed rule hr happ
    have hs := hevals s hs
    have hid : s.id ∈ evaluatedIds w.effects := mem_evaluatedIds.mpr ⟨s, hs, rfl⟩
    have howed : Owed w.log (toCome P w.pass) s.id := by
      rcases howed with ⟨e, he, hpend⟩ | ⟨x, hx, hxid⟩
      · exact Or.inl ⟨e, hq.log ▸ he, hpend⟩
      · exact Or.inr ⟨x, (hq.todo s.id hid x hxid).mp hx, hxid⟩
    rcases h.owed s hs howed rule hr happ with hsent | hin | htc
    · rw [heff]; exact Or.inl hsent.mono
    · rw [hq.log]; exact Or.inr (Or.inl hin)
    · exact Or.inr (Or.inr ((hq.todo s.id hid (s, rule) rfl).mpr htc))
  · intro e he hpend
    obtain ⟨s, hs, hid, hm⟩ := h.matched e (hq.log ▸ he) hpend
    exact ⟨s, by rw [heff]; exact List.mem_append_left _ hs, hid, hm⟩
  · intro p' c' hp' hc' hall rule hr happ
    obtain ⟨p, c, hp, hc, hsms, hsucc, hrest⟩ := hq.current p' c' hp' hc'
    rw [hsms] at happ ⊢
    rcases h.current p c hp hc (hsucc ▸ hall) rule hr happ with hsent | hin
    · rw [heff]; exact Or.inl hsent.mono
    · exact Or.inr (hrest rule hin happ)

theorem deliveryInv_push {w w' : World} {a : Attempt} {p : Processing} {c : Current} {rule : ForwardRule}
    {rest : List ForwardRule} {f : Forwarded} (h : DeliveryInv P config w) (heval : EvalInv w')
    (hp : w.pass = .processing p) (hc : p.current = some c) (hrest : c.rest = rule :: rest)
    (hf : forwardRule P c.sms rule a = some f)
    (hok : ∀ x ∈ dropped P w (.advance a), x.1.success = false → ¬Owed x.2 (toCome P w.pass).tail x.1.smsId)
    (hw' : w' = ((w.setLog (pushLog w.log f.entry)).emit f.effects).enter (.processing
      { p with current := some { c with rest := rest, allSucceeded := c.allSucceeded && f.entry.success } })) :
    DeliveryInv P config w' := by
  have hcap := h.eval.capped
  have hev : .evaluate c.sms ∈ w.effects := ((h.eval.processing p hp).current c hc).2
  have hforwards := forwardRule_forwards hf
  obtain ⟨happ, hid, hrid, hout⟩ : applies P rule c.sms = true ∧ f.entry.smsId = c.sms.id ∧ f.entry.ruleId = rule.id ∧
      ((f.entry.success = true ∧ Sent f.effects c.sms.id rule) ∨ f.entry.success = false) := by
    rcases forwardRule_cases P c.sms rule a with ⟨-, hn⟩ | ⟨e, happ, hid, hrid, -, ⟨hs, -, h'⟩ | ⟨hs, -, _, -, h'⟩ | ⟨hs, -, h'⟩⟩
    · rw [hn] at hf; cases hf
    · rw [h'] at hf; cases hf
      exact ⟨happ, hid, hrid, Or.inl ⟨hs, _, List.mem_singleton.mpr rfl⟩⟩
    all_goals
      rw [h'] at hf; cases hf
      exact ⟨happ, hid, hrid, Or.inr hs⟩
  have hqueue : toCome P w.pass = (c.sms, rule) :: toCome P w'.pass := by
    rw [hw', hp]; exact toCome_push hc hrest happ
  have hlog : w'.log = pushLog w.log f.entry := by simp [hw']
  have heff : w'.effects = w.effects ++ f.effects := by simp [hw']
  have hpush : pushed P w (.advance a) = some f.entry := pushed_eq hp hc hrest hf
  have hevals : ∀ s, .evaluate s ∈ w'.effects → .evaluate s ∈ w.effects :=
    fun s => mem_before heff fun hs => nomatch hforwards _ hs
  -- an entry not dropped, or dropped and harmless: either way it is there for who is owed
  have hkept : ∀ x, x ∈ w.log ∨ x = f.entry → x.success = false → Owed w'.log (toCome P w'.pass) x.smsId → x ∈ w'.log := by
    intro x hx hfail howed
    rw [hlog] at howed ⊢
    rcases mem_push_or_dropped hcap hpush hx with hin | hdrop
    · exact hin
    · have hnot := hok _ hdrop hfail
      simp only [hqueue, List.tail_cons] at hnot
      exact absurd howed hnot
  have hunder : p.config = config := by have := h.under; rwa [hp] at this
  refine ⟨heval, by simpa [hw'] using h.stored, by simpa [hw'] using hunder, ?_, ?_, ?_, ?_⟩
  · rw [heff]; exact actsGuarded_forwards h.guarded hforwards
  · intro s hs howed r hr happr
    have hs := hevals s hs
    have hthis : s.id = c.sms.id → s = c.sms := evaluated_unique h.eval.nodup hs hev
    have hbefore : Owed w.log (toCome P w.pass) s.id := by
      rw [hqueue]; exact owed_before_push hcap hid (hlog ▸ howed)
    rcases h.owed s hs hbefore r hr happr with hsent | ⟨e, he, heid, herid, hefail⟩ | htc
    · rw [heff]; exact Or.inl hsent.mono
    · exact Or.inr (Or.inl ⟨e, hkept e (Or.inl he) hefail (heid ▸ howed), heid, herid, hefail⟩)
    · rw [hqueue] at htc
      rcases List.mem_cons.mp htc with heq | htc
      · cases heq
        rcases hout with ⟨-, m, hm⟩ | hfail
        · exact Or.inl ⟨m, by rw [heff]; exact List.mem_append_right _ hm⟩
        · exact Or.inr (Or.inl ⟨f.entry, hkept _ (Or.inr rfl) hfail (hid.symm ▸ howed), hid, hrid, hfail⟩)
      · exact Or.inr (Or.inr htc)
  · intro e he hpend
    rw [hlog] at he
    have hmono : ∀ s, .evaluate s ∈ w.effects → .evaluate s ∈ w'.effects := by
      intro s hs; rw [heff]; exact List.mem_append_left _ hs
    rcases mem_pushLog hcap he with he | rfl
    · obtain ⟨s, hs, hsid, hm⟩ := h.matched e he hpend
      exact ⟨s, hmono s hs, hsid, hm⟩
    · have hrule := (h.eval.processing p hp).rules c hc rule (by rw [hrest]; exact List.mem_cons_self ..)
      exact ⟨c.sms, hmono _ hev, hid.symm, rule, hunder ▸ hrule, happ⟩
  · intro q d hq hd hall r hr happr
    rw [hw'] at hq
    cases hq
    cases hd
    simp only [Bool.and_eq_true] at hall
    rcases h.current p c hp hc hall.1 r hr happr with hsent | hin
    · rw [heff]; exact Or.inl hsent.mono
    · rw [hrest] at hin
      rcases List.mem_cons.mp hin with rfl | hin
      · rcases hout with ⟨-, m, hm⟩ | hfail
        · exact Or.inl ⟨m, by rw [heff]; exact List.mem_append_right _ hm⟩
        · rw [hall.2] at hfail; cases hfail
      · exact Or.inr hin

theorem deliveryInv_finishSms {w w' : World} {a : Attempt} {p : Processing} {c : Current} (h : DeliveryInv P config w)
    (heval : EvalInv w') (hp : w.pass = .processing p) (hc : p.current = some c) (hrest : c.rest = [])
    (hok : ∀ x ∈ loopDone w (.advance a), Matched P x.1 x.2 ∨ (x.1.markReadAfterForward = false ∧ x.1.deleteAfterForward = false))
    (hw' : w' = (w.emit (if c.allSucceeded then postForward p.config c.sms.id else [])).enter
      (.processing { p with maxProcessedId := max p.maxProcessedId c.sms.id, current := none })) :
    DeliveryInv P config w' := by
  have hunder : p.config = config := by have := h.under; rwa [hp] at this
  have hev : .evaluate c.sms ∈ w.effects := ((h.eval.processing p hp).current c hc).2
  have hqueue : toCome P w'.pass = toCome P w.pass := by
    rw [hw', hp]; exact toCome_finishSms hc hrest
  have hlog : w'.log = w.log := by simp [hw']
  have heff : w'.effects = w.effects ++ if c.allSucceeded then postForward p.config c.sms.id else [] := by simp [hw']
  have hguarded : ActsOnDelivered P config w'.effects := by
    rw [heff]
    cases hall : c.allSucceeded with
    | false => simpa using h.guarded
    | true =>
      have hdone := hok (p.config, c.sms) (by simp [loopDone, hp, hc, hrest])
      rcases hdone with hm | ⟨hmark, hdel⟩
      · refine actsOnDelivered_post h.guarded hev ⟨hunder ▸ hm, fun rule hr happ => ?_⟩ p.config
        rcases h.current p c hp hc hall rule hr happ with hsent | hin
        · exact hsent
        · rw [hrest] at hin; cases hin
      · have hnone : postForward p.config c.sms.id = [] := by
          simp only at hmark hdel
          simp [postForward, hmark, hdel]
        simpa [hnone] using h.guarded
  have hevals : ∀ s, .evaluate s ∈ w'.effects → .evaluate s ∈ w.effects :=
    fun s => mem_before heff fun hs => by cases acts_of_post hs
  refine ⟨heval, by simpa [hw'] using h.stored, by simpa [hw'] using hunder, hguarded, ?_, ?_, ?_⟩
  · intro s hs howed rule hr happ
    rw [hlog, hqueue] at howed ⊢
    rcases h.owed s (hevals s hs) howed rule hr happ with hsent | hother
    · rw [heff]; exact Or.inl hsent.mono
    · exact Or.inr hother
  · intro e he hpend
    obtain ⟨s, hs, hid, hm⟩ := h.matched e (hlog ▸ he) hpend
    exact ⟨s, by rw [heff]; exact List.mem_append_left _ hs, hid, hm⟩
  · intro q d hq hd
    rw [hw'] at hq
    cases hq
    cases hd

theorem deliveryInv_evaluate {w w' : World} {p : Processing} {sms : DecodedSms} {messages : List DecodedSms}
    (h : DeliveryInv P config w) (heval : EvalInv w') (hp : w.pass = .processing p) (hc : p.current = none)
    (hm : p.messages = sms :: messages)
    (hw' : w' = (w.emit [.evaluate sms]).enter
      (.processing { p with messages := messages, current := some ⟨sms, enabledRules p.config, true⟩ })) :
    DeliveryInv P config w' := by
  have hunder : p.config = config := by have := h.under; rwa [hp] at this
  have hqueue : toCome P w'.pass = toCome P w.pass := by
    rw [hw', hp]; exact toCome_evaluate hc hm
  have hlog : w'.log = w.log := by simp [hw']
  have heff : w'.effects = w.effects ++ [.evaluate sms] := by simp [hw']
  refine ⟨heval, by simpa [hw'] using h.stored, by simpa [hw'] using hunder, ?_, ?_, ?_, ?_⟩
  · rw [heff]
    refine actsGuarded_quiet h.guarded fun x hx => ?_
    rw [List.mem_singleton.mp hx]; rfl
  · intro s hs howed rule hr happ
    rw [hlog, hqueue] at howed ⊢
    rw [heff] at hs ⊢
    rcases List.mem_append.mp hs with hs | hs
    · rcases h.owed s hs howed rule hr happ with hsent | hother
      · exact Or.inl hsent.mono
      · exact Or.inr hother
    · cases List.mem_singleton.mp hs
      refine Or.inr (Or.inr ?_)
      rw [hp]
      exact mem_toCome.mpr ⟨happ, Or.inr ⟨by rw [hm]; exact List.mem_cons_self .., hunder ▸ hr⟩⟩
  · intro e he hpend
    obtain ⟨s, hs, hid, hmat⟩ := h.matched e (hlog ▸ he) hpend
    exact ⟨s, by rw [heff]; exact List.mem_append_left _ hs, hid, hmat⟩
  · intro q d hq hd _ rule hr _
    rw [hw'] at hq
    cases hq
    cases hd
    exact Or.inr (hunder ▸ hr)

theorem rule_unique (hids : (config.rules.map (·.id)).Nodup) {r r' : ForwardRule} (hr : r ∈ config.rules)
    (hr' : r' ∈ config.rules) (hid : r.id = r'.id) : r = r' :=
  List.inj_on_of_nodup_map hids hr hr' hid

theorem mem_enabledRules {rule : ForwardRule} : rule ∈ enabledRules config ↔ rule ∈ config.rules ∧ rule.enabled = true :=
  List.mem_filter

theorem deliveryInv_settle {w w' : World} {a : Attempt} {c : SmsForwardConfig} {entry : ForwardLogEntry}
    {held : List ForwardLogEntry} {o : Outcome} (h : DeliveryInv P config w)
    (hids : (config.rules.map (·.id)).Nodup) (heval : EvalInv w') (hp : w.pass = .flushing c (entry :: held))
    (ho : flushOutcome c entry a = some o)
    (hw' : w' = let r := settlePending w.log entry.smsId entry.ruleId o.error o.pending a.finish.wall
      (((w.setLog r.1).saveLog a.saved).emit (o.effects ++ if r.2 then postForward c entry.smsId else [])).enter
        (.flushing c held)) :
    DeliveryInv P config w' := by
  have hunder : c = config := by have := h.under; rwa [hp] at this
  subst hunder
  have hnone : toCome P w.pass = [] := toCome_outside (by simp [hp])
  have hnone' : toCome P w'.pass = [] := by rw [hw']; rfl
  have hlog : w'.log = updateFirst (heldAs entry.smsId entry.ruleId) (writeOutcome o.error o.pending a.finish.wall) w.log := by
    simp [hw', settlePending_log]
  set done := (settlePending w.log entry.smsId entry.ruleId o.error o.pending a.finish.wall).2 with hdone
  have heff : w'.effects = (w.effects ++ o.effects) ++ if done then postForward c entry.smsId else [] := by
    simp [hw', hdone, List.append_assoc]
  have hforwards := flushOutcome_forwards ho
  have hevals : ∀ s, .evaluate s ∈ w'.effects → .evaluate s ∈ w.effects := by
    refine fun s => mem_before (heff.trans (List.append_assoc ..)) fun hs => ?_
    rcases List.mem_append.mp hs with hs | hs
    · cases hforwards _ hs
    · cases acts_of_post hs
  -- a forward that went out was the one its rule owed
  have hsent : o.error = none → ∀ rule ∈ enabledRules c, rule.id = entry.ruleId → Sent (w.effects ++ o.effects) entry.smsId rule := by
    intro herr rule hr hrid
    rcases flushOutcome_cases ho with ⟨r, hr', hrid', -, ⟨-, -, hes⟩ | ⟨hne, -⟩ | ⟨hne, -⟩⟩ | ⟨hne, -⟩
    · have heq := rule_unique hids (mem_enabledRules.mp hr).1 hr' (hrid.trans hrid'.symm)
      subst heq
      exact ⟨entry.maker, by rw [hes]; simp⟩
    all_goals exact absurd herr hne
  have howedOf : ∀ v ∈ w.log, v.pending = true → v.smsId = entry.smsId → ∀ s, .evaluate s ∈ w.effects → s.id = entry.smsId →
      Owed w.log (toCome P w.pass) s.id := fun v hv hpend hvid s _ hsid => Or.inl ⟨v, hv, hpend, hvid.trans hsid.symm⟩
  have hguarded : ActsOnDelivered P c w'.effects := by
    rw [heff]
    have hquiet := actsGuarded_forwards h.guarded hforwards
    cases hd : done with
    | false =>
      simp only [Bool.false_eq_true, if_false, List.append_nil]
      exact hquiet
    | true =>
      obtain ⟨⟨v, hv⟩, herr, -, hall⟩ := settlePending_done (hdone ▸ hd)
      have hvlog := List.mem_of_find?_eq_some hv
      obtain ⟨hvpend, hvid, hvrid⟩ := heldAs_iff.mp (List.find?_some hv)
      obtain ⟨s, hs, hsid, hm⟩ := h.matched v hvlog hvpend
      have hse : s.id = entry.smsId := hsid.trans hvid
      rw [← hse]
      refine actsOnDelivered_post hquiet (List.mem_append_left _ hs) ⟨hm, fun rule hr happ => ?_⟩ c
      rcases h.owed s hs (howedOf v hvlog hvpend hvid s hs hse) rule hr happ with hsent' | ⟨e, he, heid, herid, hefail⟩ | htc
      · exact hsent'.mono
      · rcases mem_updateFirst_or (f := writeOutcome o.error o.pending a.finish.wall) he with hin | hfirst
        · rw [hall e hin (heid.trans hse)] at hefail; cases hefail
        · rw [hse]
          exact hsent herr rule hr (herid.symm.trans (heldAs_iff.mp (List.find?_some hfirst)).2.2)
      · rw [hnone] at htc; cases htc
  refine ⟨heval, by simpa [hw'] using h.stored, by simp [hw'], hguarded, ?_, ?_, ?_⟩
  · intro s hs howed rule hr happ
    have hs := hevals s hs
    have hbefore : Owed w.log (toCome P w.pass) s.id := by
      rw [hnone', hlog] at howed
      rw [hnone]; exact owed_before_settle howed
    rcases h.owed s hs hbefore rule hr happ with hsent' | ⟨e, he, heid, herid, hefail⟩ | htc
    · rw [heff, List.append_assoc]; exact Or.inl hsent'.mono
    · rcases mem_updateFirst_or (f := writeOutcome o.error o.pending a.finish.wall) he with hin | hfirst
      · exact Or.inr (Or.inl ⟨e, hlog ▸ hin, heid, herid, hefail⟩)
      · obtain ⟨-, hkey, hkey'⟩ := heldAs_iff.mp (List.find?_some hfirst)
        cases herr : o.error with
        | none =>
          left
          rw [heff, ← heid, hkey]
          exact (hsent herr rule hr (herid.symm.trans hkey')).mono
        | some msg =>
          have hin := mem_updateFirst_self (f := writeOutcome o.error o.pending a.finish.wall) hfirst
          rw [← hlog] at hin
          exact Or.inr (Or.inl ⟨_, hin, heid, herid, by simp [herr]⟩)
    · rw [hnone] at htc; cases htc
  · intro e he hpend
    have hmono : ∀ s, .evaluate s ∈ w.effects → .evaluate s ∈ w'.effects := by
      intro s hs; rw [heff, List.append_assoc]; exact List.mem_append_left _ hs
    rw [hlog] at he
    rcases mem_settled he with he | ⟨v, hv, hvpend, -, -, rfl⟩
    · obtain ⟨s, hs, hid, hm⟩ := h.matched e he hpend
      exact ⟨s, hmono s hs, hid, hm⟩
    · obtain ⟨s, hs, hid, hm⟩ := h.matched v hv hvpend
      exact ⟨s, hmono s hs, hid, hm⟩
  · intro q d hq
    rw [hw'] at hq
    cases hq

theorem deliveryInv_step {w : World} {e : Event} (hids : (config.rules.map (·.id)).Nodup) (h : DeliveryInv P config w)
    (hok : KeepsDelivery P w e) : DeliveryInv P config (step P w e) := by
  have heval := evalInv_step (P := P) h.eval e
  obtain ⟨hthread, hloop, hdrop⟩ := hok
  have hconfig := move_config (step_move P w e) fun _ _ he => by rw [he] at hthread; cases hthread
  have ht := move_turn h.eval (step_move P w e)
  generalize hw' : step P w e = w' at ht heval hconfig ⊢
  cases ht with
  | quiet _ hq => exact deliveryInv_quiet h heval hconfig hq
  | push hp hc hrest hf => exact deliveryInv_push h heval hp hc hrest hf hdrop rfl
  | finishSms hp hc hrest => exact deliveryInv_finishSms h heval hp hc hrest hloop rfl
  | evaluate hp hc hm => exact deliveryInv_evaluate h heval hp hc hm rfl
  | settle hp ho => exact deliveryInv_settle h hids heval hp ho rfl
  | cleared => cases hthread

/-- In a run of the thread that never drops the entry of a message still owed a forward
    and, where something is done after a forward, matches every message it puts to the
    rules, an SMS is deleted or marked read only after every enabled rule that matches it
    has sent it, and one does. -/
theorem acts_only_on_delivered {w : World} (hw : Start w) (hids : (w.config.rules.map (·.id)).Nodup) {es : List Event}
    (hes : Along (step P) (KeepsDelivery P) w es) : ActsOnDelivered P w.config (exec (step P) w es).effects :=
  (invariant_along (I := DeliveryInv P w.config) (fun _ _ h hok => deliveryInv_step hids h hok)
    (deliveryInv_start hw) hes).guarded

/-! ## Two runs -/

def bankRule : ForwardRule := ⟨1, "bank codes", true, .sender ["bank"], .ntfy "https://ntfy.example" "sms" none, 0⟩

def deleting : SmsForwardConfig := ⟨true, 30, false, true, [bankRule]⟩

def fromFriend : List Event :=
  [.newSms, .fetch (nvReads [receivedItem 5 "friend" "see you at six"]), sends, sends, sends, sends]

def fromBank : List Event :=
  [.newSms, .fetch (nvReads [receivedItem 5 "bank" "code 1234"]), sends, holds, sends, sends, .flush, sends, sends]


/-- A code held while the link is down is deleted once it is sent. -/
theorem held_code_deleted_when_sent :
    Effect.delete 5 ∈ (exec (step device) (forwarder deleting 4) fromBank).effects ∧
      ActsOnDelivered device (forwarder deleting 4).config (exec (step device) (forwarder deleting 4) fromBank).effects := by
  have h := acts_only_on_delivered (forwarder_start deleting 4) (by decide)
    (show Along (step device) (KeepsDelivery device) _ fromBank by decide +kernel)
  exact ⟨by decide +kernel, h⟩

/-- The message of a sender no rule matches is deleted without being forwarded. -/
theorem unmatched_message_deleted :
    ¬∀ (P : Params) (w : World) (es : List Event), Start w → (w.config.rules.map (·.id)).Nodup →
      (∀ e ∈ es, e.fromThread = true) → ActsOnDelivered P w.config (exec (step P) w es).effects := by
  intro h
  have hrun := h device (forwarder deleting 4) fromFriend (forwarder_start ..) (by decide) (by decide)
  have heff : (exec (step device) (forwarder deleting 4) fromFriend).effects =
      [.listed [5], .evaluate ⟨5, "friend", "see you at six", ""⟩] ++ .delete 5 :: [] := by decide +kernel
  obtain ⟨sms, -, hev, ⟨rule, hr, happ⟩, -⟩ := hrun.split heff rfl
  simp only [List.mem_cons, List.not_mem_nil, or_false, reduceCtorEq, false_or,
    Effect.evaluate.injEq] at hev
  subst hev
  have : ∀ rule ∈ enabledRules deleting, applies device rule ⟨5, "friend", "see you at six", ""⟩ = false := by decide
  rw [this rule hr] at happ
  cases happ

end OpenU60.SmsForward
