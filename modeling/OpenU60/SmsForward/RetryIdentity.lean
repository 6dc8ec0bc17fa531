/-
  OpenU60.SmsForward.RetryIdentity — which entry a retry sends, and whose outcome it writes.

  `Lawful` is the law of a forward and of a write: a page's retry forwards the message of an entry with
  its button's key, taken while it was failed and not held, that no retry had sent by then, through
  a rule with its id; and the outcome goes to the entry taken, if to any.
  - `steady_retries_are_lawful`: it holds along every run whose steps are `Steady`. Pages send an index alone, so the
    log must not move it between the read and the take; two retries of one entry must not overlap
    where one has been accepted; and entries that share a key must not mix up an outcome.
  - `retries_go_astray`: a push shifts the index and another message goes out; two retries of one entry
    overlap, the later outcome is lost and the message goes out a third time; and an outcome lands on
    the older of two entries with one key.
-/

import OpenU60.Lib.Machine
import OpenU60.SmsForward.Retry

namespace OpenU60.SmsForward.Retry

open OpenU60.Lib.Machine OpenU60.Lib.FirstMatch

/-! ## The law -/

/-- A retry of the entry was accepted and has yet to write so. -/
def Call.awaits (m : Nat) : Call → Bool
  | .sent t (.ok ()) => t.entry.maker == m
  | _ => false

def Lawful (w : World) : Event → Prop
  | .send i _ =>
    match w.calls[i]? with
    | some (.looked t rule rules) => ∀ fp ∈ t.page,
      t.entry ∈ t.log ∧ fp.same t.entry = true ∧ t.entry.success = false ∧ t.entry.pending = false ∧
        rule ∈ rules ∧ rule.id.toNat = fp.ruleId ∧ t.entry.maker ∉ t.delivered
    | _ => True
  | .write i now =>
    match w.calls[i]? with
    | some (.sent t _) => ∀ e ∈ w.log, e.maker ≠ t.entry.maker → e ∈ (w.step (.write i now)).log
    | _ => True
  | _ => True

def Steady (w : World) : Event → Prop
  -- what stands at the index is refused, or has the key read there and no acceptance to be written
  | .take i =>
    match w.calls[i]? with
    | some (.asks (some (_, read)) request) =>
      match checkedRetryTarget w.log request.index request.expected with
      | .ok e => read[request.index]?.any (·.identity = e.identity) = true ∧ ∀ c ∈ w.calls, c.awaits e.maker = false
      | .error _ => True
    | _ => True
  -- the first failed entry with the key taken is the one taken, and if accepted it was not dated anew
  | .write i _ =>
    match w.calls[i]? with
    | some (.sent t result) => (∀ e ∈ w.log.find? (retriedAs t.entry), e.maker = t.entry.maker) ∧
      (result.isOk = true → ∀ e ∈ w.log, e.maker = t.entry.maker → e.success = true ∨ e.timestamp = t.entry.timestamp)
    | _ => True
  | _ => True

instance (w : World) (event : Event) : Decidable (Lawful w event) := by
  unfold Lawful
  split
  · split <;> infer_instance
  · split <;> infer_instance
  · infer_instance

instance (w : World) (event : Event) : Decidable (Steady w event) := by
  unfold Steady
  split
  · split
    · split <;> infer_instance
    · infer_instance
  · split <;> infer_instance
  · infer_instance

/-! ## Every state of a run -/

/-- What a taken entry has in common with the log's. -/
def Taken.Fits (t : Taken) (log : List ForwardLogEntry) (filed : Nat) : Prop :=
  t.entry.maker < filed ∧
    ∀ e ∈ log, e.maker = t.entry.maker → e.smsId = t.entry.smsId ∧ e.ruleId = t.entry.ruleId ∧ e.pending = false

def Taken.Right (t : Taken) : Prop := ∀ fp ∈ t.page,
  t.entry ∈ t.log ∧ fp.same t.entry = true ∧ t.entry.success = false ∧ t.entry.pending = false ∧ t.entry.maker ∉ t.delivered

def Call.Fits (log : List ForwardLogEntry) (filed : Nat) : Call → Prop
  | .asks page request => ∀ p ∈ page, ∃ e, p.2[request.index]? = some e ∧ p.1.same e = true
  | .took t _ => t.Fits log filed ∧ t.Right
  | .looked t rule rules => t.Fits log filed ∧ t.Right ∧ rule ∈ rules ∧ rule.id = t.entry.ruleId
  | .sent t _ => t.Fits log filed
  | _ => True

structure Inv (w : World) : Prop where
  makers : (w.log.map (·.maker)).Nodup
  filed : ∀ e ∈ w.log, e.maker < w.filed
  calls : ∀ c ∈ w.calls, c.Fits w.log w.filed
  /-- What was accepted has succeeded in the log, or the retry has yet to write so. -/
  delivered : ∀ m ∈ w.delivered, m < w.filed ∧
    ((∀ e ∈ w.log, e.maker = m → e.success = true ∧ e.pending = false) ∨ ∃ c ∈ w.calls, c.awaits m = true)

/-- How a log may change: an entry that was not held stays so, and stays a success if it was one. -/
def Ages (log log' : List ForwardLogEntry) (filed : Nat) : Prop := ∀ e' ∈ log', e'.maker < filed → ∃ e ∈ log,
  e'.maker = e.maker ∧ e'.smsId = e.smsId ∧ e'.ruleId = e.ruleId ∧
    (e.pending = false → e'.pending = false ∧ (e.success = true → e'.success = true))

section Ages

variable {log log' : List ForwardLogEntry} {filed filed' : Nat}

theorem ages_of_subset (h : ∀ e' ∈ log', e'.maker < filed → e' ∈ log) : Ages log log' filed :=
  fun e' he' hlt => ⟨e', h e' he' hlt, rfl, rfl, rfl, fun hp => ⟨hp, id⟩⟩

theorem ages_settle (smsId : Nat) (ruleId : UInt32) (error : Option String) (pending : Bool) (now : Int) :
    Ages log (updateFirst (heldAs smsId ruleId) (writeOutcome error pending now) log) filed := by
  intro e' he' _
  obtain h | ⟨v, hv, hheld, -, -, rfl⟩ := mem_settled he'
  · exact ⟨e', h, rfl, rfl, rfl, fun hp => ⟨hp, id⟩⟩
  · exact ⟨v, hv, rfl, rfl, rfl, fun hp => by cases hp.symm.trans hheld⟩

theorem ages_retried (target : ForwardLogEntry) (result : Except String Unit) (now : Int) :
    Ages log (updateRetried log target result now) filed := by
  intro e' he' _
  obtain h | ⟨v, hv, rfl⟩ := mem_updateFirst he'
  · exact ⟨e', h, rfl, rfl, rfl, fun hp => ⟨hp, id⟩⟩
  · refine ⟨v, List.mem_of_find?_eq_some hv, by simp, by simp, by simp, fun hp => ⟨by simpa using hp, fun hs => ?_⟩⟩
    cases result with
    | ok _ => rfl
    | error _ => exact hs

theorem Taken.Fits.ages {t : Taken} (h : t.Fits log filed) (ha : Ages log log' filed) (hle : filed ≤ filed') : t.Fits log' filed' := by
  refine ⟨Nat.lt_of_lt_of_le h.1 hle, fun e' he' hm => ?_⟩
  obtain ⟨e, he, hmaker, hsms, hrule, hpending⟩ := ha e' he' (by rw [hm]; exact h.1)
  obtain ⟨h₁, h₂, h₃⟩ := h.2 e he (hmaker.symm.trans hm)
  exact ⟨hsms.trans h₁, hrule.trans h₂, (hpending h₃).1⟩

theorem Call.Fits.ages {c : Call} (h : c.Fits log filed) (ha : Ages log log' filed) (hle : filed ≤ filed') : c.Fits log' filed' := by
  cases c with
  | took t expected => exact ⟨h.1.ages ha hle, h.2⟩
  | looked t rule rules => exact ⟨h.1.ages ha hle, h.2⟩
  | sent t result => exact Taken.Fits.ages h ha hle
  | asks page request => exact h
  | _ => trivial

end Ages

variable {w : World}

theorem Inv.start (rules : List ForwardRule) : Inv (World.start rules) where
  makers := List.nodup_nil
  filed e he := by cases he
  calls c hc := by cases hc
  delivered m hm := by cases hm

theorem Inv.ages (h : Inv w) {log : List ForwardLogEntry} {filed : Nat} (ha : Ages w.log log w.filed) (hle : w.filed ≤ filed)
    (hmakers : (log.map (·.maker)).Nodup) (hfiled : ∀ e ∈ log, e.maker < filed) : Inv { w with log, filed } where
  makers := hmakers
  filed := hfiled
  calls c hc := (h.calls c hc).ages ha hle
  delivered m hm := by
    obtain ⟨hlt, hdone⟩ := h.delivered m hm
    refine ⟨Nat.lt_of_lt_of_le hlt hle, hdone.imp_left fun hall e' he' heq => ?_⟩
    obtain ⟨e, he, hmaker, -, -, hkeeps⟩ := ha e' he' (by rw [heq]; exact hlt)
    obtain ⟨hs, hp⟩ := hall e he (hmaker.symm.trans heq)
    exact ⟨(hkeeps hp).2 hs, (hkeeps hp).1⟩

theorem Inv.push (h : Inv w) (entry : ForwardLogEntry) : Inv (w.step (.push entry)) := by
  have hsub := pushLog_sublist w.log { entry with maker := w.filed }
  have hmem : ∀ e ∈ pushLog w.log { entry with maker := w.filed }, e ∈ w.log ∨ e.maker = w.filed := by
    intro e he
    obtain hlog | hnew := List.mem_append.mp (hsub.subset he)
    · exact .inl hlog
    · cases List.mem_singleton.mp hnew
      exact .inr rfl
  refine h.ages (ages_of_subset fun e he hlt => ?_) (Nat.le_succ _) ?_ fun e he => ?_
  · exact (hmem e he).resolve_right (Nat.ne_of_lt hlt)
  · refine (hsub.map _).nodup ?_
    rw [List.map_append, List.nodup_append]
    refine ⟨h.makers, List.nodup_singleton _, fun m hm n hn => ?_⟩
    obtain ⟨e, he, rfl⟩ := List.mem_map.mp hm
    cases List.mem_singleton.mp hn
    exact Nat.ne_of_lt (h.filed e he)
  · obtain hlog | hnew := hmem e he
    · exact Nat.lt_succ_of_lt (h.filed e hlog)
    · rw [hnew]
      exact Nat.lt_succ_self _

/-- An edit of the log that leaves the pushes' numbers as they are. -/
theorem Inv.edits (h : Inv w) {log : List ForwardLogEntry} (ha : Ages w.log log w.filed)
    (hsub : (log.map (·.maker)).Sublist (w.log.map (·.maker))) : Inv { w with log } := by
  refine h.ages ha (Nat.le_refl _) (hsub.nodup h.makers) fun e he => ?_
  obtain ⟨e', he', hm⟩ := List.mem_map.mp (hsub.subset (List.mem_map_of_mem he))
  rw [← hm]
  exact h.filed e' he'

theorem mem_set_of_ne {α : Type} {l : List α} {i : Nat} {a b c : α} (hc : c ∈ l) (hi : l[i]? = some a) (hne : c ≠ a) : c ∈ l.set i b := by
  obtain ⟨j, hj⟩ := List.mem_iff_getElem?.mp hc
  refine List.mem_iff_getElem?.mpr ⟨j, ?_⟩
  rw [List.getElem?_set_ne]
  · exact hj
  · rintro rfl
    exact hne (Option.some.inj (hj.symm.trans hi))

/-- A call that was not waiting to write an acceptance moves on. -/
theorem Inv.moves (h : Inv w) {i : Nat} {c d : Call} (hd : w.calls[i]? = some d) (hidle : ∀ m, d.awaits m = false)
    (hc : c.Fits w.log w.filed) : Inv (w.moves i c) := { h with
  calls c' hc' := by
    obtain hold | rfl := List.mem_or_eq_of_mem_set hc'
    · exact h.calls c' hold
    · exact hc
  delivered m hm := by
    obtain ⟨hlt, hdone⟩ := h.delivered m hm
    refine ⟨hlt, hdone.imp_right fun ⟨c', hc', hawaits⟩ => ⟨c', mem_set_of_ne hc' hd ?_, hawaits⟩⟩
    rintro rfl
    rw [hidle m] at hawaits
    cases hawaits }

/-- A new call. -/
theorem Inv.calling (h : Inv w) {c : Call} (hc : c.Fits w.log w.filed) : Inv { w with calls := w.calls ++ [c] } := { h with
  calls c' hc' := by
    obtain hold | hnew := List.mem_append.mp hc'
    · exact h.calls c' hold
    · cases List.mem_singleton.mp hnew
      exact hc
  delivered m hm := by
    obtain ⟨hlt, hdone⟩ := h.delivered m hm
    exact ⟨hlt, hdone.imp_right fun ⟨c', hc', hawaits⟩ => ⟨c', List.mem_append_left _ hc', hawaits⟩⟩ }

/-! ## A retry's steps -/

variable {i : Nat} {c : Call}

theorem Inv.findStep (h : Inv w) (hi : w.calls[i]? = some c) : Inv (w.findStep i c) := by
  cases c with
  | read fp log =>
    unfold World.findStep
    dsimp only
    cases hfind : fp.find log with
    | none => exact h.moves (c := .gone) hi (fun _ => rfl) trivial
    | some index =>
      refine h.moves (c := .asks (some (fp, log)) { index }) hi (fun _ => rfl) fun p hp => ?_
      cases hp
      exact Fingerprint.find_same hfind
  | _ => exact h

theorem same_of_identity {fp : Fingerprint} {e e' : ForwardLogEntry} (h : e.identity = e'.identity) (hs : fp.same e = true) :
    fp.same e' = true := by
  simp only [ForwardLogEntry.identity, RetryIdentity.mk.injEq] at h
  rw [Fingerprint.same_iff] at hs ⊢
  rw [← h.1, ← h.2.1, ← h.2.2]
  exact hs

theorem Inv.takeStep (h : Inv w) (hi : w.calls[i]? = some c) (hsteady : Steady w (.take i)) : Inv (w.takeStep i c) := by
  cases c with
  | asks page request =>
    unfold Steady at hsteady
    dsimp only at hsteady
    rw [hi] at hsteady
    unfold World.takeStep
    dsimp only
    cases htarget : checkedRetryTarget w.log request.index request.expected with
    | error refusal => exact h.moves (c := .answered (.error refusal)) hi (fun _ => rfl) trivial
    | ok e =>
      obtain ⟨hmem, hsuccess, hpending⟩ := retryTarget_ok (checkedRetryTarget_ok htarget).1
      refine h.moves hi (fun _ => rfl) ⟨⟨h.filed e hmem, fun x hx hm => ?_⟩, fun fp hfp => ?_⟩
      · cases List.inj_on_of_nodup_map h.makers hx hmem hm
        exact ⟨rfl, rfl, hpending⟩
      · cases page with
        | none => cases hfp
        | some p =>
          cases hfp
          dsimp only at hsteady
          rw [htarget] at hsteady
          obtain ⟨hunmoved, hfree⟩ := hsteady
          obtain ⟨e₀, hread, hsame⟩ := h.calls _ (List.mem_of_getElem? hi) p rfl
          rw [hread] at hunmoved
          refine ⟨hmem, same_of_identity (by simpa using hunmoved) hsame, hsuccess, hpending, fun hdelivered => ?_⟩
          obtain ⟨-, hdone | ⟨c, hc, hawaits⟩⟩ := h.delivered _ hdelivered
          · cases hsuccess.symm.trans (hdone e hmem rfl).1
          · cases (hfree c hc).symm.trans hawaits
  | _ => exact h

theorem Inv.lookStep (h : Inv w) (hi : w.calls[i]? = some c) : Inv (w.lookStep i c) := by
  cases c with
  | took t expected =>
    have ht := h.calls _ (List.mem_of_getElem? hi)
    unfold World.lookStep
    dsimp only
    cases hrule : retryRule w.rules w.revision expected t.entry with
    | error refusal => exact h.moves (c := .answered (.error refusal)) hi (fun _ => rfl) trivial
    | ok rule => exact h.moves hi (fun _ => rfl) ⟨ht.1, ht.2, retryRule_ok hrule⟩
  | _ => exact h

theorem Inv.sendStep (h : Inv w) (hi : w.calls[i]? = some c) (result : Except String Unit) : Inv (w.sendStep i result c) := by
  cases c with
  | looked t rule rules =>
    have ht := h.calls _ (List.mem_of_getElem? hi)
    have hsent : Inv (w.moves i (.sent t result)) := h.moves hi (fun _ => rfl) ht.1
    cases result with
    | error err => exact ⟨hsent.makers, hsent.filed, hsent.calls, hsent.delivered⟩
    | ok _ =>
      refine ⟨hsent.makers, hsent.filed, hsent.calls, fun m hm => ?_⟩
      obtain rfl | hm := List.mem_cons.mp hm
      · have hlt : i < w.calls.length := (List.getElem?_eq_some_iff.mp hi).1
        exact ⟨ht.1.1, .inr ⟨_, List.mem_set hlt _, beq_self_eq_true _⟩⟩
      · exact hsent.delivered m hm
  | _ => exact h

/-- An accepted entry has succeeded in the log once that is written. -/
theorem written_success {t : Taken} {log : List ForwardLogEntry} {filed : Nat} (hfits : t.Fits log filed)
    (hmakers : (log.map (·.maker)).Nodup) (now : Int) (hfirst : ∀ e ∈ log.find? (retriedAs t.entry), e.maker = t.entry.maker)
    (hdated : ∀ e ∈ log, e.maker = t.entry.maker → e.success = true ∨ e.timestamp = t.entry.timestamp) :
    ∀ e ∈ updateRetried log t.entry (.ok ()) now, e.maker = t.entry.maker → e.success = true ∧ e.pending = false := by
  have hkeep : (updateRetried log t.entry (.ok ()) now).map (·.maker) = log.map (·.maker) :=
    map_updateFirst (fun e _ => writeRetried_maker _ _ e) log
  intro e he hm
  have hage := (hfits.ages (ages_retried t.entry (.ok ()) now) (Nat.le_refl filed)).2 e he hm
  refine ⟨?_, hage.2.2⟩
  obtain hlog | ⟨v, -, rfl⟩ := mem_updateFirst he
  · obtain hdone | htime := hdated e hlog hm
    · exact hdone
    · cases hsuccess : e.success with
      | true => rfl
      | false =>
        -- it would be found, and its edit is in the log too
        obtain ⟨hsms, hrule, hpending⟩ := hfits.2 e hlog hm
        have hmatch : retriedAs t.entry e = true := retriedAs_iff.mpr ⟨hpending, hsuccess, hsms, hrule, htime⟩
        cases hfind : log.find? (retriedAs t.entry) with
        | none => exact absurd hmatch (List.find?_eq_none.mp hfind e hlog)
        | some v =>
          have hv := mem_updateFirst_self (f := writeRetried (.ok ()) now) hfind
          have heq : e = writeRetried (.ok ()) now v := by
            refine List.inj_on_of_nodup_map (by rw [hkeep]; exact hmakers) he hv ?_
            rw [writeRetried_maker, hm, hfirst v hfind]
          rw [← hsuccess, heq]
          rfl
  · rfl

theorem Inv.writeStep (h : Inv w) (hi : w.calls[i]? = some c) {now : Int} (hsteady : Steady w (.write i now)) :
    Inv (w.writeStep i now c) := by
  cases c with
  | sent t result =>
    unfold Steady at hsteady
    dsimp only at hsteady
    rw [hi] at hsteady
    obtain ⟨hfirst, hdated⟩ := hsteady
    have hages : Ages w.log (updateRetried w.log t.entry result now) w.filed := ages_retried t.entry result now
    have hkeep : (updateRetried w.log t.entry result now).map (·.maker) = w.log.map (·.maker) :=
      map_updateFirst (fun e _ => writeRetried_maker _ _ e) w.log
    have hlog : Inv { w with log := updateRetried w.log t.entry result now } := h.edits hages (by rw [hkeep])
    refine ⟨hlog.makers, hlog.filed, fun c' hc' => ?_, fun m hm => ?_⟩
    · obtain hold | rfl := List.mem_or_eq_of_mem_set hc'
      · exact hlog.calls c' hold
      · trivial
    · obtain ⟨hlt, hdone⟩ := hlog.delivered m hm
      refine ⟨hlt, ?_⟩
      obtain hall | ⟨c', hc', hawaits⟩ := hdone
      · exact .inl hall
      · cases hown : (Call.sent t result).awaits m with
        | false =>
          refine .inr ⟨c', mem_set_of_ne hc' hi ?_, hawaits⟩
          rintro rfl
          cases hown.symm.trans hawaits
        | true =>
          cases result with
          | error _ => cases hown
          | ok _ =>
            have hm' : t.entry.maker = m := by simpa [Call.awaits] using hown
            subst hm'
            exact .inl (written_success (h.calls _ (List.mem_of_getElem? hi)) h.makers now hfirst (hdated rfl))
  | _ => exact h

theorem Inv.step (h : Inv w) (event : Event) (hsteady : Steady w event) : Inv (w.step event) := by
  have hcall : ∀ (i : Nat) (f : Call → World), (∀ c, w.calls[i]? = some c → Inv (f c)) → Inv ((w.calls[i]?).elim w f) := by
    intro i f hf
    cases hi : w.calls[i]? with
    | none => exact h
    | some c => exact hf c hi
  cases event with
  | push entry => exact h.push entry
  | settle smsId ruleId error pending now =>
    unfold World.step
    dsimp only
    rw [settlePending_log]
    have hkeep : (updateFirst (heldAs smsId ruleId) (writeOutcome error pending now) w.log).map (·.maker) = w.log.map (·.maker) :=
      map_updateFirst (fun e _ => writeOutcome_maker _ _ _ e) w.log
    exact h.edits (ages_settle smsId ruleId error pending now) (by rw [hkeep])
  | clear => exact h.edits (ages_of_subset fun e he _ => List.mem_of_mem_filter he) (List.filter_sublist.map _)
  | edit rules => exact { h with }
  | read fp => exact h.calling trivial
  | ask request => exact h.calling fun p hp => by cases hp
  | find i => exact hcall i _ fun c hi => h.findStep hi
  | take i => exact hcall i _ fun c hi => h.takeStep hi hsteady
  | look i => exact hcall i _ fun c hi => h.lookStep hi
  | send i result => exact hcall i _ fun c hi => h.sendStep hi result
  | write i now => exact hcall i _ fun c hi => h.writeStep hi hsteady

theorem Inv.lawful (h : Inv w) (event : Event) (hsteady : Steady w event) : Lawful w event := by
  cases event with
  | send i result =>
    unfold Lawful
    dsimp only
    split
    · rename_i t rule rules hi
      obtain ⟨-, hright, hrule, hid⟩ := h.calls _ (List.mem_of_getElem? hi)
      intro fp hfp
      obtain ⟨hlog, hsame, hsuccess, hpending, hnew⟩ := hright fp hfp
      exact ⟨hlog, hsame, hsuccess, hpending, hrule, by rw [hid]; exact (Fingerprint.same_iff.mp hsame).2.1, hnew⟩
    · trivial
  | write i now =>
    unfold Lawful
    dsimp only
    split
    · rename_i t result hi
      unfold Steady at hsteady
      dsimp only at hsteady
      rw [hi] at hsteady
      intro e he hne
      show e ∈ ((w.calls[i]?).elim w (w.writeStep i now)).log
      rw [hi]
      obtain hkept | hfound := mem_updateFirst_or (p := retriedAs t.entry) (f := writeRetried result now) he
      · exact hkept
      · exact absurd (hsteady.1 e hfound) hne
    · trivial
  | _ => trivial

/-- Along every run whose steps are steady, each retry sends the entry its button was drawn for or nothing,
    and writes to that entry or to none. -/
theorem steady_retries_are_lawful (rules : List ForwardRule) (events : List Event)
    (hsteady : Along World.step Steady (World.start rules) events) : Along World.step Lawful (World.start rules) events :=
  along_of_invariant (fun _ event h hok => h.step event hok) (fun _ event h hok => h.lawful event hok) (Inv.start rules) hsteady

/-! ## Runs -/

def everything : ForwardRule := ⟨1, "all", true, .all, .slack "https://hooks.example/T0", 0⟩

/-- A forward by `everything` that failed. -/
def failed (smsId : Nat) (timestamp : Int) (content : String) : ForwardLogEntry :=
  { timestamp, smsId, content, sender := "+1555", contentPreview := content, ruleName := "all", destinationType := "slack",
    success := false, error := some "timed out", ruleId := 1, date := "", pending := false, heldAt := none, maker := 0 }

/-- What a page's retry does once it has read the log. -/
def asksFor (i : Nat) (result : Except String Unit) : List Event := [.find i, .take i, .look i, .send i result]

/-- A retry while rules are edited and another forward is logged; then its button again, and the new one. -/
def steadyRun : List Event :=
  [.push (failed 7 100 "code 1"), .read ⟨0, 7, 1, 100⟩, .edit [everything]] ++ asksFor 0 (.ok ()) ++
    [.push (failed 8 110 "code 2"), .write 0 120, .read ⟨0, 7, 1, 100⟩] ++ asksFor 1 (.ok ()) ++
    [.read ⟨0, 7, 1, 120⟩] ++ asksFor 2 (.ok ())

theorem steadyRun_lawful : Along World.step Lawful (World.start []) steadyRun :=
  steady_retries_are_lawful [] steadyRun (by decide +kernel)

/-- A forward is logged between a retry's read and its take. -/
def shifted : List Event :=
  [.push (failed 7 100 "code 1"), .read ⟨0, 7, 1, 100⟩, .push (failed 8 200 "code 2")] ++ asksFor 0 (.ok ())

/-- Two retries of one entry overlap: the one that fails is written first. -/
def overlapping : List Event :=
  [.push (failed 7 100 "code 1"), .read ⟨0, 7, 1, 100⟩, .read ⟨0, 7, 1, 100⟩, .find 0, .find 1, .take 0, .take 1, .look 0, .look 1,
    .send 0 (.ok ()), .send 1 (.error "timed out"), .write 1 150, .write 0 151, .read ⟨0, 7, 1, 150⟩] ++ asksFor 2 (.ok ())

/-- A retry dates an entry as one that is then logged for the message that has taken its id. -/
def sameKey : List Event :=
  [.push (failed 7 100 "code 1"), .read ⟨0, 7, 1, 100⟩] ++ asksFor 0 (.error "timed out") ++
    [.write 0 200, .push (failed 7 200 "code 2"), .read ⟨0, 7, 1, 200⟩] ++ asksFor 1 (.ok ()) ++ [.write 1 201]

theorem retries_go_astray : ¬ Along World.step Lawful (World.start [everything]) shifted ∧
    ¬ Along World.step Lawful (World.start [everything]) overlapping ∧
    ¬ Along World.step Lawful (World.start [everything]) sameKey := by decide +kernel

end OpenU60.SmsForward.Retry
