/-
  OpenU60.SmsForward.Watermark — no received message is skipped: the watermark passes a
  message that was in a store, and newer than the watermark, only once it has been put to
  the rules.

  It fails where a read does not bring in a message it could know of, and brings in a
  newer one: a store whose call fails counts as empty, a burst longer than the page of 50
  loses its oldest, and of two messages with one id the NV store's is kept. A poll that
  finds the watermark at 0 also takes the newest id for its start, unread messages or not.
  - `nothing_skipped`: in every run without such a read, every message seen so far and at
    or below the watermark has been put to the rules exactly once, and none twice.
  - `fetched_within`: what a read brings in is put to the rules within `stepsLeft` further
    steps of the thread, whatever the handlers do between them.
-/

import OpenU60.SmsForward.Owed

namespace OpenU60.SmsForward

open OpenU60.Lib OpenU60.Lib.Machine OpenU60.Lib.FirstMatch

def listedIds (es : List Effect) : List Nat :=
  es.flatMap fun
    | .listed ids => ids
    | _ => []

variable (P : Params)

/-- The pages of a read bring message `id` in: the first item with that id is received. -/
def brings (r : Reads) (id : Nat) : Bool := ((pages P 1 0 50 r).find? (messageId · = id)).any received

/-- Every message known to be in a store and not put to the rules yet is newer than
    everything in `ids`, or passes `here`. -/
def NoneBelow (w : World) (now : List Nat) (here : Nat → Prop) (ids : List Nat) : Prop :=
  ∀ id ∈ listedIds w.effects ++ now, id ∉ evaluatedIds w.effects → here id ∨ ∀ j ∈ ids, j < id

/-- A read that starts a pass brings in every message known to be waiting that is not
    newer than all it brings; a poll that sets the watermark finds none to skip. -/
def KeepsSeen (w : World) : Event → Prop
  | .fetch r =>
    w.pass = .fetching → enabledRules w.config ≠ [] →
      NoneBelow w (newerIds w.watermark r) (fun id => brings P r id = true)
        (((pages P 1 0 50 r).map messageId).filter (brings P r))
  | .poll _ r _ =>
    w.pass = .idle → forwardingOff w.config = false → w.watermark = 0 →
      NoneBelow w (newerIds 0 r) (fun _ => False) ((pages P 10 0 5 r).map messageId)
  | _ => True

instance decidableNoneBelow (w : World) (now : List Nat) (here : Nat → Prop) [DecidablePred here] (ids : List Nat) :
    Decidable (NoneBelow w now here ids) :=
  inferInstanceAs (Decidable (∀ id ∈ _, _ → _ ∨ _))

instance decidableKeepsSeen (w : World) : ∀ e : Event, Decidable (KeepsSeen P w e)
  | .fetch _ => inferInstanceAs (Decidable (_ → _ → NoneBelow ..))
  | .poll _ _ _ => inferInstanceAs (Decidable (_ → _ → _ → NoneBelow ..))
  | .newSms => .isTrue trivial
  | .flush => .isTrue trivial
  | .advance _ => .isTrue trivial
  | .request _ _ => .isTrue trivial
  | .logClear _ => .isTrue trivial

/-- The messages a running pass still has to put to the rules. -/
def ahead : Pass → List Nat
  | .processing p => p.messages.map (·.id)
  | _ => []

/-- Where a message seen in a store stands: put to the rules, about to be, or newer than
    anything the watermark can be moved to by the running pass. -/
structure SeenInv (w : World) : Prop where
  eval : EvalInv w
  saved : w.fileWatermark ≤ w.watermark
  seen : ∀ id ∈ listedIds w.effects, id ∈ evaluatedIds w.effects ∨ id ∈ ahead w.pass ∨
    (frontier w < id ∧ ∀ j ∈ ahead w.pass, j < id)

variable {P}

@[simp] theorem listedIds_append (es fs : List Effect) : listedIds (es ++ fs) = listedIds es ++ listedIds fs := by
  simp [listedIds]

@[simp] theorem listedIds_listed (ids : List Nat) : listedIds [.listed ids] = ids := by simp [listedIds]

theorem listedIds_none {es : List Effect} (h : ∀ x ∈ es, ∀ ids, x ≠ .listed ids) : listedIds es = [] := by
  refine List.flatMap_eq_nil_iff.mpr fun x hx => ?_
  cases x with
  | listed ids => exact absurd rfl (h _ hx ids)
  | _ => rfl

theorem listedIds_forwards {es : List Effect} (h : ∀ x ∈ es, x.isForward = true) : listedIds es = [] := by
  refine listedIds_none fun x hx ids he => ?_
  have := h x hx
  rw [he] at this
  cases this

theorem listedIds_postIf (b : Bool) (config : SmsForwardConfig) (id : Nat) :
    listedIds (if b then postForward config id else []) = [] := by
  cases b with
  | false => rfl
  | true =>
    refine listedIds_none fun x hx ids he => ?_
    have := postForward_acts config id x hx
    rw [he] at this
    cases this

variable {r : Reads}

theorem newerIds_newer {after id : Nat} (h : id ∈ newerIds after r) : after < id := by
  simp only [newerIds, List.mem_map, List.mem_filter, Bool.and_eq_true, decide_eq_true_eq] at h
  obtain ⟨m, ⟨-, -, hlt⟩, rfl⟩ := h
  exact hlt

theorem mem_fetched_iff {after id : Nat} :
    id ∈ (fetchNewMessages P after r).map (·.id) ↔ brings P r id = true ∧ after < id := by
  rw [mem_fetchNewMessages_id]
  unfold brings
  cases (pages P 1 0 50 r).find? (messageId · = id) with
  | none => simp
  | some m => simp

variable {id : Nat}

theorem brings_mem (h : brings P r id = true) : id ∈ (pages P 1 0 50 r).map messageId := by
  unfold brings at h
  cases hf : (pages P 1 0 50 r).find? (messageId · = id) with
  | none => rw [hf] at h; cases h
  | some m =>
    have hid : messageId m = id := by simpa using List.find?_some hf
    exact List.mem_map.mpr ⟨m, List.mem_of_find?_eq_some hf, hid⟩

/-- The watermark a first poll takes is the id of an item its pages bring in. -/
theorem fetchMaxSmsId_mem (h : 0 < fetchMaxSmsId P r) : fetchMaxSmsId P r ∈ (pages P 10 0 5 r).map messageId := by
  have hmax : ∀ l : List Nat, 0 < l.foldr max 0 → l.foldr max 0 ∈ l := by
    intro l
    induction l with
    | nil => intro h; cases h
    | cons a as ih =>
      intro h
      simp only [List.foldr_cons] at h ⊢
      rcases le_total a (as.foldr max 0) with hle | hle
      · rw [max_eq_right hle] at h ⊢; exact List.mem_cons_of_mem _ (ih h)
      · rw [max_eq_left hle]; exact List.mem_cons_self ..
  have hmem := hmax _ h
  obtain ⟨m, hm, hid⟩ := List.mem_filterMap.mp hmem
  refine List.mem_map.mpr ⟨m, (mem_of_mem_distinctBy hm).1, ?_⟩
  unfold messageId
  rw [hid]
  rfl

/-! ## The invariant -/

variable {w : World}

theorem seenInv_start (h : Start w) : SeenInv w where
  eval := evalInv_start h
  saved := h.saved
  seen := by rw [h.noEffects]; intro id hid; cases hid

theorem seenInv_frame {w w' : World} (h : SeenInv w) (heval : EvalInv w') (hsaved : w'.fileWatermark ≤ w'.watermark)
    (hlist : listedIds w'.effects = listedIds w.effects) (hids : evaluatedIds w'.effects = evaluatedIds w.effects)
    (hfront : frontier w' = frontier w) (hahead : ahead w'.pass = ahead w.pass) : SeenInv w' :=
  ⟨heval, hsaved, by rw [hlist, hids, hfront, hahead]; exact h.seen⟩

theorem frontier_outside (h : ∀ p, w.pass ≠ .processing p) : frontier w = w.watermark :=
  frontier_enter w w.pass h

theorem ahead_outside {pass : Pass} (h : ∀ p, pass ≠ .processing p) : ahead pass = [] := by
  cases pass with
  | processing p => exact absurd rfl (h p)
  | _ => rfl

/-- What is listed is above the watermark. -/
theorem seenInv_lists (h : SeenInv w) {r : Reads} {next : Pass} (hp : ∀ p, w.pass ≠ .processing p)
    (hne : ∀ p, next ≠ .processing p) (heval : EvalInv ((w.emit [.listed (newerIds w.watermark r)]).enter next)) :
    SeenInv ((w.emit [.listed (newerIds w.watermark r)]).enter next) := by
  refine ⟨heval, h.saved, ?_⟩
  rw [frontier_outside hne, enter_pass, ahead_outside hne]
  intro id hid
  simp only [enter_effects, emit_effects, listedIds_append, listedIds_listed, List.mem_append] at hid
  simp only [enter_effects, emit_effects, evaluatedIds_append, evaluatedIds_listed, List.append_nil, List.not_mem_nil,
    false_or, false_implies, implies_true, and_true, enter_watermark, emit_watermark]
  rcases hid with hid | hid
  · have := h.seen id hid
    rw [frontier_outside hp, ahead_outside hp] at this
    simpa using this
  · exact Or.inr (newerIds_newer hid)

theorem saveLog_saved (w : World) (saved : Bool) (h : w.fileWatermark ≤ w.watermark) :
    (w.saveLog saved).fileWatermark ≤ (w.saveLog saved).watermark := by
  cases saved <;> simp [h]

theorem seenInv_step {e : Event} (h : SeenInv w) (hok : KeepsSeen P w e) : SeenInv (step P w e) := by
  have heval := evalInv_step (P := P) h.eval e
  have hm := step_move P w e
  have hout : ∀ {pass : Pass}, w.pass = pass → (∀ p, pass ≠ .processing p) → frontier w = w.watermark ∧ ahead w.pass = [] :=
    fun hp hne => ⟨frontier_outside (by rwa [hp]), ahead_outside (by rwa [hp])⟩
  have hend : ∀ {pass pass' : Pass}, w.pass = pass → (∀ p, pass ≠ .processing p) → (∀ p, pass' ≠ .processing p) →
      EvalInv (w.enter pass') → SeenInv (w.enter pass') := fun {pass pass'} hp hne hne' he => by
    obtain ⟨hfront, hahead⟩ := hout hp hne
    refine seenInv_frame h he h.saved rfl rfl ?_ ?_
    · rw [frontier_outside hne', hfront]; rfl
    · rw [hahead]; exact ahead_outside hne'
  generalize hw' : step P w e = w' at hm heval ⊢
  cases hm with
  | stay => exact h
  | begin _ hp => exact hend hp (by simp) (by simp) heval
  | @listed saved r cap next hp h0 hmax hnext =>
    rw [← h0] at heval ⊢
    exact seenInv_lists h (by simp [hp]) (by rcases hnext with rfl | rfl <;> simp) heval
  | @initialized saved r cap next hp hon h0 hpos hnext =>
    obtain ⟨hfront, hahead⟩ := hout hp (by simp)
    have hne : ∀ p, next ≠ .processing p := by rcases hnext with rfl | rfl <;> simp
    refine ⟨heval, ?_, ?_⟩
    · have := h.saved
      simp only [enter_fileWatermark, moveWatermark_fileWatermark, emit_fileWatermark, enter_watermark, moveWatermark_watermark]
      split <;> omega
    · rw [frontier_outside hne, enter_pass, ahead_outside hne]
      intro id hid
      simp only [enter_effects, moveWatermark_effects, emit_effects, listedIds_append, listedIds_listed] at hid
      simp only [enter_effects, moveWatermark_effects, emit_effects, evaluatedIds_append, evaluatedIds_listed,
        List.append_nil, List.not_mem_nil, false_or, false_implies, implies_true, and_true, enter_watermark,
        moveWatermark_watermark]
      by_cases hin : id ∈ evaluatedIds w.effects
      · exact Or.inl hin
      · rcases hok hp hon h0 id hid hin with hf | hlt
        · exact hf.elim
        · exact Or.inr (hlt _ (fetchMaxSmsId_mem hpos))
  | nothingNew hp _ => exact seenInv_lists h (by simp [hp]) (by simp) heval
  | @started r hp hrules =>
    obtain ⟨hfront, hahead⟩ := hout hp (by simp)
    refine ⟨heval, h.saved, ?_⟩
    intro id hid
    simp only [enter_effects, emit_effects, listedIds_append, listedIds_listed] at hid
    simp only [enter_effects, emit_effects, evaluatedIds_append, evaluatedIds_listed, List.append_nil, enter_pass]
    by_cases hin : id ∈ evaluatedIds w.effects
    · exact Or.inl hin
    · have hnew : w.watermark < id := by
        rcases List.mem_append.mp hid with hid | hid
        · have := h.seen id hid
          rw [hfront, hahead] at this
          simpa [hin] using this
        · exact newerIds_newer hid
      rcases hok hp hrules id hid hin with hb | hlt
      · exact Or.inr (Or.inl (mem_fetched_iff.mpr ⟨hb, hnew⟩))
      · refine Or.inr (Or.inr ⟨hnew, fun j hj => hlt j ?_⟩)
        have hb := (mem_fetched_iff.mp hj).1
        exact List.mem_filter.mpr ⟨brings_mem hb, hb⟩
  | flushed hp => exact hend hp (by simp) (by simp) heval
  | skipRule hp hc _ _ =>
    refine seenInv_frame h heval h.saved rfl rfl ?_ ?_
    · rw [frontier_current hp hc]; rfl
    · rw [hp]; rfl
  | push hp hc hrest hf =>
    have hforwards := forwardRule_forwards hf
    refine seenInv_frame h heval (by simpa using h.saved) ?_ ?_ ?_ ?_
    · simp [listedIds_forwards hforwards]
    · simp [evaluatedIds_forwards hforwards]
    · rw [frontier_current hp hc, frontier_current (enter_pass ..) rfl]
    · rw [hp]; rfl
  | @finishSms a p c hp hc hrest =>
    have hlt := ((h.eval.processing p hp).current c hc).1
    refine seenInv_frame h heval h.saved ?_ ?_ ?_ ?_
    · simp [listedIds_postIf]
    · simp [evaluatedIds_postIf]
    · rw [frontier_current hp hc, frontier_between (enter_pass ..) rfl]
      show max p.maxProcessedId c.sms.id = c.sms.id
      omega
    · rw [hp]; rfl
  | @skipMessage a p sms messages hp hc hm hle =>
    exact absurd hle (h.eval.not_skipped hp hc hm)
  | @evaluate a p sms messages hp hc hm =>
    have hasc := (h.eval.processing p hp).ascending
    rw [hm] at hasc
    refine ⟨heval, h.saved, fun id hid => ?_⟩
    have hid : id ∈ listedIds w.effects := by simpa [listedIds] using hid
    have hfront : frontier ((w.emit [.evaluate sms]).enter (.processing
        { p with messages := messages, current := some ⟨sms, enabledRules p.config, true⟩ })) = sms.id := rfl
    rw [hfront]
    simp only [enter_effects, emit_effects, evaluatedIds_append, evaluatedIds_evaluate, List.mem_append,
      List.mem_singleton, enter_pass, ahead]
    have hseen := h.seen id hid
    rw [hp] at hseen
    simp only [ahead, hm, List.map_cons, List.mem_cons, forall_eq_or_imp] at hseen
    rcases hseen with hin | (rfl | hin) | ⟨-, hlt, hall⟩
    · exact Or.inl (Or.inl hin)
    · exact Or.inl (Or.inr rfl)
    · exact Or.inr (Or.inl hin)
    · exact Or.inr (Or.inr ⟨hlt, hall⟩)
  | @finishPass a p hp hc hm =>
    obtain ⟨hafter, hnew, -, -, -⟩ := h.eval.processing p hp
    have hfront := frontier_between hp hc
    have hsaved := h.saved
    refine seenInv_frame h heval ?_ (by simp) (by simp) ?_ ?_
    · simp only [enter_fileWatermark, moveWatermark_fileWatermark, enter_watermark, moveWatermark_watermark]
      split <;> omega
    · rw [hfront, frontier_outside (by simp)]; simp
    · rw [hp, enter_pass]; simp [ahead, hm]
  | wait hp => exact hend hp (by simp) (by simp) heval
  | @settle a config entry held o hp ho =>
    obtain ⟨hfront, hahead⟩ := hout hp (by simp)
    have hforwards := flushOutcome_forwards ho
    refine seenInv_frame h heval (saveLog_saved (w.setLog _) a.saved h.saved) ?_ ?_ ?_ ?_
    · simp [listedIds_forwards hforwards, listedIds_postIf]
    · simp [evaluatedIds_forwards hforwards, evaluatedIds_postIf]
    · rw [hfront, frontier_outside (by simp)]; simp
    · rw [hahead]; rfl
  | flushEnd hp => exact hend hp (by simp) (by simp) heval
  | served saved req =>
    obtain ⟨hst, hfile⟩ := handle_state saved w.nextSerial w.fwd req
    have hwm : (serve saved req w).watermark = w.watermark := congrArg ForwardState.lastForwardedId hst
    have hfw : (serve saved req w).fileWatermark = w.fileWatermark := congrArg ForwardState.lastForwardedId hfile
    refine seenInv_frame h heval (by rw [hfw, hwm]; exact h.saved) rfl rfl ?_ rfl
    simp only [frontier, hwm]
    rfl
  | cleared saved =>
    refine seenInv_frame h heval (saveLog_saved (w.setLog _) saved h.saved) (by simp) (by simp) ?_ rfl
    simp only [frontier, saveLog_pass, setLog_pass, saveLog_watermark, setLog_watermark]

theorem seenInv_run (hw : Start w) {es : List Event} (hes : Along (step P) (KeepsSeen P) w es) :
    SeenInv (exec (step P) w es) :=
  invariant_along (I := SeenInv) (fun _ _ h hok => seenInv_step h hok) (seenInv_start hw) hes

/-! ## A pass reaches every message it fetched -/

def Event.isAdvance : Event → Bool
  | .advance _ => true
  | _ => false

/-- The steps a processing pass still takes: one for each rule of each message, two around
    them, and the last. -/
def stepsLeft : Pass → Nat
  | .processing p =>
    (p.current.elim 0 fun c => c.rest.length + 1) + p.messages.length * ((enabledRules p.config).length + 2) + 1
  | _ => 0

theorem move_effects {w w' : World} {e : Event} (hm : Move P w e w') : ∃ fs, w'.effects = w.effects ++ fs := by
  cases hm with
  | stay => exact ⟨[], by simp⟩
  | begin => exact ⟨[], by simp⟩
  | listed => exact ⟨_, rfl⟩
  | initialized => exact ⟨_, rfl⟩
  | nothingNew => exact ⟨_, rfl⟩
  | started => exact ⟨_, rfl⟩
  | flushed => exact ⟨[], by simp⟩
  | skipRule => exact ⟨[], by simp⟩
  | @push _ _ _ _ _ f => exact ⟨f.effects, by simp⟩
  | finishSms => exact ⟨_, rfl⟩
  | skipMessage => exact ⟨[], by simp⟩
  | evaluate => exact ⟨_, rfl⟩
  | finishPass => exact ⟨[], by simp⟩
  | wait => exact ⟨[], by simp⟩
  | settle => exact ⟨_, rfl⟩
  | flushEnd => exact ⟨[], by simp⟩
  | served => exact ⟨[], by simp [serve]⟩
  | cleared => exact ⟨[], by simp⟩

theorem evaluatedIds_mono (h : id ∈ evaluatedIds w.effects) (e : Event) :
    id ∈ evaluatedIds (step P w e).effects := by
  obtain ⟨fs, hfs⟩ := move_effects (step_move P w e)
  rw [hfs, evaluatedIds_append]
  exact List.mem_append_left _ h

/-- A message a pass still has ahead of it: a step puts it to the rules or leaves it
    ahead, and a step of the thread uses one up. -/
theorem ahead_step (h : EvalInv w) (hid : id ∈ ahead w.pass) (e : Event) :
    id ∈ evaluatedIds (step P w e).effects ∨
      (id ∈ ahead (step P w e).pass ∧ stepsLeft (step P w e).pass + (if e.isAdvance then 1 else 0) ≤ stepsLeft w.pass) := by
  obtain ⟨p, hp⟩ : ∃ p, w.pass = .processing p := by
    cases hpass : w.pass with
    | processing p => exact ⟨p, rfl⟩
    | _ => rw [hpass] at hid; cases hid
  have hother : ∀ {pass : Pass}, w.pass = pass → (∀ p, pass ≠ .processing p) → False :=
    fun hq hne => hne p (hq.symm.trans hp)
  have hm := step_move P w e
  generalize step P w e = w' at hm ⊢
  cases hm with
  | stay _ hno =>
    right
    cases e with
    | advance a => exact absurd hp (hno a p rfl)
    | _ => exact ⟨hid, Nat.le_refl _⟩
  | begin _ hq => exact (hother hq (by simp)).elim
  | listed _ hq => exact (hother hq (by simp)).elim
  | initialized _ hq => exact (hother hq (by simp)).elim
  | nothingNew hq => exact (hother hq (by simp)).elim
  | started hq => exact (hother hq (by simp)).elim
  | flushed hq => exact (hother hq (by simp)).elim
  | wait hq => exact (hother hq (by simp)).elim
  | settle hq => exact (hother hq (by simp)).elim
  | flushEnd hq => exact (hother hq (by simp)).elim
  | served => exact Or.inr ⟨hid, Nat.le_refl _⟩
  | cleared => exact Or.inr ⟨hid, Nat.le_refl _⟩
  | @skipRule a q c rule rest hq hc hrest _ =>
    rw [hq] at hid ⊢
    refine Or.inr ⟨hid, ?_⟩
    simp only [enter_pass, stepsLeft, hc, hrest, Option.elim_some, List.length_cons, Event.isAdvance, if_true]
    omega
  | @push a q c rule rest f hq hc hrest hf =>
    rw [hq] at hid ⊢
    refine Or.inr ⟨hid, ?_⟩
    simp only [enter_pass, stepsLeft, hc, hrest, Option.elim_some, List.length_cons, Event.isAdvance, if_true]
    omega
  | @finishSms a q c hq hc hrest =>
    rw [hq] at hid ⊢
    refine Or.inr ⟨hid, ?_⟩
    simp only [enter_pass, stepsLeft, hc, hrest, Option.elim_some, Option.elim_none, List.length_nil, Event.isAdvance,
      if_true]
    omega
  | skipMessage hq hc hmsgs hle => exact absurd hle (h.not_skipped hq hc hmsgs)
  | @evaluate a q sms messages hq hc hmsgs =>
    rw [hq] at hid ⊢
    simp only [ahead, hmsgs, List.map_cons, List.mem_cons] at hid
    rcases hid with rfl | hid
    · exact Or.inl (by simp)
    · refine Or.inr ⟨hid, ?_⟩
      simp only [enter_pass, stepsLeft, hc, hmsgs, Option.elim_some, Option.elim_none, List.length_cons, Event.isAdvance,
        if_true, Nat.succ_mul]
      omega
  | finishPass hq hc hmsgs =>
    rw [hq] at hid
    simp only [ahead, hmsgs, List.map_nil, List.not_mem_nil] at hid

theorem evaluated_run (es : List Event) : ∀ {w : World}, id ∈ evaluatedIds w.effects →
    id ∈ evaluatedIds (exec (step P) w es).effects := by
  induction es with
  | nil => intro w h; exact h
  | cons e es ih => intro w h; exact ih (evaluatedIds_mono h e)

/-- Whatever the handlers do meanwhile, a pass puts a message it has ahead to the rules
    within the steps it has left. -/
theorem fetched_within {es : List Event} : ∀ {w : World}, EvalInv w → id ∈ ahead w.pass →
    stepsLeft w.pass ≤ es.countP (·.isAdvance) → id ∈ evaluatedIds (exec (step P) w es).effects := by
  induction es with
  | nil =>
    intro w _ hid hlen
    cases hp : w.pass with
    | processing p =>
      rw [hp] at hlen
      simp [stepsLeft] at hlen
    | _ => rw [hp] at hid; cases hid
  | cons e es ih =>
    intro w h hid hlen
    rcases ahead_step h hid e with hev | ⟨hah, hless⟩
    · exact evaluated_run es hev
    · refine ih (evalInv_step h e) hah ?_
      rw [List.countP_cons] at hlen
      omega

/-! ## The law -/

variable (P) in
/-- The watermark passes a message seen in a store only once it has been put to the
    rules, and exactly once; and what a read brings in is put to the rules once the pass
    it starts has taken its steps. -/
structure NothingSkipped (w : World) : Prop where
  persisted : w.fileWatermark ≤ w.watermark
  passed : ∀ id ∈ listedIds w.effects, id ≤ w.watermark → (evaluatedIds w.effects).count id = 1
  once : ∀ id, (evaluatedIds w.effects).count id ≤ 1
  fetched : ∀ r id, w.pass = .fetching → enabledRules w.config ≠ [] → w.watermark < id → brings P r id = true →
    ∃ n, ∀ later : List Event, n ≤ later.countP (·.isAdvance) →
      (evaluatedIds (exec (step P) (step P w (.fetch r)) later).effects).count id = 1

theorem count_evaluated (h : EvalInv w) (hid : id ∈ evaluatedIds w.effects) :
    (evaluatedIds w.effects).count id = 1 :=
  List.count_eq_one_of_mem h.nodup hid

/-- The watermark is at most the frontier, and a pass has only newer messages ahead. -/
theorem SeenInv.passed (h : SeenInv w) (hid : id ∈ listedIds w.effects) (hle : id ≤ w.watermark) :
    id ∈ evaluatedIds w.effects := by
  rcases h.seen id hid with hev | hother
  · exact hev
  · exfalso
    cases hp : w.pass with
    | processing p =>
      obtain ⟨hafter, hnew, hasc, hcur, -⟩ := h.eval.processing p hp
      have hfront : w.watermark ≤ frontier w := by
        cases hc : p.current with
        | none => rw [frontier_between hp hc]; omega
        | some c =>
          have := (hcur c hc).1
          rw [frontier_current hp hc]; omega
      rcases hother with hah | ⟨hlt, -⟩
      · rw [hp] at hah
        have := (List.pairwise_cons.mp hasc).1 id hah
        omega
      · omega
    | _ =>
      rw [frontier_outside (by simp [hp]), hp] at hother
      rcases hother with hah | ⟨hlt, -⟩
      · cases hah
      · omega

/-- In every run whose reads bring in every message known to be waiting that is not newer
    than all they bring, and whose polls set no watermark past one, nothing is skipped. -/
theorem nothing_skipped {w : World} (hw : Start w) {es : List Event} (hes : Along (step P) (KeepsSeen P) w es) :
    NothingSkipped P (exec (step P) w es) := by
  have h := seenInv_run hw hes
  refine ⟨h.saved, ?_, ?_, ?_⟩
  · intro id hid hle
    exact count_evaluated h.eval (h.passed hid hle)
  · exact List.nodup_iff_count_le_one.mp h.eval.nodup
  · intro r id hp hrules hnew hbr
    set w' := exec (step P) w es
    have hstart : step P w' (.fetch r) = (w'.emit [.listed (newerIds w'.watermark r)]).enter
        (.processing ⟨w'.config, w'.watermark, w'.watermark, none, fetchNewMessages P w'.watermark r⟩) := by
      have hmem : id ∈ (fetchNewMessages P w'.watermark r).map (·.id) := mem_fetched_iff.mpr ⟨hbr, hnew⟩
      have hne : fetchNewMessages P w'.watermark r ≠ [] := by
        intro he; rw [he] at hmem; cases hmem
      simp [step, hp, processNewMessages, hne, hrules]
    have hah : id ∈ ahead (step P w' (.fetch r)).pass := by
      rw [hstart]; exact mem_fetched_iff.mpr ⟨hbr, hnew⟩
    have hinv := evalInv_step (P := P) h.eval (.fetch r)
    refine ⟨stepsLeft (step P w' (.fetch r)).pass, fun later hlen => ?_⟩
    have hrun : EvalInv (exec (step P) (step P w' (.fetch r)) later) :=
      invariant (I := EvalInv) (fun _ e h => evalInv_step h e) hinv
    exact count_evaluated hrun (fetched_within hinv hah hlen)

/-! ## Two runs -/

def forwardAll : SmsForwardConfig :=
  ⟨true, 30, false, false, [⟨1, "everything", true, .all, .ntfy "https://ntfy.example" "sms" none, 0⟩]⟩

/-- Message 9 in the NV store, 8 in the SIM store. -/
def twoStores (simOk : Bool) : Reads := ⟨[receivedItem 9 "bank" "code 9"], [receivedItem 8 "friend" "hello"], true, simOk⟩

def readTwoStores (simOk : Bool) : List Event :=
  [.poll true (twoStores simOk) (.ok 2), .fetch (twoStores simOk)] ++ List.replicate 7 sends

theorem both_stores_forwarded :
    (exec (step device) (forwarder forwardAll 7) (readTwoStores true)).watermark = 9 ∧
      NothingSkipped device (exec (step device) (forwarder forwardAll 7) (readTwoStores true)) := by
  have h := nothing_skipped (forwarder_start forwardAll 7)
    (show Along (step device) (KeepsSeen device) _ (readTwoStores true) by decide +kernel)
  exact ⟨by decide +kernel, h⟩

/-- With the SIM store's call failing, the pass over message 9 moves the watermark past
    message 8. -/
theorem failed_store_read_skips :
    ¬∀ (P : Params) (w : World) (es : List Event), Start w → NothingSkipped P (exec (step P) w es) := by
  intro h
  have hrun := h device (forwarder forwardAll 7) (readTwoStores false) (forwarder_start ..)
  have hskip := hrun.passed 8 (by decide +kernel) (by decide +kernel)
  revert hskip
  decide +kernel

end OpenU60.SmsForward
