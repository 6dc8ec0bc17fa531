/-
  OpenU60.Stk.Protocol — the STK session's protocol over every run of its worker.

  A write is a client's if a request's response or selection is in it. Two facts about a session
  (`Once`) are kept by all its functions: no two writes of clients have one generation, and a write of
  the current generation still waits for its acknowledgement. A client writes only if nothing waits,
  and the acknowledgement moves to the next generation, so one generation gets one write
  (`once_exec`), whatever frames come between; a request with another command id writes nothing
  (`stale_writes_nothing`). With `all` the same is proved for the numbers of the generations alone, over
  all sessions, as long as the clock is past them when a session begins.

  Replies are in `OpenU60.Stk.Replies`: the protocol holds exactly along the runs where no `menu` is left
  without a reply by a failed write (`session_protocol_iff`, and `menu_left_waiting` is such a run).
-/

import OpenU60.Stk.Replies

namespace OpenU60.Stk

open OpenU60.Lib Machine

/-- The responses and selections of clients. -/
def Log.answers (log : Log) : List Write := log.writes.filter (·.request.isSome)

/-- The generation a write is for; `all` takes those of all sessions for one. -/
def Write.key (all : Bool) (x : Write) : Nat × Nat := (if all then 0 else x.session, x.generation)

/-- Below what the session may write next. -/
structure Log.Once (all : Bool) (serial generation : Nat) (log : Log) : Prop where
  nodup : (log.answers.map (Write.key all)).Nodup
  past : ∀ x ∈ log.answers, x.session ≤ serial
  below : ∀ x ∈ log.answers, (all = true ∨ x.session = serial) → x.generation ≤ generation

/-- A client's record of this generation waits for the modem. -/
def Session.Asked (s : Session) : Prop := ∃ p ∈ s.pending, p.2.reply.isSome ∧ p.2.generation = s.generation ∧ p.2.init = false

structure Session.Once (all : Bool) (s : Session) (log : Log) : Prop extends log.Once all s.serial s.generation where
  held : ∀ x ∈ log.answers, (all = true ∨ x.session = s.serial) → x.generation = s.generation → s.Asked

/-- A function of the session keeps the facts, as far as its session goes on. -/
structure Result.Once (all : Bool) (res : Result) : Prop where
  log : res.log.Once all res.session.serial res.session.generation
  goesOn : res.err = none → res.session.Once all res.log

variable {all : Bool}

theorem answers_reply (log : Log) (request : Nat) (reply : Reply) : (log.reply request reply).answers = log.answers := rfl

theorem answers_replyTo (log : Log) (request : Option Nat) (reply : Reply) : (log.replyTo request reply).answers = log.answers := by
  cases request <;> rfl

/-- The worker's own records are no answers. -/
theorem answers_own (log : Log) {x : Write} (h : x.request = none) : ({ log with writes := log.writes ++ [x] } : Log).answers = log.answers := by
  simp [Log.answers, List.filter_append, h]

theorem Log.Once.congr {serial generation : Nat} {log log' : Log} (h : log.Once all serial generation) (heq : log'.answers = log.answers) :
    log'.Once all serial generation := by
  refine ⟨?_, ?_, ?_⟩
  · rw [heq]
    exact h.nodup
  · rw [heq]
    exact h.past
  · rw [heq]
    exact h.below

theorem Log.Once.mono {serial generation later : Nat} {log : Log} (h : log.Once all serial generation) (hle : generation ≤ later) :
    log.Once all serial later :=
  ⟨h.nodup, h.past, fun x hx hs => Nat.le_trans (h.below x hx hs) hle⟩

namespace Session

variable {s : Session} {log : Log}

/-- A later generation has no writes yet. -/
theorem Once.bump {t : Session} {log' : Log} (h : s.Once all log) (hserial : t.serial = s.serial) (hgeneration : s.generation < t.generation)
    (heq : log'.answers = log.answers) : t.Once all log' where
  toOnce := by
    rw [hserial]
    exact (h.toOnce.mono (Nat.le_of_lt hgeneration)).congr heq
  held := by
    intro x hx hs hx'
    rw [heq] at hx
    rw [hserial] at hs
    have := h.below x hx hs
    omega

/-- The same session with more pending. -/
theorem Once.same {t : Session} {log' : Log} (h : s.Once all log) (hserial : t.serial = s.serial) (hgeneration : t.generation = s.generation)
    (hpending : s.Asked → t.Asked) (heq : log'.answers = log.answers) : t.Once all log' where
  toOnce := by
    rw [hserial, hgeneration]
    exact h.toOnce.congr heq
  held := by
    rw [heq, hserial, hgeneration]
    exact fun x hx hs hx' => hpending (h.held x hx hs hx')

theorem Once.result {t : Session} {log' : Log} {err : Option String} (h : t.Once all log') : (⟨t, log', err⟩ : Result).Once all :=
  ⟨h.toOnce, fun _ => h⟩

theorem Once.send_own (h : s.Once all log) (id : Nat) (raw : Bytes) (init : Bool) (failed : Option String) (now : Nat) :
    (s.send log id raw none init failed now).Once all := by
  have heq := answers_own log (x := ⟨s.serial, s.generation, id, raw, none⟩) rfl
  cases failed with
  | some e => exact ⟨h.toOnce.congr heq, nofun⟩
  | none =>
    apply Once.result
    refine h.same rfl rfl ?_ heq
    rintro ⟨p, hp, hreply⟩
    exact ⟨p, List.mem_append_left _ hp, hreply⟩

/-- Nothing waits, so nothing was answered to this generation. -/
theorem Once.send_answer (h : s.Once all log) (hidle : s.pending = []) (id : Nat) (raw : Bytes) (request : Nat) (failed : Option String) (now : Nat) :
    (s.send log id raw (some request) false failed now).Once all := by
  have hfresh : ∀ x ∈ log.answers, (all = true ∨ x.session = s.serial) → x.generation ≠ s.generation := by
    intro x hx hs hg
    obtain ⟨p, hp, -⟩ := h.held x hx hs hg
    rw [hidle] at hp
    cases hp
  let x : Write := ⟨s.serial, s.generation, id, raw, some request⟩
  let written : Log := { log with writes := log.writes ++ [x] }
  have heq : written.answers = log.answers ++ [x] := by simp [written, x, Log.answers, List.filter_append]
  have honce : written.Once all s.serial s.generation := by
    refine ⟨?_, ?_, ?_⟩
    · rw [heq, List.map_append, List.nodup_append]
      refine ⟨h.nodup, by simp, ?_⟩
      intro a ha b hb hab
      obtain ⟨y, hy, rfl⟩ := List.mem_map.mp ha
      rw [List.map_singleton, List.mem_singleton] at hb
      rw [hb] at hab
      simp only [Write.key, x, Prod.mk.injEq] at hab
      apply hfresh y hy _ hab.2
      cases all with
      | true => exact .inl rfl
      | false => exact .inr (by simpa using hab.1)
    · intro y hy
      rw [heq] at hy
      rcases List.mem_append.mp hy with hy | hy
      · exact h.past y hy
      · exact Nat.le_of_eq (congrArg Write.session (List.mem_singleton.mp hy))
    · intro y hy hs
      rw [heq] at hy
      rcases List.mem_append.mp hy with hy | hy
      · exact h.below y hy hs
      · exact Nat.le_of_eq (congrArg Write.generation (List.mem_singleton.mp hy))
  cases failed with
  | some e => exact ⟨honce.congr (answers_replyTo written _ _), nofun⟩
  | none =>
    apply Once.result
    refine ⟨honce, fun _ _ _ _ => ?_⟩
    exact ⟨_, List.mem_append_right _ (List.mem_singleton.mpr rfl), rfl, rfl, rfl⟩

theorem Once.read (h : s.Once all log) (request : Nat) (action : Action) (failed : Option String) (now : Nat) :
    (s.read log request action failed now).Once all := by
  unfold Session.read
  split
  · have hsend : ({ s with phase := .initializing, reason := "Requesting the SIM Toolkit menu" }.send log 103 [] none true failed now).Once all :=
      (h.same (t := { s with phase := .initializing, reason := "Requesting the SIM Toolkit menu" }) rfl rfl id rfl).send_own ..
    dsimp only
    split
    · exact hsend
    · rename_i hok
      exact ((hsend.goesOn hok).same rfl rfl id (answers_reply ..)).result
  · exact (h.same rfl rfl id (answers_reply ..)).result

theorem Once.handleRequest (h : s.Once all log) (request : Nat) (action : Action) (body : Json) (failed : Option String) (now : Nat) :
    (s.handleRequest log request action body failed now).Once all := by
  have hrefused : ∀ reply, (⟨s, log.reply request reply, none⟩ : Result).Once all :=
    fun reply => (h.same rfl rfl id (answers_reply log request reply)).result
  unfold Session.handleRequest
  split
  · exact h.read ..
  · split
    · exact hrefused _
    · rename_i hbusy
      have hidle : s.pending = [] := by
        by_contra hne
        exact hbusy (.inl (by simpa using hne))
      split
      · exact hrefused _
      · split
        · exact hrefused _
        · split
          · exact h.send_answer hidle ..
          · exact hrefused _

/-! ## Frames -/

/-- What is asked stays pending, unless it is what the modem answers. -/
theorem Asked.eraseP {token : Nat} {p : Nat × Pending} (h : s.Asked) (hfind : s.pending.find? (·.1 = token) = some p)
    (hother : ¬ (p.2.reply.isSome ∧ p.2.generation = s.generation ∧ p.2.init = false)) :
    ∃ q ∈ s.pending.eraseP (·.1 = token), q.2.reply.isSome ∧ q.2.generation = s.generation ∧ q.2.init = false := by
  obtain ⟨q, hq, hasked⟩ := h
  refine ⟨q, ?_, hasked⟩
  obtain ⟨hp, before, after, hpending, hbefore⟩ := List.find?_eq_some_iff_append.mp hfind
  have hne : q ≠ p := by
    rintro rfl
    exact hother hasked
  rw [hpending] at hq ⊢
  rw [List.eraseP_append_right, List.eraseP_cons_of_pos (p := fun q : Nat × Pending => decide (q.1 = token)) hp]
  · rcases List.mem_append.mp hq with hq | hq
    · exact List.mem_append_left _ hq
    · exact List.mem_append_right _ ((List.mem_cons.mp hq).resolve_left hne)
  · simpa using hbefore

theorem Once.response (h : s.Once all log) (frame : Bytes) (now : Nat) : (s.response log frame now).Once all := by
  unfold Session.response
  split
  · exact h.result
  · split
    · exact h.result
    · dsimp only
      split
      · exact h.result
      · rename_i token p hfind
        split
        · exact ⟨h.toOnce.congr (answers_replyTo ..), nofun⟩
        · split
          · -- the menu was asked for, which no client's record does
            rename_i hinit
            apply Once.result
            refine h.same rfl rfl (fun hasked => hasked.eraseP hfind ?_) (answers_replyTo ..)
            rintro ⟨-, -, hclient⟩
            rw [hclient] at hinit
            exact absurd hinit.1 (by decide)
          · split
            · -- the answer is acknowledged: the next generation
              refine ⟨(h.toOnce.mono (Nat.le_succ _)).congr (answers_replyTo ..), fun _ => ?_⟩
              exact h.bump rfl (Nat.lt_succ_self _) (answers_replyTo ..)
            · rename_i hinit hother
              apply Once.result
              refine h.same rfl rfl (fun hasked => hasked.eraseP hfind ?_) (answers_replyTo ..)
              rintro ⟨hreply, hgen, -⟩
              exact hother ⟨hreply, hgen.symm⟩

theorem Once.proactive (h : s.Once all log) (cmd : Command) (failed : Option String) (now : Nat) :
    (s.proactive log cmd failed now).Once all := by
  have hnext : ∀ t : Session, t.serial = s.serial → t.generation = s.generation + 1 → t.Once all log :=
    fun t hserial hgeneration => h.bump hserial (by omega) rfl
  unfold Session.proactive
  dsimp only
  split
  · apply Once.send_own
    exact hnext _ rfl rfl
  · split
    · apply Once.result
      exact hnext _ rfl rfl
    · apply Once.send_own
      exact hnext _ rfl rfl

theorem Once.indication (h : s.Once all log) (frame : Bytes) (failed : Option String) (now : Nat) :
    (s.indication log frame failed now).Once all := by
  unfold Session.indication
  split
  · exact h.result
  · split
    · apply Once.result
      exact h.bump rfl (Nat.lt_succ_self _) rfl
    · split
      · split
        · exact h.result
        · exact h.proactive ..
      · split
        · exact h.result
        · split
          · apply Once.result
            exact h.same rfl rfl id rfl
          · exact h.result

theorem Once.frame (h : s.Once all log) (frame : Bytes) (failed : Option String) (now : Nat) :
    (s.frame log frame failed now).Once all := by
  unfold Session.frame
  split
  · exact h.result
  · split
    · exact h.response ..
    · split
      · exact h.indication ..
      · exact h.result

/-- A request for another command. -/
theorem stale_handleRequest (log : Log) {action : Action} {body : Json} (hstale : s.fresh body = false) (hanswer : ¬ (action = .menu ∨ action = .status))
    (request : Nat) (failed : Option String) (now : Nat) : (s.handleRequest log request action body failed now).log.writes = log.writes := by
  unfold Session.handleRequest
  rw [if_neg hanswer]
  split
  · rfl
  · rw [if_pos (by simp [hstale])]
    rfl

/-- No function starts another session or goes back to an earlier generation. -/
theorem send_serial (id : Nat) (raw : Bytes) (reply : Option Nat) (init : Bool) (failed : Option String) (now : Nat) :
    (s.send log id raw reply init failed now).session.serial = s.serial := by
  cases failed <;> rfl

theorem handleRequest_serial (request : Nat) (action : Action) (body : Json) (failed : Option String) (now : Nat) :
    (s.handleRequest log request action body failed now).session.serial = s.serial := by
  unfold Session.handleRequest
  split
  · unfold Session.read
    split
    · dsimp only
      split <;> exact send_serial ..
    · rfl
  · split
    · rfl
    · split
      · rfl
      · split
        · rfl
        · split
          · exact send_serial ..
          · rfl

theorem frame_serial (frame : Bytes) (failed : Option String) (now : Nat) : (s.frame log frame failed now).session.serial = s.serial := by
  unfold Session.frame
  split
  · rfl
  · split
    · unfold Session.response
      split
      · rfl
      · split
        · rfl
        · dsimp only
          split
          · rfl
          · split
            · rfl
            · split
              · rfl
              · split <;> rfl
    · split
      · unfold Session.indication
        split
        · rfl
        · split
          · rfl
          · split
            · split
              · rfl
              · unfold Session.proactive
                dsimp only
                split
                · exact send_serial ..
                · split
                  · rfl
                  · exact send_serial ..
            · split
              · rfl
              · split <;> rfl
      · rfl

end Session

/-! ## The worker -/

namespace Worker

/-- What the log keeps between sessions. -/
structure Parted (all : Bool) (w : Worker) : Prop where
  nodup : (w.log.answers.map (Write.key all)).Nodup
  past : ∀ x ∈ w.log.answers, x.session < w.sessions
  below : ∀ x ∈ w.log.answers, all = true → x.generation ≤ w.ended

structure Going (all : Bool) (w : Worker) (s : Session) : Prop where
  once : s.Once all w.log
  serial : s.serial < w.sessions

def Inv (all : Bool) (w : Worker) : Prop :=
  match w.session with
  | some s => w.Going all s
  | none => w.Parted all

/-- A session that begins is past the generations of those before it. -/
def later (w : Worker) : Event → Prop
  | .request .menu _ (.ok clock) _ _ => w.session = none → w.ended < clock
  | _ => True

variable {w : Worker}

theorem writes_invalidate (w : Worker) (s : Session) (message : String) : (w.invalidate s message).log.writes = w.log.writes := by
  have hkept : ∀ (pending : List (Nat × Pending)) (log : Log),
      (pending.foldl (fun log p => log.replyTo p.2.reply (error 503 message)) log).writes = log.writes := by
    intro pending
    induction pending with
    | nil => intro log; rfl
    | cons p pending ih =>
      intro log
      rw [List.foldl_cons, ih]
      cases p.2.reply <;> rfl
  exact hkept s.pending w.log

theorem inv_invalidate {s : Session} (hlog : w.log.Once all s.serial s.generation) (hserial : s.serial < w.sessions) (message : String) :
    (w.invalidate s message).Inv all := by
  have heq : (w.invalidate s message).log.answers = w.log.answers := by rw [Log.answers, writes_invalidate, Log.answers]
  have hparted := hlog.congr heq
  exact ⟨hparted.nodup, fun x hx => Nat.lt_of_le_of_lt (hparted.past x hx) hserial, fun x hx hall => hparted.below x hx (.inl hall)⟩

theorem inv_settle {res : Result} (hres : res.Once all) (hserial : res.session.serial < w.sessions) : (w.settle res).Inv all := by
  unfold settle
  dsimp only
  split
  · rename_i herr
    exact ⟨hres.goesOn herr, hserial⟩
  · exact inv_invalidate (w := { w with log := res.log }) hres.log hserial _

theorem inv_connect (h : w.Parted all) (hnone : w.session = none) {connected : Except String Nat} {failed : Option String} {now : Nat}
    (hlater : ∀ clock, connected = .ok clock → all = true → w.ended < clock) : (w.connect connected failed now).Inv all := by
  cases connected with
  | error e =>
    simp only [connect, Inv, hnone]
    exact { h with }
  | ok clock =>
    have hlt := hlater clock rfl
    have heq := answers_own w.log (x := ⟨w.sessions, clock, 103, [], none⟩) rfl
    cases failed with
    | some e =>
      simp only [connect, Session.send, Inv, hnone, Log.replyTo]
      refine ⟨?_, ?_, ?_⟩
      · rw [heq]; exact h.nodup
      · rw [heq]; exact h.past
      · rw [heq]; exact h.below
    | none =>
      simp only [connect, Session.send, Inv]
      have hold : ∀ x ∈ w.log.answers, (all = true ∨ x.session = w.sessions) → x.generation < clock := by
        intro x hx hs
        rcases hs with hall | hs
        · exact Nat.lt_of_le_of_lt (h.below x hx hall) (hlt hall)
        · have := h.past x hx
          omega
      refine ⟨⟨⟨?_, ?_, ?_⟩, ?_⟩, Nat.lt_succ_self _⟩
      · rw [heq]; exact h.nodup
      · rw [heq]; exact fun x hx => Nat.le_of_lt (h.past x hx)
      · rw [heq]; exact fun x hx hs => Nat.le_of_lt (hold x hx hs)
      · rw [heq]
        intro x hx hs hx'
        exact absurd hx' (Nat.ne_of_lt (hold x hx hs))

theorem inv_dispatch (h : w.Inv all) (action : Action) (body : Json) (connected : Except String Nat) (failed : Option String) (now : Nat)
    (hlater : all = true → w.later (.request action body connected failed now)) :
    (w.dispatch action body connected failed now).Inv all := by
  have hbegun : (if w.session.isNone = true ∧ action = .menu then w.connect connected failed now else w).Inv all := by
    split
    · rename_i hmenu
      have hnone : w.session = none := Option.isNone_iff_eq_none.mp hmenu.1
      simp only [Inv, hnone] at h
      apply inv_connect h hnone
      rintro clock rfl hall
      have := hlater hall
      rw [hmenu.2] at this
      exact this hnone
    · exact h
  unfold dispatch
  dsimp only
  generalize (if w.session.isNone = true ∧ action = .menu then w.connect connected failed now else w) = begun at hbegun
  cases hs : begun.session with
  | some s =>
    simp only [Inv, hs] at hbegun
    refine inv_settle (hbegun.once.handleRequest ..) ?_
    rw [Session.handleRequest_serial]
    exact hbegun.serial
  | none =>
    simp only [Inv, hs] at hbegun ⊢
    exact ⟨hbegun.nodup, hbegun.past, hbegun.below⟩

theorem inv_step (h : w.Inv all) (e : Event) (hlater : all = true → w.later e) : (w.step e).Inv all := by
  cases e with
  | request action body connected failed now => exact inv_dispatch h action body connected failed now hlater
  | frame frame failed now =>
    simp only [step]
    split
    · rename_i s hs
      simp only [Inv, hs] at h
      refine inv_settle (h.once.frame ..) ?_
      rw [Session.frame_serial]
      exact h.serial
    · exact h
  | broken message =>
    simp only [step]
    split
    · rename_i s hs
      simp only [Inv, hs] at h
      exact inv_invalidate h.once.toOnce h.serial message
    · exact h
  | deadlines now =>
    simp only [step]
    split
    · rename_i s hs
      split
      · simp only [Inv, hs] at h
        exact inv_invalidate h.once.toOnce h.serial _
      · exact h
    · exact h

theorem Inv.nodup (h : w.Inv all) : (w.log.answers.map (Write.key all)).Nodup := by
  unfold Inv at h
  split at h
  · exact h.once.nodup
  · exact h.nodup

theorem inv_init : ({} : Worker).Inv all := ⟨List.nodup_nil, nofun, nofun⟩

/-- What acts on a command other than the one shown writes nothing. -/
def SilentIfStale (w : Worker) : Event → Prop
  | .request action body connected failed now =>
    action ≠ .menu ∧ action ≠ .status → (∀ s, w.session = some s → s.fresh body = false) →
      (w.step (.request action body connected failed now)).log.writes = w.log.writes
  | _ => True

theorem silentIfStale (e : Event) : w.SilentIfStale e := by
  cases e with
  | request action body connected failed now =>
    intro hacts hstale
    simp only [step, dispatch, hacts.1, and_false, if_false]
    split
    · rename_i s hs
      have hquiet := Session.stale_handleRequest w.log (hstale s hs) (by tauto) w.served failed now
      unfold settle
      dsimp only
      split
      · exact hquiet
      · rw [writes_invalidate]
        exact hquiet
    · rfl
  | _ => trivial

/-- A request that waits beyond its deadline is told when the worker looks. -/
def Prompt (w : Worker) : Event → Prop
  | .deadlines now => ∀ s, w.session = some s → ∀ p ∈ s.pending, p.2.deadline ≤ now → ∀ r, (w.step (.deadlines now)).waits r = 0
  | _ => True

theorem prompt (e : Event) : w.Prompt e := by
  cases e with
  | deadlines now =>
    intro s hs p hp hover r
    have hany : s.pending.any (·.2.deadline ≤ now) = true := List.any_eq_true.mpr ⟨p, hp, by simpa using hover⟩
    simp only [step, hs, Session.checkDeadlines, hany, if_true]
    exact invalidate_waits w r s _
  | _ => trivial

end Worker

/-! ## Runs -/

/-- The protocol after a run: one answer to each generation of a session (and to each number, if every
    session begins past those before it), none for another command than the one shown, and one reply to
    each request. -/
structure Protocol (es : List Event) : Prop where
  once : ((exec Worker.step {} es).log.answers.map fun x => (x.session, x.generation)).Nodup
  onceOverall : Along Worker.step Worker.later {} es → ((exec Worker.step {} es).log.answers.map (·.generation)).Nodup
  stale : Along Worker.step Worker.SilentIfStale {} es
  settled : (exec Worker.step {} es).Settled
  prompt : Along Worker.step Worker.Prompt {} es

theorem once_exec (es : List Event) : ((exec Worker.step {} es).log.answers.map (Write.key false)).Nodup :=
  (invariant (I := Worker.Inv false) (fun _ e h => Worker.inv_step h e nofun) Worker.inv_init).nodup

theorem once_exec_overall {es : List Event} (h : Along Worker.step Worker.later {} es) :
    ((exec Worker.step {} es).log.answers.map (Write.key true)).Nodup :=
  (invariant_along (I := Worker.Inv true) (fun _ e h hlater => Worker.inv_step h e fun _ => hlater) Worker.inv_init h).nodup

theorem session_protocol_iff (es : List Event) : Protocol es ↔ Along Worker.step (fun w e => w.loses e = false) {} es := by
  have hsettled := Worker.settled_iff (w := {}) (fun _ _ => rfl) es
  have hempty : ({} : Worker).Settled := fun _ hr => absurd hr (Nat.not_lt_zero _)
  constructor
  · intro h
    exact along_mono (fun _ _ hkept => by simpa using hkept) (hsettled.mp h.settled).2
  · intro h
    refine ⟨once_exec es, fun hlater => ?_, ?_, ?_, ?_⟩
    · have := once_exec_overall hlater
      rw [List.nodup_iff_pairwise_ne, List.pairwise_map] at this ⊢
      exact this.imp fun hne heq => hne (by simp [Write.key, heq])
    · exact along_invariant (I := fun _ => True) (fun _ _ _ => trivial) (fun _ e _ => Worker.silentIfStale e) trivial
    · exact hsettled.mpr ⟨hempty, along_mono (fun _ _ hkept => by simpa using hkept) h⟩
    · exact along_invariant (I := fun _ => True) (fun _ _ _ => trivial) (fun _ e _ => Worker.prompt e) trivial

/-- The session begins, the modem accepts it and has no menu; the write that asks for it again fails, and
    the page that asked (request 1) is told nothing. -/
def lostMenu : List Event :=
  [.request .menu (.obj []) (.ok 1000) none 0,
    .frame [0, 0, 0, 0, 0, 0, 0, 0, 0, 0, 0, 1, 0, 0, 0, 0] none 1,
    .request .menu (.obj []) (.error "") (some "Broken pipe (os error 32)") 2]

theorem menu_left_waiting : ¬ Protocol lostMenu := by
  intro h
  exact absurd (h.settled 1 (by decide)) (by decide)

end OpenU60.Stk
