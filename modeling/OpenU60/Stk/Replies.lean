/-
  OpenU60.Stk.Replies — what the requests are told, over every order of requests, records, errors of the
  socket and looks at the deadlines.

  A request's account is the replies it had and the pending records that still hold its reply channel.
  Every function of the session keeps every account, and a served request gets its own account of one
  (`account_dispatch`), with one exception: a `menu` that asks the modem for its menu again and whose
  write fails is told nothing (`Session.drops`); every other failed write that a request made answers it.
  So along every run without such a step each served request has one reply, or waits and has none
  (`settled_iff`, which is exact), and when a session ends nothing waits any more (`invalidate_waits`).
-/

import OpenU60.Stk.Session

namespace OpenU60.Stk

open OpenU60.Lib Machine

def Log.repliesTo (log : Log) (r : Nat) : Nat := log.replies.countP (·.1 = r)

def Session.waits (s : Session) (r : Nat) : Nat := s.pending.countP (·.2.reply = some r)

def Result.account (res : Result) (r : Nat) : Nat := res.log.repliesTo r + res.session.waits r

def Worker.waits (w : Worker) (r : Nat) : Nat := (w.session.map (·.waits r)).getD 0

def Worker.account (w : Worker) (r : Nat) : Nat := w.log.repliesTo r + w.waits r

/-- One if it is this request. -/
def hit (request : Option Nat) (r : Nat) : Nat := if request = some r then 1 else 0

@[simp] theorem hit_none (r : Nat) : hit none r = 0 := rfl

@[simp] theorem repliesTo_reply (log : Log) (request : Nat) (reply : Reply) (r : Nat) :
    (log.reply request reply).repliesTo r = log.repliesTo r + hit (some request) r := by
  by_cases h : request = r <;> simp [Log.reply, Log.repliesTo, hit, h]

@[simp] theorem repliesTo_replyTo (log : Log) (request : Option Nat) (reply : Reply) (r : Nat) :
    (log.replyTo request reply).repliesTo r = log.repliesTo r + hit request r := by
  cases request with
  | none => rfl
  | some request => exact repliesTo_reply log request reply r

theorem countP_eraseP {α : Type} {p q : α → Bool} {l : List α} {a : α} (h : l.find? p = some a) :
    l.countP q = (l.eraseP p).countP q + if q a then 1 else 0 := by
  induction l with
  | nil => simp at h
  | cons b l ih =>
    by_cases hb : p b
    · rw [List.find?_cons_of_pos hb, Option.some.injEq] at h
      rw [List.eraseP_cons_of_pos hb, List.countP_cons, h]
    · rw [List.find?_cons_of_neg hb] at h
      rw [List.eraseP_cons_of_neg hb, List.countP_cons, List.countP_cons, ih h]
      omega

/-! ## The functions of a session -/

namespace Session

variable (s : Session) (log : Log) (failed : Option String) (now : Nat) (r : Nat)

theorem account_send (id : Nat) (raw : Bytes) (reply : Option Nat) (init : Bool) :
    (s.send log id raw reply init failed now).account r = log.repliesTo r + s.waits r + hit reply r := by
  cases failed with
  | some e =>
    simp only [send, Result.account, waits, repliesTo_replyTo]
    simp only [Log.repliesTo]
    omega
  | none =>
    simp only [send, Result.account, waits, Log.repliesTo, List.countP_append, List.countP_singleton, hit, decide_eq_true_eq]
    omega

/-- The `menu` whose write fails and that is told nothing. -/
def drops (action : Action) : Bool :=
  decide (action = .menu ∧ s.phase = .menuUnavailable ∧ s.pending.isEmpty ∧ failed.isSome)

theorem account_read (request : Nat) (action : Action) :
    (s.read log request action failed now).account r = log.repliesTo r + s.waits r + if s.drops failed action then 0 else hit (some request) r := by
  unfold read
  split
  · rename_i hmenu
    have hsend := account_send { s with phase := .initializing, reason := "Requesting the SIM Toolkit menu" } log failed now r 103 [] none true
    cases failed with
    | some e =>
      have hdrops : s.drops (some e) action = true := by simpa [drops] using hmenu
      rw [hdrops]
      exact hsend
    | none =>
      have hkept : s.drops none action = false := by simp [drops]
      rw [hkept]
      show (Log.reply _ request _).repliesTo r + _ = _
      rw [repliesTo_reply]
      simp only [Result.account, hit_none, Nat.add_zero] at hsend
      simp only [send, waits] at hsend ⊢
      simp only [Bool.false_eq_true, if_false]
      omega
  · rename_i hmenu
    have hkept : s.drops failed action = false := by
      simp only [drops, decide_eq_false_iff_not]
      exact fun h => hmenu ⟨h.1, h.2.1, h.2.2.1⟩
    rw [hkept]
    simp only [Result.account, repliesTo_reply, Bool.false_eq_true, if_false]
    omega

theorem account_refusal (request : Nat) (reply : Reply) :
    (⟨s, log.reply request reply, none⟩ : Result).account r = log.repliesTo r + s.waits r + hit (some request) r := by
  simp only [Result.account, repliesTo_reply]
  omega

theorem account_handleRequest (request : Nat) (action : Action) (body : Json) :
    (s.handleRequest log request action body failed now).account r =
      log.repliesTo r + s.waits r + if s.drops failed action then 0 else hit (some request) r := by
  unfold handleRequest
  split
  · exact account_read s log failed now r request action
  · rename_i hread
    have hkept : s.drops failed action = false := by
      simp only [drops, decide_eq_false_iff_not]
      exact fun h => hread (.inl h.1)
    rw [hkept]
    simp only [Bool.false_eq_true, if_false]
    split
    · exact account_refusal ..
    · split
      · exact account_refusal ..
      · split
        · exact account_refusal ..
        · split
          · exact account_send ..
          · exact account_refusal ..

theorem account_response (frame : Bytes) : (s.response log frame now).account r = log.repliesTo r + s.waits r := by
  unfold response
  split
  · rfl
  · split
    · rfl
    · dsimp only
      split
      · rfl
      · rename_i p hfind
        have hcount : s.waits r = (s.pending.eraseP (·.1 = BigEndian.ofBytes ((frame.drop 4).take 8))).countP (·.2.reply = some r) + hit p.reply r := by
          rw [waits, countP_eraseP hfind]
          simp only [hit, decide_eq_true_eq]
        split
        · simp only [Result.account, repliesTo_replyTo, hcount]
          simp only [waits]
          omega
        · simp only [Result.account, repliesTo_replyTo]
          have hpending : ∀ t : Session, t.pending = s.pending.eraseP (·.1 = BigEndian.ofBytes ((frame.drop 4).take 8)) →
              log.repliesTo r + hit p.reply r + t.waits r = log.repliesTo r + s.waits r := by
            intro t ht
            rw [hcount, waits, ht]
            omega
          apply hpending
          split
          · rfl
          · split <;> rfl

theorem account_proactive (cmd : Command) : (s.proactive log cmd failed now).account r = log.repliesTo r + s.waits r := by
  unfold proactive
  dsimp only
  split
  · exact account_send ..
  · split
    · rfl
    · exact account_send ..

theorem account_indication (frame : Bytes) : (s.indication log frame failed now).account r = log.repliesTo r + s.waits r := by
  unfold indication
  split
  · rfl
  · split
    · rfl
    · split
      · split
        · rfl
        · exact account_proactive ..
      · split
        · rfl
        · split <;> rfl

theorem account_frame (frame : Bytes) : (s.frame log frame failed now).account r = log.repliesTo r + s.waits r := by
  unfold Session.frame
  split
  · rfl
  · split
    · exact account_response ..
    · split
      · exact account_indication ..
      · rfl

end Session

/-! ## The worker -/

namespace Worker

variable (w : Worker) (r : Nat)

theorem repliesTo_foldl (pending : List (Nat × Pending)) (message : String) (log : Log) :
    (pending.foldl (fun log p => log.replyTo p.2.reply (error 503 message)) log).repliesTo r = log.repliesTo r + pending.countP (·.2.reply = some r) := by
  induction pending generalizing log with
  | nil => rfl
  | cons p pending ih =>
    rw [List.foldl_cons, ih, repliesTo_replyTo, List.countP_cons]
    simp only [hit, decide_eq_true_eq]
    omega

/-- Whoever waited has its reply. -/
theorem invalidate_waits (s : Session) (message : String) : (w.invalidate s message).waits r = 0 := rfl

theorem account_invalidate (s : Session) (message : String) : (w.invalidate s message).account r = w.log.repliesTo r + s.waits r := by
  simp only [account, invalidate_waits]
  exact repliesTo_foldl r s.pending message w.log

theorem account_settle (res : Result) : (w.settle res).account r = res.account r := by
  unfold settle
  dsimp only
  split
  · rfl
  · exact account_invalidate ..

theorem account_some {s : Session} (h : w.session = some s) : w.account r = w.log.repliesTo r + s.waits r := by
  simp only [account, waits, h, Option.map_some, Option.getD_some]

theorem account_none (h : w.session = none) : w.account r = w.log.repliesTo r := by
  simp only [account, waits, h, Option.map_none, Option.getD_none, Nat.add_zero]

/-- Connecting tells nobody; the new session asks for its menu and has a record pending. -/
theorem account_connect (connected : Except String Nat) (failed : Option String) (now : Nat) (h : w.session = none) :
    (w.connect connected failed now).account r = w.account r := by
  rw [account_none w r h]
  cases connected with
  | error e => exact account_none _ r h
  | ok clock => cases failed <;> simp [connect, Session.send, account, waits, Session.waits, Log.replyTo, Log.repliesTo, h]

theorem connect_drops {connected : Except String Nat} {failed : Option String} {now : Nat} (h : w.session = none) {s : Session}
    (hs : (w.connect connected failed now).session = some s) (again : Option String) (action : Action) : s.drops again action = false := by
  cases connected with
  | error e => simp [connect, h] at hs
  | ok clock =>
    cases failed with
    | some e => simp [connect, Session.send, h] at hs
    | none =>
      simp only [connect, Session.send, Option.some.injEq] at hs
      subst hs
      simp [Session.drops]

/-- The step that leaves a request without a reply. -/
def loses (w : Worker) : Event → Bool
  | .request action _ _ failed _ => w.session.any (·.drops failed action)
  | _ => false

theorem account_dispatch (action : Action) (body : Json) (connected : Except String Nat) (failed : Option String) (now : Nat) :
    (w.dispatch action body connected failed now).account r =
      w.account r + if w.loses (.request action body connected failed now) then 0 else hit (some w.served) r := by
  unfold dispatch loses
  dsimp only
  cases hs : w.session with
  | some s =>
    simp only [Option.isNone_some, Bool.false_eq_true, false_and, if_false, hs, Option.any_some]
    rw [account_settle, Session.account_handleRequest, account_some w r hs]
  | none =>
    simp only [Option.isNone_none, true_and, Option.any_none, Bool.false_eq_true, if_false]
    have hsame : (if action = .menu then w.connect connected failed now else w).account r = w.account r := by
      split
      · exact account_connect w r connected failed now hs
      · rfl
    rw [← hsame]
    split
    · rename_i s hnew
      have hdrops : s.drops failed action = false := by
        split at hnew
        · exact connect_drops w hs hnew failed action
        · rw [hs] at hnew
          cases hnew
      rw [account_settle, Session.account_handleRequest, hdrops, account_some _ r hnew]
      rfl
    · rename_i hnew
      have hbefore := account_none (if action = .menu then w.connect connected failed now else w) r hnew
      rw [hbefore, account_none _ r (by exact hnew)]
      exact repliesTo_reply ..

theorem served_settle (res : Result) : (w.settle res).served = w.served := by
  unfold settle
  dsimp only
  split <;> rfl

theorem served_dispatch (action : Action) (body : Json) (connected : Except String Nat) (failed : Option String) (now : Nat) :
    (w.dispatch action body connected failed now).served = w.served + 1 := by
  have hconnect : (w.connect connected failed now).served = w.served := by
    unfold connect
    split
    · rfl
    · dsimp only
      split <;> rfl
  have hsame : (if w.session.isNone = true ∧ action = .menu then w.connect connected failed now else w).served = w.served := by
    split
    · exact hconnect
    · rfl
  unfold dispatch
  dsimp only
  split
  · rw [served_settle, hsame]
  · rw [hsame]

/-! ## Runs -/

/-- Nothing but a request changes an account or the number of requests. -/
theorem account_quiet {e : Event} (h : ∀ action body connected failed now, e ≠ .request action body connected failed now) :
    (w.step e).account r = w.account r ∧ (w.step e).served = w.served := by
  cases e with
  | request action body connected failed now => exact absurd rfl (h action body connected failed now)
  | frame frame failed now =>
    simp only [step]
    split
    · rename_i s hs
      rw [account_settle, Session.account_frame, account_some w r hs]
      exact ⟨rfl, served_settle w _⟩
    · exact ⟨rfl, rfl⟩
  | broken message =>
    simp only [step]
    split
    · rename_i s hs
      exact ⟨by rw [account_invalidate, account_some w r hs], rfl⟩
    · exact ⟨rfl, rfl⟩
  | deadlines now =>
    simp only [step]
    split
    · rename_i s hs
      split
      · exact ⟨by rw [account_invalidate, account_some w r hs], rfl⟩
      · exact ⟨rfl, rfl⟩
    · exact ⟨rfl, rfl⟩

/-- Every served request had its one reply, or waits and had none. -/
def Settled : Prop := ∀ r < w.served, w.account r = 1

/-- Nothing was told to requests that were not served yet. -/
def Unasked : Prop := ∀ r, w.served ≤ r → w.account r = 0

variable {w}

theorem Unasked.step (h : w.Unasked) (e : Event) : (w.step e).Unasked := by
  intro r hr
  by_cases hask : ∃ action body connected failed now, e = .request action body connected failed now
  · obtain ⟨action, body, connected, failed, now, rfl⟩ := hask
    rw [Worker.step, served_dispatch] at hr
    have hne : w.served ≠ r := by omega
    rw [Worker.step, account_dispatch, h r (by omega)]
    simp [hit, hne]
  · have hquiet := account_quiet w r (fun a b c f n he => hask ⟨a, b, c, f, n, he⟩)
    rw [hquiet.2] at hr
    rw [hquiet.1]
    exact h r hr

theorem settled_step (h : w.Unasked) (e : Event) : (w.step e).Settled ↔ ¬ w.loses e ∧ w.Settled := by
  by_cases hask : ∃ action body connected failed now, e = .request action body connected failed now
  · obtain ⟨action, body, connected, failed, now, rfl⟩ := hask
    have haccount := fun r => account_dispatch w r action body connected failed now
    have hserved := served_dispatch w action body connected failed now
    constructor
    · intro hsettled
      refine ⟨fun hloses => ?_, fun r hr => ?_⟩
      · have hown := hsettled w.served (by rw [Worker.step, hserved]; omega)
        rw [Worker.step, haccount, h w.served (by omega), hloses] at hown
        simp at hown
      · have hold := hsettled r (by rw [Worker.step, hserved]; omega)
        have hne : w.served ≠ r := by omega
        rw [Worker.step, haccount] at hold
        simpa [hit, hne] using hold
    · rintro ⟨hkept, hsettled⟩ r hr
      rw [Worker.step, hserved] at hr
      rw [Worker.step, haccount, if_neg hkept]
      by_cases hown : w.served = r
      · rw [h r (by omega)]
        simp [hit, hown]
      · rw [hsettled r (by omega)]
        simp [hit, hown]
  · have hquiet := fun r => account_quiet w r (fun a b c f n he => hask ⟨a, b, c, f, n, he⟩)
    have hkept : w.loses e = false := by
      cases e with
      | request action body connected failed now => exact absurd ⟨_, _, _, _, _, rfl⟩ hask
      | _ => rfl
    simp only [Settled, (hquiet 0).2, hquiet, hkept, Bool.false_eq_true, not_false_eq_true, true_and]

theorem settled_iff (h : w.Unasked) (es : List Event) :
    (exec Worker.step w es).Settled ↔ w.Settled ∧ Along Worker.step (fun w e => ¬ w.loses e) w es := by
  induction es generalizing w with
  | nil => exact ⟨fun hs => ⟨hs, trivial⟩, And.left⟩
  | cons e es ih =>
    rw [exec_cons, ih (h.step e), settled_step h e]
    exact ⟨fun ⟨⟨hkept, hs⟩, hrest⟩ => ⟨hs, hkept, hrest⟩, fun ⟨hs, hkept, hrest⟩ => ⟨⟨hkept, hs⟩, hrest⟩⟩

end Worker

end OpenU60.Stk
