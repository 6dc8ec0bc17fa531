/-
  OpenU60.Esim.Hygiene — what a download leaves of its sessions.

  `Account` reads the exchanges of a run with the environment: the session the card opened,
  what stopped the run, whether a Cancel was waiting when it did, and what was sent to
  cancel. `Hygienic` is the law: no cancel before the card opened a session or after it
  reported an installation result, else one to the card with the reason of what stopped the
  run, and one to the server if the card agreed and the server had not ended the procedure.

  `session_hygiene_iff`: a run keeps the law exactly when it is `Proper`. A failure the
  server reported is where it can go wrong: a waiting Cancel replaces the whole stop, so the
  server is told of a procedure it has ended, and the same follows when the server's own
  message reads like an HTTP failure. An id no request can carry leaves the session open.
-/

import OpenU60.Esim.Download

namespace OpenU60.Esim

open OpenU60.Lib
open OpenU60.Lib.Dialogue

/-- The server answered with a failure of its own, which ends the procedure. -/
def Es9pStatus.reported (e : Es9pStatus) : Bool := e.transportError.isNone && e.subjectCode != "0.0.0"

/-- What stops a download. -/
inductive Cause where
  | decision (d : DownloadCtl)
  | card (e : EuiccError)
  | server (e : Es9pStatus)
  | metadata
  | codeRequired
  | noTime
  | install
  deriving DecidableEq

/-- Network and HTTP failures, and a modem that did not answer, are worth a retry. -/
def Cause.reason : Cause → CancelSessionReason
  | .decision .decline => .endUserRejection
  | .decision .previewTimeout => .timeout
  | .decision _ => .postponed
  | .card (.transport _) => .timeout
  | .card _ => .undefined
  | .server e =>
    if e.reported then .undefined
    else if e.transportError.isSome || e.message == httpStatusError then .timeout
    else .undefined
  | .metadata => .undefined
  | .codeRequired => .postponed
  | .noTime => .timeout
  | .install => .loadBppExecutionError

/-- The server ended the procedure itself. -/
def Cause.endedByServer : Cause → Bool
  | .server e => e.reported
  | _ => false

structure Account where
  /-- The id of the session the card opened. -/
  opened : Option (List UInt8) := none
  cause : Option Cause := none
  /-- A Cancel was waiting when the run stopped. -/
  queued : Bool := false
  /-- The package is at hand. -/
  packaged : Bool := false
  /-- The card reported an installation result. -/
  reported : Bool := false
  /-- The reasons sent to the card, and whether it agreed. -/
  cancels : List (CancelSessionReason × Bool) := []
  told : Nat := 0
  /-- A cancel was sent before the card had opened a session. -/
  early : Bool := false
  deriving DecidableEq

namespace Account

variable (cx : Codec) (confirmationCode : Option String)

def failed {α ε : Type} (a : Account) (r : Except ε α) (c : ε → Cause) : Account :=
  match r with
  | .ok _ => a
  | .error e => { a with cause := some (c e) }

def note (a : Account) : Exchange Ask Ask.Answer → Account
  | ⟨.cancelled, waiting⟩ =>
    if waiting then
      if a.cause.isNone then { a with cause := some (.decision .cancel) } else { a with queued := true }
    else a
  | ⟨.recvTimeout _, d⟩ =>
    if d = some .accept then a else { a with cause := some (.decision (d.getD .previewTimeout)) }
  | ⟨.left, n⟩ => if a.packaged ∧ n < installMin then { a with cause := some .noTime } else a
  | ⟨.getEuiccChallenge, r⟩ => a.failed r .card
  | ⟨.getEuiccInfo1, r⟩ => a.failed r .card
  | ⟨.initiateAuthentication _ _ _ _, r⟩ => a.failed r .server
  | ⟨.authenticateServer _ _, r⟩ =>
    match r with
    | .ok (tid, _) => { a with opened := some tid }
    | .error e => { a with cause := some (.card e) }
  | ⟨.authenticateClient _ _ _ _, r⟩ =>
    match r with
    | .ok p =>
      match cx.parseMetadata p.b64ProfileMetadata with
      | .error _ => { a with cause := some .metadata }
      | .ok _ =>
        if lacksCode confirmationCode && confirmationRequiredByServer cx p.b64SmdpSigned2 then
          { a with cause := some .codeRequired }
        else a
    | .error e => { a with cause := some (.server e) }
  | ⟨.prepareDownload _ _ _, r⟩ => a.failed r .card
  | ⟨.getBoundProfilePackage _ _ _ _, r⟩ =>
    match r with
    | .ok _ => { a with packaged := true }
    | .error e => { a with cause := some (.server e) }
  | ⟨.loadBoundProfilePackage _, r⟩ =>
    match r with
    | .ok _ => { a with reported := true }
    | .error _ => { a with cause := some .install }
  | ⟨.cancelSession _ reason, r⟩ =>
    { a with cancels := a.cancels ++ [(reason, r.isOk)], early := a.early || a.opened.isNone }
  | ⟨.es9pCancelSession _ _ _ _, _⟩ => { a with told := a.told + 1, early := a.early || a.opened.isNone }
  | ⟨.progress _ _, _⟩ => a

/-- The reason the run is cancelled for: a waiting Cancel postpones it. -/
def reason (a : Account) (c : Cause) : CancelSessionReason := if a.queued then .postponed else c.reason

/-- One cancel to the card, for `c`, and one to the server if the card agreed and the server
    goes on. -/
def CancelledFor (a : Account) (c : Cause) : Prop :=
  ∃ agreed, a.cancels = [(a.reason c, agreed)] ∧ a.told = if agreed && !c.endedByServer then 1 else 0

def Hygienic (a : Account) : Prop :=
  a.early = false ∧
    match a.opened with
    | none => a.cancels = [] ∧ a.told = 0
    | some _ =>
      (a.reported = true ∧ a.cancels = [] ∧ a.told = 0) ∨ (a.reported = false ∧ ∃ c, a.cause = some c ∧ a.CancelledFor c)

/-- A request can carry the session's id. -/
def fits (tid : List UInt8) : Bool :=
  !tid.isEmpty && (cancelSessionRequest tid .undefined).length ≤ requestBuffer

/-- The runs in which the sessions are left as they should be: none was opened, or an
    installation result came, or the session's id fits a request and, where the server
    reported the failure, its message is not the one of an HTTP failure unless a Cancel
    replaced it, and a Cancel was not waiting unless the card refused to cancel. -/
def Proper (a : Account) : Prop :=
  ∀ tid, a.opened = some tid → a.reported = false →
    fits tid = true ∧
      ∀ e, a.cause = some (.server e) → e.reported = true →
        (e.message = httpStatusError → a.queued = true) ∧
          (a.queued = true → ∀ s ∈ a.cancels, s.2 = false)

/-- Nothing has been cancelled and no Cancel has been seen after a stop. -/
structure Quiet (a : Account) : Prop where
  cancels : a.cancels = []
  told : a.told = 0
  early : a.early = false
  queued : a.queued = false

end Account

/-! ## Up to the stop -/

section Procedure

variable (cx : Codec) (confirmationCode : Option String)

/-- The stop the code makes of a cause. -/
def Stops (stop : Stop) : Cause → Prop
  | .server e => ∃ step, stop = Stop.server step e
  | c => stop.reason = some c.reason ∧ stop.notifyServer = true

/-- Where `steps` ends: with an installation result, without a session, or with a cause and
    the stop made of it. -/
def AtEnd (a : Account) (r : Except Stop Installed) (x : Option Session) : Prop :=
  a.Quiet ∧
    match r with
    | .ok _ => a.reported = true
    | .error stop =>
      (x = none ∧ (a.opened = none ∨ a.reported = true)) ∨
        (a.reported = false ∧ ∃ c, a.cause = some c ∧ Stops stop c ∧ x.map (·.1) = a.opened)

abbrev Accounts {α : Type} (m : Steps α) (a : Account) (x : Option Session)
    (P : Account → Except Stop α → Option Session → Prop) : Prop :=
  Does (Account.note cx confirmationCode) (fun _ _ => True) m a x P

abbrev Leaves {α : Type} (p : Procedure α) (a : Account) (P : Account → α → Prop) : Prop :=
  Keeps (Account.note cx confirmationCode) (fun _ _ => True) p a P

variable {cx confirmationCode} {α β : Type} {a : Account} {x : Option Session}
  {P : Account → Except Stop β → Option Session → Prop}

theorem ask_bind {q : Ask} {f : q.Answer → Steps β}
    (hf : ∀ r, Accounts cx confirmationCode (f r) (a.note cx confirmationCode ⟨q, r⟩) x P) :
    Accounts cx confirmationCode (ask q >>= f) a x P :=
  does_put_bind trivial hf

theorem progress_bind {step : Step} {d : Json} {f : Unit → Steps β}
    (hf : Accounts cx confirmationCode (f ()) a x P) : Accounts cx confirmationCode (progress step d >>= f) a x P :=
  does_put_bind trivial fun _ => hf

theorem honourCancel_bind {f : Unit → Steps β} (ha : a.cause = none)
    (hstop : P { a with cause := some (.decision .cancel) } (.error (Stop.user .cancel)) x)
    (hgo : Accounts cx confirmationCode (f ()) a x P) : Accounts cx confirmationCode (honourCancel >>= f) a x P := by
  refine does_bind.mpr (ask_bind fun waiting => ?_)
  cases waiting with
  | false => exact hgo
  | true => simpa [Account.note, ha, Task.stopIf, Accounts, does_throw] using hstop

/-- A stop before the card has opened its session. -/
theorem atEnd_unopened {a : Account} (hq : a.Quiet) (ho : a.opened = none) (stop : Stop) :
    AtEnd a (.error stop) none := ⟨hq, .inl ⟨rfl, .inl ho⟩⟩

variable {tid : List UInt8} {c : Cause} {stop : Stop}

theorem atEnd_stopped {sid : String} {packaged : Bool} (hs : Stops stop c) :
    AtEnd { opened := some tid, packaged, cause := some c } (.error stop) (some (tid, sid)) :=
  ⟨⟨rfl, rfl, rfl, rfl⟩, .inr ⟨rfl, c, rfl, hs, rfl⟩⟩

theorem stops_card (step : Step) (e : EuiccError) : Stops (Stop.card step e) (.card e) := by
  cases e <;> exact ⟨rfl, rfl⟩

/-- The card's session is open, or the download stopped before. -/
theorem authenticate_accounts (code : ActivationCode) :
    Accounts cx confirmationCode (authenticate code) {} none fun a r x =>
      match r with
      | .ok (session, _) => a = { opened := some session.1 } ∧ x = some session
      | .error stop => AtEnd a (.error stop) x := by
  unfold authenticate
  refine progress_bind (ask_bind fun challenge => does_orStop_bind ?_ ?_)
  rotate_left
  · intro e he; subst he
    exact atEnd_unopened ⟨rfl, rfl, rfl, rfl⟩ rfl _
  intro challenge hc; subst hc
  refine ask_bind fun info1 => does_orStop_bind ?_ ?_
  rotate_left
  · intro e he; subst he
    exact atEnd_unopened ⟨rfl, rfl, rfl, rfl⟩ rfl _
  intro info1 hi; subst hi
  refine honourCancel_bind rfl (atEnd_unopened ⟨rfl, rfl, rfl, rfl⟩ rfl _) ?_
  refine progress_bind (ask_bind fun limit => ask_bind fun initiated => does_orStop_bind ?_ ?_)
  rotate_left
  · intro e he; subst he
    exact atEnd_unopened ⟨rfl, rfl, rfl, rfl⟩ rfl _
  intro initiated hi; subst hi
  refine honourCancel_bind rfl (atEnd_unopened ⟨rfl, rfl, rfl, rfl⟩ rfl _) ?_
  refine progress_bind (ask_bind fun authenticated => does_orStop_bind ?_ ?_)
  rotate_left
  · intro e he; subst he
    exact atEnd_unopened ⟨rfl, rfl, rfl, rfl⟩ rfl _
  intro authenticated ha; subst ha
  refine does_set_bind (honourCancel_bind rfl (atEnd_stopped ⟨rfl, rfl⟩) ?_)
  exact ⟨rfl, rfl⟩

/-- With or without a preview, the download goes on or stops on a decision. -/
theorem awaitDecision_accounts {a : Account} (hc : a.cause = none) (hp : a.packaged = false) (preview : Bool) :
    Accounts cx confirmationCode (awaitDecision preview) a x fun a' r x' =>
      x' = x ∧
        match r with
        | .ok _ => a' = a
        | .error stop => ∃ d, a' = { a with cause := some (.decision d) } ∧ Stops stop (.decision d) := by
  cases preview with
  | true =>
    refine progress_bind (ask_bind fun limit => ask_bind fun answer => ?_)
    have hlimit : Account.note cx confirmationCode a ⟨.left, limit⟩ = a := by simp [Account.note, hp]
    rw [hlimit]
    cases answer with
    | none => exact ⟨rfl, .previewTimeout, rfl, rfl, rfl⟩
    | some d =>
      cases d with
      | accept => exact ⟨rfl, rfl⟩
      | decline => exact ⟨rfl, .decline, rfl, rfl, rfl⟩
      | cancel => exact ⟨rfl, .cancel, rfl, rfl, rfl⟩
      | previewTimeout => exact ⟨rfl, .previewTimeout, rfl, rfl, rfl⟩
  | false =>
    refine does_bind.mpr (ask_bind fun waiting => ?_)
    cases waiting with
    | false => exact ⟨rfl, rfl⟩
    | true =>
      simp only [Account.note, hc]
      exact ⟨rfl, .cancel, rfl, rfl, rfl⟩

theorem install_accounts (tid : List UInt8) (sid package : String) :
    Accounts cx confirmationCode (install package) { opened := some tid, packaged := true } (some (tid, sid)) AtEnd := by
  unfold install
  refine ask_bind fun loaded => does_orStop_bind ?_ ?_
  · intro result hr; subst hr
    split
    · exact ⟨⟨rfl, rfl, rfl, rfl⟩, rfl⟩
    · exact does_set_bind ⟨⟨rfl, rfl, rfl, rfl⟩, .inl ⟨rfl, .inr rfl⟩⟩
  · intro e he; subst he
    exact atEnd_stopped ⟨rfl, rfl⟩

theorem steps_accounts (code : ActivationCode) (preview : Bool) :
    Accounts cx confirmationCode (steps cx code confirmationCode preview) {} none AtEnd := by
  unfold steps
  refine does_stopIf_bind (fun _ => atEnd_unopened ⟨rfl, rfl, rfl, rfl⟩ rfl _) fun _ => ?_
  refine does_bind.mpr (Does.mono (authenticate_accounts code) ?_)
  intro a r x hr
  match r with
  | .error stop => exact hr
  | .ok ((tid, sid), response) =>
    obtain ⟨rfl, rfl⟩ := hr
    refine progress_bind (ask_bind fun limit => ask_bind fun prepare => does_orStop_bind ?_ ?_)
    rotate_left
    · intro e he; subst he
      exact atEnd_stopped ⟨_, rfl⟩
    intro prepare hp; subst hp
    refine does_orStop_bind ?_ ?_
    rotate_left
    · intro e he
      simp only [Account.note, he]
      exact atEnd_stopped ⟨rfl, rfl⟩
    intro metadata hm
    refine progress_bind (does_stopIf_bind ?_ ?_)
    · intro hc
      simp only [Account.note, hm, hc, if_true]
      exact atEnd_stopped ⟨rfl, rfl⟩
    intro hc
    simp only [Account.note, hm, hc, Bool.false_eq_true, false_and, if_false]
    refine does_bind.mpr (Does.mono (awaitDecision_accounts (a := { opened := some tid }) rfl rfl preview) ?_)
    intro a r x hr
    match r with
    | .error stop =>
      obtain ⟨rfl, d, rfl, hs⟩ := hr
      exact atEnd_stopped hs
    | .ok _ =>
      obtain ⟨rfl, rfl⟩ := hr
      refine progress_bind (ask_bind fun prepared => does_orStop_bind ?_ ?_)
      rotate_left
      · intro e he; subst he
        exact atEnd_stopped (stops_card _ e)
      intro prepared hp; subst hp
      refine honourCancel_bind rfl (atEnd_stopped ⟨rfl, rfl⟩) ?_
      refine progress_bind (ask_bind fun limit => ask_bind fun package => does_orStop_bind ?_ ?_)
      rotate_left
      · intro e he; subst he
        exact atEnd_stopped ⟨_, rfl⟩
      intro package hp; subst hp
      refine honourCancel_bind rfl (atEnd_stopped ⟨rfl, rfl⟩) (ask_bind fun remaining => ?_)
      refine does_stopIf_bind ?_ ?_
      · intro hl
        have hlate : remaining < installMin := by simpa using hl
        simp only [Account.note, hlate, and_self, if_true]
        exact atEnd_stopped ⟨rfl, rfl⟩
      intro hl
      have htime : ¬ remaining < installMin := by simpa using hl
      simp only [Account.note, htime, and_false, if_false]
      exact progress_bind (honourCancel_bind rfl (atEnd_stopped ⟨rfl, rfl⟩) (install_accounts tid sid _))

/-! ## After the stop -/

theorem server_unreported {e : Es9pStatus} (step : Step) (he : e.reported = false) :
    (Stop.server step e).reason = some (Cause.server e).reason ∧ (Stop.server step e).notifyServer = true := by
  unfold Stop.server
  by_cases hl : (e.transportError.isSome || e.message == httpStatusError) = true
  · simp [hl, Cause.reason, he, Stop.new]
  · have hcode : e.subjectCode = "0.0.0" := by
      simp only [Es9pStatus.reported] at he
      grind
    simp [hl, Cause.reason, he, hcode, Stop.new]

theorem server_reported {e : Es9pStatus} (step : Step) (he : e.reported = true) (hm : e.message ≠ httpStatusError) :
    (Stop.server step e).reason = some (Cause.server e).reason ∧ (Stop.server step e).notifyServer = false := by
  simp only [Es9pStatus.reported, Bool.and_eq_true, Option.isNone_iff_eq_none] at he
  unfold Stop.server
  simp [he.1, hm, he.2, Cause.reason, Es9pStatus.reported]

theorem server_misread {e : Es9pStatus} (step : Step) (hm : e.message = httpStatusError) :
    (Stop.server step e).reason = some .timeout ∧ (Stop.server step e).notifyServer = true := by
  unfold Stop.server
  simp [hm, Stop.new]

/-- The stop that is acted on: a waiting Cancel replaces it. -/
def actedOn (stop : Stop) (queued : Bool) : Stop := if queued then Stop.user .cancel else stop

/-- What is sent for a stop is what its cause asks for, except where the server reported the
    failure and it is mistaken for another. -/
theorem sent_iff (hs : Stops stop c) (queued agreed : Bool) :
    ((actedOn stop queued).reason = some (if queued then .postponed else c.reason) ∧
      (agreed && (actedOn stop queued).notifyServer) = (agreed && !c.endedByServer)) ↔
    ∀ e, c = .server e → e.reported = true →
      (e.message = httpStatusError → queued = true) ∧ (queued = true → agreed = false) := by
  by_cases hc : ∃ e, c = .server e ∧ e.reported = true
  · obtain ⟨e, rfl, he⟩ := hc
    obtain ⟨step, rfl⟩ := hs
    have hall : (∀ e', Cause.server e = .server e' → e'.reported = true →
        (e'.message = httpStatusError → queued = true) ∧ (queued = true → agreed = false)) ↔
        (e.message = httpStatusError → queued = true) ∧ (queued = true → agreed = false) :=
      ⟨fun h => h e rfl he, fun h e' he' _ => by cases he'; exact h⟩
    rw [hall]
    cases queued with
    | true => simp [actedOn, Stop.user, Stop.new, Cause.endedByServer, he]
    | false =>
      by_cases hm : e.message = httpStatusError
      · have hsent := server_misread step hm
        have hreason : (Cause.server e).reason = .undefined := by simp [Cause.reason, he]
        simp [actedOn, hsent.1, hreason, hm]
      · have hsent := server_reported step he hm
        simp [actedOn, hsent.1, hsent.2, hm, Cause.endedByServer, he]
  · have hgo : c.endedByServer = false := by
      cases c with
      | server e => exact Bool.eq_false_iff.mpr fun he => hc ⟨e, rfl, he⟩
      | _ => rfl
    have hstop : stop.reason = some c.reason ∧ stop.notifyServer = true := by
      cases c with
      | server e =>
        obtain ⟨step, rfl⟩ := hs
        exact server_unreported step (Bool.eq_false_iff.mpr fun he => hc ⟨e, rfl, he⟩)
      | _ => exact hs
    refine iff_of_true ?_ fun e he hr => absurd ⟨e, he, hr⟩ hc
    cases queued with
    | true => simp [actedOn, Stop.user, Stop.new, hgo]
    | false => simp [actedOn, hstop, hgo]

theorem length_cancelSessionRequest (tid : List UInt8) (reason : CancelSessionReason) :
    (cancelSessionRequest tid reason).length = (cancelSessionRequest tid .undefined).length := by
  simp [cancelSessionRequest, derNode]

/-- The card is asked exactly when the request can carry the id. -/
theorem leaves_cancelSession {a : Account} {reason : CancelSessionReason}
    {P : Account → Except EuiccError String → Prop}
    (hfit : Account.fits tid = true → ∀ r, P (a.note cx confirmationCode ⟨.cancelSession tid reason, r⟩) r)
    (hunfit : Account.fits tid = false → ∀ e, P a (.error e)) :
    Leaves cx confirmationCode (cancelSession tid reason) a P := by
  unfold cancelSession
  by_cases hempty : tid.isEmpty = true
  · rw [if_pos hempty]
    exact hunfit (by simp [Account.fits, hempty]) _
  rw [if_neg hempty, length_cancelSessionRequest]
  by_cases hlong : requestBuffer < (cancelSessionRequest tid .undefined).length
  · rw [if_pos hlong]
    refine hunfit ?_ _
    simp only [Account.fits, Bool.and_eq_false_iff, decide_eq_false_iff_not]
    exact .inr (by omega)
  · rw [if_neg hlong]
    refine keeps_put.mpr ⟨trivial, hfit ?_⟩
    simp only [Account.fits, Bool.and_eq_true, decide_eq_true_eq]
    exact ⟨by simpa using hempty, by omega⟩

/-- A run stopped for `c` with its session open, before anything is cancelled. -/
structure Stopped (a : Account) (tid : List UInt8) (c : Cause) : Prop where
  opened : a.opened = some tid
  cause : a.cause = some c
  reported : a.reported = false
  cancels : a.cancels = []
  told : a.told = 0
  early : a.early = false

/-- The account once the card was asked to cancel. -/
def Account.cancelled (a : Account) (reason : CancelSessionReason) (agreed notify : Bool) : Account :=
  { a with cancels := [(reason, agreed)], told := if agreed && notify then 1 else 0 }

theorem hygienic_iff_sent {a : Account} (hs : Stopped a tid c) (hc : Stops stop c)
    (hfit : Account.fits tid = true) {reason : CancelSessionReason} (hr : (actedOn stop a.queued).reason = some reason)
    (agreed : Bool) :
    (a.cancelled reason agreed (actedOn stop a.queued).notifyServer).Hygienic ↔
      (a.cancelled reason agreed (actedOn stop a.queued).notifyServer).Proper := by
  have hsent := sent_iff hc a.queued agreed
  rw [hr, Option.some.injEq] at hsent
  have htold : ∀ p q : Bool, ((if p then 1 else 0) = if q then 1 else (0 : Nat)) ↔ p = q := by decide
  constructor
  · rintro ⟨_, h⟩ tid' ho _
    cases hs.opened.symm.trans ho
    refine ⟨hfit, fun e he hrep => ?_⟩
    simp only [Account.cancelled, hs.opened, hs.reported] at h
    obtain ⟨hf, -⟩ | ⟨-, c', hc', agreed', hcan, ht⟩ := h
    · cases hf
    cases hs.cause.symm.trans hc'
    simp only [List.cons.injEq, Prod.mk.injEq, and_true, Account.reason] at hcan
    obtain ⟨hreason, rfl⟩ := hcan
    obtain ⟨hmsg, hq⟩ := hsent.mp ⟨hreason, (htold _ _).mp ht⟩ e (Option.some.inj (hs.cause.symm.trans he)) hrep
    exact ⟨hmsg, fun h => by simp [Account.cancelled, hq h]⟩
  · intro h
    have hp := (h tid hs.opened hs.reported).2
    have hgood := hsent.mpr fun e he hrep =>
      ⟨(hp e (hs.cause.trans (congrArg some he)) hrep).1,
        fun hq => (hp e (hs.cause.trans (congrArg some he)) hrep).2 hq (reason, agreed) (by simp [Account.cancelled])⟩
    refine ⟨hs.early, ?_⟩
    simp only [Account.cancelled, hs.opened]
    exact .inr ⟨hs.reported, c, hs.cause, agreed, by simp [Account.reason, hgood.1], by simp [hgood.2]⟩

theorem not_hygienic_unsent {a : Account} (hs : Stopped a tid c)
    (hfit : Account.fits tid = false) : a.Hygienic ↔ a.Proper := by
  refine iff_of_false ?_ fun h => ?_
  · rintro ⟨_, h⟩
    simp only [hs.opened, hs.reported, Account.CancelledFor, hs.cancels] at h
    simp at h
  · have := (h tid hs.opened hs.reported).1
    rw [hfit] at this; cases this

theorem note_cancelSession {a : Account} (hs : Stopped a tid c)
    (reason : CancelSessionReason) (r : Except EuiccError String) :
    a.note cx confirmationCode ⟨.cancelSession tid reason, r⟩ = a.cancelled reason r.isOk false := by
  simp [Account.note, Account.cancelled, hs.cancels, hs.told, hs.early, hs.opened]

theorem note_told {a : Account} (hs : Stopped a tid c) (reason : CancelSessionReason)
    (limit : Nat) (smdp sid b64 : String) (r : Except Es9pStatus Unit) :
    (a.cancelled reason true false).note cx confirmationCode ⟨.es9pCancelSession limit smdp sid b64, r⟩ =
      a.cancelled reason true true := by
  simp [Account.note, Account.cancelled, hs.early, hs.opened]

theorem cancelSessions_accounts {a : Account} {sid : String}
    (code : ActivationCode) (hs : Stopped a tid c) (hc : Stops stop c) {reason : CancelSessionReason}
    (hr : (actedOn stop a.queued).reason = some reason) :
    Leaves cx confirmationCode
      (cancelSessions code (tid, sid) reason (actedOn stop a.queued).notifyServer) a
      fun a _ => a.Hygienic ↔ a.Proper := by
  refine keeps_bind.mpr (keeps_put.mpr ⟨trivial, fun _ => keeps_bind.mpr (leaves_cancelSession ?_ ?_)⟩)
  · intro hfit r
    have hiff := hygienic_iff_sent hs hc hfit hr
    show Keeps _ _ _ (a.note cx confirmationCode ⟨.cancelSession tid reason, r⟩) _
    rw [note_cancelSession hs]
    cases r with
    | error e => exact hiff false
    | ok b64 =>
      cases hn : (actedOn stop a.queued).notifyServer with
      | false => rw [hn] at hiff; exact hiff true
      | true =>
        rw [hn] at hiff
        refine keeps_bind.mpr (keeps_put.mpr ⟨trivial, fun _ => ?_⟩)
        refine keeps_bind.mpr (keeps_put.mpr ⟨trivial, fun told => ?_⟩)
        show Account.Hygienic (Account.note cx confirmationCode (a.cancelled reason true false) _) ↔ _
        rw [note_told hs]
        exact hiff true
  · intro hfit e
    exact not_hygienic_unsent hs hfit

/-- Nothing is cancelled where no session was opened, or the card has reported a result. -/
theorem hygienic_of_quiet {a : Account} (hc : a.cancels = []) (ht : a.told = 0) (he : a.early = false)
    (h : a.opened = none ∨ a.reported = true) : a.Hygienic ↔ a.Proper := by
  refine iff_of_true ⟨he, ?_⟩ ?_
  · cases ho : a.opened with
    | none => exact ⟨hc, ht⟩
    | some tid =>
      obtain h | h := h
      · rw [ho] at h; cases h
      · exact .inl ⟨h, hc, ht⟩
  · intro tid ho hr
    obtain h | h := h
    · rw [ho] at h; cases h
    · rw [hr] at h; cases h

/-- The last look at the channel. -/
theorem leaves_overridden {a : Account} {P : Account → Stop → Prop} (hnone : stop.reason = none → P a stop)
    (hsome : ∀ waiting, P (a.note cx confirmationCode ⟨.cancelled, waiting⟩) (actedOn stop waiting)) :
    Leaves cx confirmationCode (overridden stop) a P := by
  unfold overridden
  cases hr : stop.reason with
  | none => exact hnone hr
  | some reason => exact keeps_bind.mpr (keeps_put.mpr ⟨trivial, hsome⟩)

theorem note_cancelled {a : Account} (hc : a.cause = some c) (hq : a.queued = false) (waiting : Bool) :
    a.note cx confirmationCode ⟨.cancelled, waiting⟩ = { a with queued := waiting } := by
  cases waiting with
  | true => simp [Account.note, hc]
  | false => cases a; simp_all [Account.note]

variable (cx confirmationCode) in
theorem note_cancelled_kept (a : Account) (waiting : Bool) :
    (a.note cx confirmationCode ⟨.cancelled, waiting⟩).cancels = a.cancels ∧
      (a.note cx confirmationCode ⟨.cancelled, waiting⟩).told = a.told ∧
      (a.note cx confirmationCode ⟨.cancelled, waiting⟩).early = a.early ∧
      (a.note cx confirmationCode ⟨.cancelled, waiting⟩).opened = a.opened ∧
      (a.note cx confirmationCode ⟨.cancelled, waiting⟩).reported = a.reported := by
  cases waiting with
  | false => exact ⟨rfl, rfl, rfl, rfl, rfl⟩
  | true =>
    by_cases hc : a.cause.isNone = true
    · simp [Account.note, hc]
    · simp [Account.note, hc]

theorem server_reason (step : Step) (e : Es9pStatus) : ∃ reason, (Stop.server step e).reason = some reason := by
  unfold Stop.server
  dsimp only
  split
  · exact ⟨_, rfl⟩
  · split
    · exact ⟨_, rfl⟩
    · exact ⟨_, rfl⟩

theorem actedOn_reason (hs : Stops stop c) (queued : Bool) :
    ∃ reason, (actedOn stop queued).reason = some reason := by
  cases queued with
  | true => exact ⟨_, rfl⟩
  | false =>
    cases c with
    | server e =>
      obtain ⟨step, rfl⟩ := hs
      exact server_reason step e
    | _ => exact ⟨_, hs.1⟩

theorem download_accounts (code : ActivationCode) (preview : Bool) :
    Leaves cx confirmationCode (download cx code confirmationCode preview) {}
      fun a _ => a.Hygienic ↔ a.Proper := by
  refine keeps_bind.mpr (Keeps.mono (steps_accounts code preview) ?_)
  rintro a ⟨r, x⟩ ⟨hq, hr⟩
  cases r with
  | ok data => exact hygienic_of_quiet hq.cancels hq.told hq.early (.inr hr)
  | error stop =>
    refine keeps_bind.mpr (leaves_overridden ?_ fun waiting => ?_)
    · intro hnone
      obtain ⟨rfl, hx⟩ | ⟨hrep, c, hc, hs, hx⟩ := hr
      · exact hygienic_of_quiet hq.cancels hq.told hq.early hx
      · obtain ⟨reason, hr⟩ := actedOn_reason hs false
        rw [show actedOn stop false = stop from rfl, hnone] at hr; cases hr
    obtain ⟨rfl, hx⟩ | ⟨hrep, c, hc, hs, hx⟩ := hr
    · have hn := note_cancelled_kept cx confirmationCode a waiting
      refine hygienic_of_quiet (hn.1.trans hq.cancels) (hn.2.1.trans hq.told) (hn.2.2.1.trans hq.early) ?_
      rw [hn.2.2.2.1, hn.2.2.2.2]
      exact hx
    · show Keeps _ _ _ (a.note cx confirmationCode ⟨.cancelled, waiting⟩) _
      rw [note_cancelled hc hq.queued]
      obtain ⟨reason, hr⟩ := actedOn_reason hs waiting
      cases x with
      | none => exact hygienic_of_quiet hq.cancels hq.told hq.early (.inl hx.symm)
      | some session =>
        have hstopped : Stopped { a with queued := waiting } session.1 c :=
          ⟨hx.symm, hc, hrep, hq.cancels, hq.told, hq.early⟩
        simp only [hr]
        exact keeps_bind.mpr (cancelSessions_accounts code hstopped hs hr)

/-- What a run leaves of its sessions, by the exchanges it had. -/
def account (cx : Codec) (confirmationCode : Option String) (t : List (Exchange Ask Ask.Answer)) : Account :=
  t.foldl (Account.note cx confirmationCode) {}

/-- Against every card, server and control channel, a download leaves its sessions as the
    law asks exactly in the proper runs. -/
theorem session_hygiene_iff (cx : Codec) (code : ActivationCode) (confirmationCode : Option String) (preview : Bool)
    (env : List (Exchange Ask Ask.Answer) → (q : Ask) → q.Answer) :
    (account cx confirmationCode (play env (download cx code confirmationCode preview) []).1).Hygienic ↔
      (account cx confirmationCode (play env (download cx code confirmationCode preview) []).1).Proper :=
  Keeps.of_play env (download_accounts code preview) rfl

end Procedure

/-! ## A refused code with a Cancel waiting -/

def refusal : Es9pStatus := ⟨"8.2.6", "3.8", "", "The matchingID is not found", none⟩

/-- The server refuses the code while the user presses Cancel. -/
def refusedWhileCancelling (past : List (Exchange Ask Ask.Answer)) : (q : Ask) → q.Answer
  | .progress _ _ => ()
  | .cancelled => past.any fun x => match x.1 with
    | .authenticateClient _ _ _ _ => true
    | _ => false
  | .recvTimeout _ => none
  | .left => 300000
  | .getEuiccChallenge => .ok "q6s="
  | .getEuiccInfo1 => .ok "vyAA"
  | .initiateAuthentication _ _ _ _ => .ok ("1111", ⟨"", "", "", ""⟩)
  | .authenticateServer _ _ => .ok ([0x11, 0x11], "")
  | .authenticateClient _ _ _ _ => .error refusal
  | .prepareDownload _ _ _ => .ok ""
  | .getBoundProfilePackage _ _ _ _ => .ok ""
  | .loadBoundProfilePackage _ => .error (.malformed "no BoundProfilePackage")
  | .cancelSession _ _ => .ok "v0EA"
  | .es9pCancelSession _ _ _ _ => .ok ()

def plainCodec : Codec := ⟨fun _ => [], fun _ _ => none, fun _ => .error (.malformed "no metadata")⟩

/-- The server has ended the procedure and is told to cancel it all the same. -/
theorem refused_code_told_again :
    ¬ (account plainCodec none
      (play refusedWhileCancelling (download plainCodec ⟨"smdp.example", "ABC-123", false⟩ none true) []).1).Hygienic := by
  have hrun : account plainCodec none
      (play refusedWhileCancelling (download plainCodec ⟨"smdp.example", "ABC-123", false⟩ none true) []).1 =
      { opened := some [0x11, 0x11], cause := some (.server refusal), queued := true,
        cancels := [(.postponed, true)], told := 1 } := by decide +kernel
  rw [hrun]
  rintro ⟨_, ⟨h, _⟩ | ⟨_, c, hc, agreed, hcancels, htold⟩⟩
  · cases h
  · cases hc
    simp only [List.cons.injEq, Prod.mk.injEq, and_true] at hcancels
    obtain ⟨-, rfl⟩ := hcancels
    exact absurd htold (by decide)

end OpenU60.Esim
