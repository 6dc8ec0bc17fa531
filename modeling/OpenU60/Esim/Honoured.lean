/-
  OpenU60.Esim.Honoured — the decisions on a download are honoured.

  `Stage` is where a download stands as the user sees it; `download_stages` is the part the
  procedure plays: it prepares only once the preview is decided, loads only after a look at
  the channel that followed the install step, and does neither once it has stopped.

  `decisions_honoured`, over every interleaving: a download that answered a Cancel or a
  Decline with success never loads the package; with a preview it prepares only after an
  Accept that followed the preview; nothing is decided after the install step.
-/

import OpenU60.Esim.Decisions
import OpenU60.Lib.History
import OpenU60.Lib.Machine

namespace OpenU60.Esim

open OpenU60.Lib
open OpenU60.Lib.Dialogue
open OpenU60.Lib.History
open OpenU60.Lib.Machine

/-- Where a download stands: before the preview, at it, accepted, on its way to the card, the
    install step published, past the last look at the channel, stopped or installed. -/
inductive Stage where
  | early
  | shown
  | decided
  | preparing
  | published
  | loading
  | ended
  deriving DecidableEq

def Step.isCancel : Step → Bool
  | .es10bCancelSession => true
  | .es9pCancelSession => true
  | _ => false

namespace Stage

def told (s : Stage) (step : Step) : Stage :=
  match s, step with
  | .early, .preview => .shown
  | .early, .prepareDownload => .preparing
  | .decided, .prepareDownload => .preparing
  | .preparing, .loadBoundProfilePackage => .published
  | s, _ => s

def next (s : Stage) : Exchange Ask Ask.Answer → Stage
  | ⟨.progress step _, _⟩ => s.told step
  | ⟨.cancelled, waiting⟩ => if waiting then .ended else if s = .published then .loading else s
  | ⟨.recvTimeout _, d⟩ => if d = some .accept then .decided else .ended
  | ⟨.loadBoundProfilePackage _, _⟩ => .ended
  | _ => s

/-- The steps that may be told at a stage. -/
def tells (preview : Bool) (s : Stage) (step : Step) : Prop :=
  match s with
  | .early => step ≠ .loadBoundProfilePackage ∧ step ≠ (if preview then .prepareDownload else .preview)
  | .decided => step = .prepareDownload
  | .preparing => step ≠ .preview ∧ step ≠ .prepareDownload
  | .ended => step.isCancel = true
  | _ => False

/-- The stages in which a download may stop, or talk to the card and the server. -/
def mayStop (s : Stage) : Prop := s = .early ∨ s = .preparing ∨ s = .ended

def allows (preview : Bool) (s : Stage) : Ask → Prop
  | .progress step _ => s.tells preview step
  | .cancelled => s.mayStop ∨ s = .published
  | .recvTimeout _ => s = .shown
  | .left => True
  | .prepareDownload _ _ _ => s = .preparing
  | .loadBoundProfilePackage _ => s = .loading
  | _ => s.mayStop

end Stage

/-! ## The part the procedure plays -/

section Procedure

variable (preview : Bool)

abbrev Follows {α : Type} (m : Steps α) (s : Stage) (x : Option Session)
    (P : Stage → Except Stop α → Option Session → Prop) : Prop :=
  Does Stage.next (Stage.allows preview) m s x P

abbrev Plays {α : Type} (p : Procedure α) (s : Stage) (P : Stage → α → Prop) : Prop :=
  Keeps Stage.next (Stage.allows preview) p s P

/-- A part that goes from stage `s` to stage `t`, or stops where a download may stop. -/
def Leads {α : Type} (m : Steps α) (s t : Stage) : Prop :=
  ∀ x, Follows preview m s x fun u r _ =>
    match r with
    | .ok _ => u = t
    | .error _ => u.mayStop

variable {preview} {α β : Type} {s t u : Stage}

theorem Leads.bind {m : Steps α} {f : α → Steps β} (hm : Leads preview m s t) (hf : ∀ a, Leads preview (f a) t u) :
    Leads preview (m >>= f) s u := by
  intro x
  refine does_bind.mpr (Does.mono (hm x) ?_)
  intro s r x h
  cases r with
  | ok a => subst h; exact hf a x
  | error e => exact h

theorem leads_ask {q : Ask} (hq : s.allows preview q) (hn : ∀ a, s.next ⟨q, a⟩ = t) : Leads preview (ask q) s t :=
  fun _ => ⟨hq, hn⟩

theorem leads_progress {step : Step} {d : Json} (h : s.tells preview step) (ht : s.told step = t) :
    Leads preview (progress step d) s t :=
  fun _ => ⟨h, fun _ => ht⟩

theorem leads_pure (a : α) : Leads preview (pure a) s s := fun _ => rfl

theorem leads_throw (hs : s.mayStop) (stop : Stop) : Leads preview (throw stop : Steps α) s t := fun _ => hs

theorem leads_set (y : Option Session) : Leads preview (set y) s s := fun _ => rfl

theorem leads_orStop {δ : Type} (hs : s.mayStop) (r : Except δ α) (g : δ → Stop) : Leads preview (Task.orStop r g) s s := by
  cases r with
  | ok a => exact leads_pure a
  | error e => exact leads_throw hs _

theorem leads_stopIf (hs : s.mayStop) (c : Bool) (e : Stop) : Leads preview (Task.stopIf c e) s s := by
  cases c with
  | true => exact leads_throw hs _
  | false => exact leads_pure ()

theorem mayStop_early : Stage.early.mayStop := .inl rfl
theorem mayStop_preparing : Stage.preparing.mayStop := .inr (.inl rfl)
theorem mayStop_ended : Stage.ended.mayStop := .inr (.inr rfl)

/-- After a look at the channel a download goes on, past the install step only to load. -/
theorem leads_honourCancel (hs : s = .early ∨ s = .preparing ∨ s = .published) :
    Leads preview honourCancel s (if s = .published then .loading else s) := by
  intro x
  refine does_bind.mpr ⟨?_, fun waiting => ?_⟩
  · obtain rfl | rfl | rfl := hs
    · exact .inl mayStop_early
    · exact .inl mayStop_preparing
    · exact .inr rfl
  · cases waiting with
    | true => exact mayStop_ended
    | false => exact rfl

theorem leads_awaitDecision : Leads preview (awaitDecision preview) .early (if preview then .decided else .early) := by
  cases preview with
  | false => exact leads_honourCancel (.inl rfl)
  | true =>
    refine Leads.bind (leads_progress ⟨nofun, nofun⟩ rfl) fun _ => ?_
    refine Leads.bind (leads_ask trivial fun _ => rfl) fun limit => ?_
    refine fun x => does_put_bind rfl fun d => ?_
    match d with
    | none => exact mayStop_ended
    | some .accept => exact rfl
    | some .decline => exact mayStop_ended
    | some .cancel => exact mayStop_ended
    | some .previewTimeout => exact mayStop_ended

theorem leads_install (package : String) : Leads preview (install package) .loading .ended := by
  refine Leads.bind (leads_ask rfl fun _ => rfl) fun loaded => ?_
  refine Leads.bind (leads_orStop mayStop_ended _ _) fun result => ?_
  by_cases hr : result.isSuccess = true
  · rw [if_pos hr]; exact leads_pure _
  · rw [if_neg hr]; exact Leads.bind (leads_set _) fun _ => leads_throw mayStop_ended _

/-- A card command or a server call whose failure stops the download. -/
theorem leads_call {δ : Type} {q : Ask} {g : δ → Stop} {f : α → Steps β} (r : q.Answer → Except δ α) (hs : s.mayStop)
    (hq : s.allows preview q) (hn : ∀ a, s.next ⟨q, a⟩ = s) (hf : ∀ a, Leads preview (f a) s t) :
    Leads preview (ask q >>= fun a => Task.orStop (r a) g >>= f) s t :=
  Leads.bind (leads_ask hq hn) fun a => Leads.bind (leads_orStop hs (r a) g) hf

theorem leads_authenticate (code : ActivationCode) : Leads preview (authenticate code) .early .early := by
  have htell : ∀ step : Step, step ≠ .loadBoundProfilePackage → step ≠ .prepareDownload → step ≠ .preview →
      Stage.early.tells preview step := fun step h1 h2 h3 => ⟨h1, by cases preview <;> assumption⟩
  refine Leads.bind (leads_progress (htell _ nofun nofun nofun) rfl) fun _ => ?_
  refine leads_call (q := .getEuiccChallenge) (fun r => r) mayStop_early mayStop_early (fun _ => rfl) fun challenge => ?_
  refine leads_call (q := .getEuiccInfo1) (fun r => r) mayStop_early mayStop_early (fun _ => rfl) fun info1 => ?_
  refine Leads.bind (leads_honourCancel (.inl rfl)) fun _ => ?_
  refine Leads.bind (leads_progress (htell _ nofun nofun nofun) rfl) fun _ => ?_
  refine Leads.bind (leads_ask trivial fun _ => rfl) fun limit => ?_
  refine leads_call (q := .initiateAuthentication _ _ _ _) (fun r => r) mayStop_early mayStop_early (fun _ => rfl) fun initiated => ?_
  refine Leads.bind (leads_honourCancel (.inl rfl)) fun _ => ?_
  refine Leads.bind (leads_progress (htell _ nofun nofun nofun) rfl) fun _ => ?_
  refine leads_call (q := .authenticateServer _ _) (fun r => r) mayStop_early mayStop_early (fun _ => rfl) fun authenticated => ?_
  refine Leads.bind (leads_set _) fun _ => ?_
  exact Leads.bind (leads_honourCancel (.inl rfl)) fun _ => leads_pure _

theorem leads_steps (cx : Codec) (code : ActivationCode) (confirmationCode : Option String) :
    Leads preview (steps cx code confirmationCode preview) .early .ended := by
  have htell : ∀ step : Step, step ≠ .loadBoundProfilePackage → step ≠ .prepareDownload → step ≠ .preview →
      Stage.early.tells preview step := fun step h1 h2 h3 => ⟨h1, by cases preview <;> assumption⟩
  refine Leads.bind (leads_stopIf mayStop_early _ _) fun _ => ?_
  refine Leads.bind (leads_authenticate code) fun session => ?_
  refine Leads.bind (leads_progress (htell _ nofun nofun nofun) rfl) fun _ => ?_
  refine Leads.bind (leads_ask trivial fun _ => rfl) fun limit => ?_
  refine leads_call (q := .authenticateClient _ _ _ _) (fun r => r) mayStop_early mayStop_early (fun _ => rfl) fun prepare => ?_
  refine Leads.bind (leads_orStop mayStop_early _ _) fun metadata => ?_
  refine Leads.bind (leads_progress (htell _ nofun nofun nofun) rfl) fun _ => ?_
  refine Leads.bind (leads_stopIf mayStop_early _ _) fun _ => ?_
  refine Leads.bind leads_awaitDecision fun _ => ?_
  refine Leads.bind (t := .preparing) (leads_progress ?_ ?_) fun _ => ?_
  · cases preview with
    | true => exact rfl
    | false => exact ⟨nofun, nofun⟩
  · cases preview <;> rfl
  refine leads_call (q := .prepareDownload _ _ _) (fun r => r) mayStop_preparing rfl (fun _ => rfl) fun prepared => ?_
  refine Leads.bind (leads_honourCancel (.inr (.inl rfl))) fun _ => ?_
  refine Leads.bind (leads_progress ⟨nofun, nofun⟩ rfl) fun _ => ?_
  refine Leads.bind (leads_ask trivial fun _ => rfl) fun limit => ?_
  refine leads_call (q := .getBoundProfilePackage _ _ _ _) (fun r => r) mayStop_preparing mayStop_preparing (fun _ => rfl) fun package => ?_
  refine Leads.bind (leads_honourCancel (.inr (.inl rfl))) fun _ => ?_
  refine Leads.bind (leads_ask trivial fun _ => rfl) fun remaining => ?_
  refine Leads.bind (leads_stopIf mayStop_preparing _ _) fun _ => ?_
  refine Leads.bind (leads_progress ⟨nofun, nofun⟩ rfl) fun _ => ?_
  exact Leads.bind (leads_honourCancel (.inr (.inr rfl))) fun _ => leads_install package

theorem plays_put {q : Ask} (hq : s.allows preview q) (hn : ∀ a, s.next ⟨q, a⟩ = s) :
    Plays preview (Ask.put q) s fun t _ => t = s := ⟨hq, hn⟩

theorem Plays.bind {p : Procedure α} {f : α → Procedure β} {P : Stage → β → Prop} (hp : Plays preview p s fun t _ => t = s)
    (hf : ∀ a, Plays preview (f a) s P) : Plays preview (p >>= f) s P :=
  keeps_bind.mpr (Keeps.mono hp fun _ a ht => ht ▸ hf a)

variable (preview) in
theorem tells_isCancel (hs : s.mayStop) {step : Step} (hc : step.isCancel = true) : s.tells preview step ∧ s.told step = s := by
  have hne : ∀ other : Step, other.isCancel = false → step ≠ other := by
    rintro other ho rfl
    rw [hc] at ho; cases ho
  obtain rfl | rfl | rfl := hs
  · refine ⟨⟨hne _ rfl, ?_⟩, ?_⟩
    · cases preview <;> exact hne _ rfl
    · cases step <;> first | rfl | cases hc
  · exact ⟨⟨hne _ rfl, hne _ rfl⟩, by cases step <;> first | rfl | cases hc⟩
  · exact ⟨hc, rfl⟩

/-- Where a download may stop, its sessions can be cancelled. -/
theorem plays_cancelSessions (hs : s.mayStop) (code : ActivationCode) (session : Session) (reason : CancelSessionReason)
    (notifyServer : Bool) : Plays preview (cancelSessions code session reason notifyServer) s fun _ _ => True := by
  have hcard := tells_isCancel preview hs (show Step.es10bCancelSession.isCancel = true from rfl)
  have hserver := tells_isCancel preview hs (show Step.es9pCancelSession.isCancel = true from rfl)
  have hsend : Plays preview (cancelSession session.1 reason) s fun t _ => t = s := by
    unfold cancelSession
    split
    · exact rfl
    · split
      · exact rfl
      · exact plays_put (q := .cancelSession _ _) hs fun _ => rfl
  refine Plays.bind (plays_put (q := .progress _ _) hcard.1 fun _ => hcard.2) fun _ => Plays.bind hsend fun answer => ?_
  match answer, notifyServer with
  | .error e, _ => trivial
  | .ok b64, false => trivial
  | .ok b64, true =>
    refine Plays.bind (plays_put (q := .progress _ _) hserver.1 fun _ => hserver.2) fun _ => ?_
    exact Plays.bind (plays_put (q := .es9pCancelSession _ _ _ _) hs fun _ => rfl) fun _ => trivial

theorem download_stages (cx : Codec) (code : ActivationCode) (confirmationCode : Option String) :
    Plays preview (download cx code confirmationCode preview) .early fun _ _ => True := by
  refine keeps_bind.mpr (Keeps.mono (leads_steps cx code confirmationCode none) ?_)
  rintro s ⟨r, x⟩ h
  cases r with
  | ok data => trivial
  | error stop =>
    have hover : Plays preview (overridden stop) s fun t _ => t.mayStop := by
      unfold overridden
      cases stop.reason with
      | none => exact h
      | some reason =>
        refine keeps_bind.mpr ⟨.inl h, fun waiting => ?_⟩
        cases waiting with
        | true => exact mayStop_ended
        | false => obtain rfl | rfl | rfl := h <;> first | exact mayStop_early | exact mayStop_preparing | exact mayStop_ended
    refine keeps_bind.mpr (Keeps.mono hover fun t stop ht => ?_)
    match x, stop.reason with
    | none, _ => trivial
    | some _, none => trivial
    | some session, some reason =>
      exact keeps_bind.mpr (Keeps.mono (plays_cancelSessions ht code session reason _) fun _ _ _ => trivial)

end Procedure

/-! ## What a download owes its user -/

/-- When an entry may follow `past`: nothing is decided after the install step and nothing
    accepted before the preview; with a preview, preparing waits for an Accept. -/
def Note.due (preview : Bool) (past : List Note) : Note → Prop
  | .told .prepareDownload => preview = true → .answered .accept ∈ past
  | .prepared => preview = true → .answered .accept ∈ past
  | .answered d => .told .loadBoundProfilePackage ∉ past ∧ (d = .accept → .told .preview ∈ past)
  | _ => True

def DownloadCtl.refuses : DownloadCtl → Bool
  | .cancel => true
  | .decline => true
  | _ => false

def World.Honoured (w : World) : Prop :=
  (∀ d : DownloadCtl, d.refuses = true → .answered d ∈ w.log → .loaded ∉ w.log) ∧ Guarded (Note.due w.preview) [] w.log

/-! ## The invariant -/

def Thread.Stands (preview : Bool) (s : Stage) : Thread → Prop
  | .starting p => Plays preview p s fun _ _ => True
  | .opened p => Plays preview p s fun _ _ => True
  | .running p => Plays preview p s fun _ _ => True
  | .asking p => Plays preview p s fun _ _ => True
  | .none => s = .ended
  | .returned _ => s = .ended

/-- No procedure runs that could take a decision. -/
def Thread.isClosed : Thread → Bool
  | .none => true
  | .starting _ => true
  | .returned _ => true
  | _ => false

namespace World

def chan (w : World) : List DownloadCtl := w.control.getD []

/-- The decision was sent: it is answered, or its handler still holds the lock. -/
def handed (w : World) (d : DownloadCtl) : Prop := .answered d ∈ w.log ∨ w.lock = some (.settling d)

def settling (w : World) : Prop := ∃ d, w.lock = some (.settling d)

def published (w : World) : Prop := .told .loadBoundProfilePackage ∈ w.log

end World

open World

/-- The states between which the two sides move. A decision that was sent is in the channel
    until the procedure takes it, and it is the first there if it answers the preview. -/
structure Inv (w : World) (s : Stage) : Prop where
  thread : w.thread.Stands w.preview s
  closed : w.thread.isClosed = true → w.control = none
  unpublished : w.published → s = .published ∨ s = .loading ∨ s = .ended
  published : s = .published ∨ s = .loading → w.published
  loaded : .loaded ∈ w.log → s = .ended ∧ w.published
  confirm : w.download.state = .confirm →
    .told .preview ∈ w.log ∧ ¬ w.published ∧ (s = .shown ∨ s = .decided ∨ s = .ended)
  waiting : w.download.state = .confirm → ¬ w.settling → s = .ended ∨ s = .shown ∧ w.chan = []
  running : w.download.state = .running → w.published → installingStep w.download.step = true
  early : s = .early → w.download.state = .running → ¬ w.settling → w.chan = []
  free : w.published → w.lock = none
  holder : ∀ d, w.lock = some (.sending d) ∨ w.lock = some (.settling d) → d ≠ .cancel → w.download.state = .confirm
  refusals : ∀ d : DownloadCtl, d.refuses = true → w.handed d →
    s = .ended ∨ s ≠ .loading ∧ (.cancel ∈ w.chan ∨ s = .shown ∧ w.chan.head? = some .decline)
  unloaded : ∀ d : DownloadCtl, d.refuses = true → .answered d ∈ w.log → .loaded ∉ w.log
  accepted : w.preview = true → .accept ∈ w.chan ∨ s = .decided → w.handed .accept
  prepared : w.preview = true → s = .preparing ∨ s = .published ∨ s = .loading → .answered .accept ∈ w.log
  guarded : Guarded (Note.due w.preview) [] w.log

section Steps

variable {w : World} {s : Stage}

variable {t : Thread}

/-- The thread moves on at its stage. -/
theorem Inv.moves (h : Inv w s) (ht : t.Stands w.preview s) (hc : t.isClosed = true → w.control = none) :
    Inv { w with thread := t } s :=
  { h with thread := ht, closed := hc }

/-- The invariant does not speak of the timers, nor of starts that found no thread. -/
theorem Inv.unheeded (h : Inv w s) (timers : List Nat) (unspawned : Nat) : Inv { w with timers, unspawned } s :=
  { h with }

/-- The thread is back from the procedure, and nothing takes decisions. -/
theorem Inv.returns (h : Inv w s) (ht : t.Stands w.preview .ended) :
    Inv { w with thread := t, control := none } .ended := { h with
  thread := ht
  closed _ := rfl
  unpublished _ := .inr (.inr rfl)
  published hs := by obtain hs | hs := hs <;> cases hs
  loaded hl := ⟨rfl, (h.loaded hl).2⟩
  confirm hc := ⟨(h.confirm hc).1, (h.confirm hc).2.1, .inr (.inr rfl)⟩
  waiting _ _ := .inl rfl
  early hs := by cases hs
  refusals _ _ _ := .inl rfl
  accepted _ hs := by
    obtain hs | hs := hs
    · cases hs
    · cases hs
  prepared _ hs := by obtain hs | hs | hs := hs <;> cases hs }

/-- A record in which nothing runs and nothing waits. -/
theorem Inv.rests (h : Inv w s) (hl : w.lock = none) {d : Download} (hc : d.state ≠ .confirm) (hr : d.state ≠ .running) :
    Inv { w with download := d } s := { h with
  confirm e := absurd e hc
  waiting e := absurd e hc
  running e := absurd e hr
  early _ e := absurd e hr
  holder d e := by simp [hl] at e }

theorem guarded_snoc {preview : Bool} {log : List Note} {n : Note} (h : Guarded (Note.due preview) [] log)
    (hn : n.due preview log) : Guarded (Note.due preview) [] (log ++ [n]) :=
  guarded_append.mpr ⟨h, by simpa using hn, trivial⟩

theorem mem_snoc_ne {n m : Note} {log : List Note} (hn : n ≠ m) : n ∈ log ++ [m] ↔ n ∈ log := by simp [hn]

/-- A handler's refusal changes nothing, whether or not it held the lock. -/
theorem Inv.refuses (h : Inv w s) (hl : ¬ w.settling) (status : Nat) (text : String) :
    Inv { w with lock := none, log := w.log ++ [Note.refused status text] } s := by
  have hanswer : ∀ d, Note.answered d ∈ w.log ++ [Note.refused status text] ↔ .answered d ∈ w.log := fun d => mem_snoc_ne nofun
  have htold : ∀ step, Note.told step ∈ w.log ++ [Note.refused status text] ↔ .told step ∈ w.log := fun step => mem_snoc_ne nofun
  have hload : Note.loaded ∈ w.log ++ [Note.refused status text] ↔ .loaded ∈ w.log := mem_snoc_ne nofun
  have hpub := htold .loadBoundProfilePackage
  have hhand : ∀ d, ({ w with lock := none, log := w.log ++ [Note.refused status text] } : World).handed d → w.handed d := by
    rintro d (h | h)
    · exact .inl ((hanswer d).mp h)
    · cases h
  exact { h with
    unpublished := fun hp => h.unpublished (hpub.mp hp)
    published := fun hs => hpub.mpr (h.published hs)
    loaded := fun hd => ⟨(h.loaded (hload.mp hd)).1, hpub.mpr (h.loaded (hload.mp hd)).2⟩
    confirm := fun hc => ⟨(htold _).mpr (h.confirm hc).1, fun hp => (h.confirm hc).2.1 (hpub.mp hp), (h.confirm hc).2.2⟩
    waiting := fun hc _ => h.waiting hc hl
    running := fun hr hp => h.running hr (hpub.mp hp)
    early := fun hs hr _ => h.early hs hr hl
    free := fun _ => rfl
    holder := fun d e => by obtain e | e := e <;> cases e
    refusals := fun d hd hh => h.refusals d hd (hhand d hh)
    unloaded := fun d hd ha hl => h.unloaded d hd ((hanswer d).mp ha) (hload.mp hl)
    accepted := fun hv hs => by
      obtain ha | ha := h.accepted hv hs
      · exact .inl ((hanswer _).mpr ha)
      · exact absurd ⟨_, ha⟩ hl
    prepared := fun hv hs => (hanswer _).mpr (h.prepared hv hs)
    guarded := guarded_snoc h.guarded trivial }

/-- Nothing was sent, and the lock is free again. -/
theorem Inv.releases (h : Inv w s) (hl : ¬ w.settling) : Inv { w with lock := none } s := { h with
  waiting hc _ := h.waiting hc hl
  early hs hr _ := h.early hs hr hl
  free _ := rfl
  holder d e := by obtain e | e := e <;> cases e
  refusals d hd hh := by
    obtain hh | hh := hh
    · exact h.refusals d hd (.inl hh)
    · cases hh
  accepted hv hs := by
    obtain ha | ha := h.accepted hv hs
    · exact .inl ha
    · exact absurd ⟨_, ha⟩ hl }

variable {d : DownloadCtl}

/-- A handler, or the timer, goes on with a decision. -/
theorem Inv.takes (h : Inv w s) (hl : w.lock = none) (hp : ¬ w.published)
    (hd : d ≠ .cancel → w.download.state = .confirm) : Inv { w with lock := some (.sending d) } s := by
  have hset : ¬ w.settling := by rintro ⟨d, e⟩; rw [hl] at e; cases e
  have hhand : ∀ d', ({ w with lock := some (.sending d) } : World).handed d' → w.handed d' := by
    rintro d' (h | h)
    · exact .inl h
    · cases h
  exact { h with
    waiting := fun hc _ => h.waiting hc hset
    early := fun hs hr _ => h.early hs hr hset
    free := fun hpub => absurd hpub hp
    holder := fun d' e => by
      obtain e | e := e
      · cases e; exact hd
      · cases e
    refusals := fun d' hd' hh => h.refusals d' hd' (hhand d' hh)
    accepted := fun hv hs => by
      obtain ha | ha := h.accepted hv hs
      · exact .inl ha
      · rw [hl] at ha; cases ha }

/-- The decision is in the channel and the handler still holds the lock. -/
theorem Inv.sends (h : Inv w s) (hl : w.lock = some (.sending d)) {queue : List DownloadCtl}
    (hc : w.control = some queue) : Inv { w with control := some (queue ++ [d]), lock := some (.settling d) } s := by
  have hset : ¬ w.settling := by rintro ⟨d', e⟩; rw [hl] at e; cases e
  have hpub : ¬ w.published := fun hp => by have := h.free hp; rw [hl] at this; cases this
  have hchan : w.chan = queue := by simp [chan, hc]
  have hhand : ∀ d', ({ w with control := some (queue ++ [d]), lock := some (.settling d) } : World).handed d' →
      d' = d ∨ w.handed d' := by
    rintro d' (h | h)
    · exact .inr (.inl h)
    · cases h; exact .inl rfl
  have hstage : s ≠ .loading := fun e => hpub (h.published (.inr e))
  exact { h with
    closed := fun e => by rw [h.closed e] at hc; cases hc
    waiting := fun _ hn => absurd ⟨d, rfl⟩ hn
    early := fun _ _ hn => absurd ⟨d, rfl⟩ hn
    free := fun hp => absurd hp hpub
    holder := fun d' e => by
      obtain e | e := e
      · cases e
      · cases e; exact h.holder d (.inl hl)
    refusals := fun d' hd' hh => by
      obtain rfl | hh := hhand d' hh
      · cases d' with
        | cancel => exact .inr ⟨hstage, .inl (by simp [chan])⟩
        | decline =>
          obtain hs | ⟨hs, hq⟩ := h.waiting (h.holder .decline (.inl hl) nofun) hset
          · exact .inl hs
          · rw [hchan] at hq; subst hq
            exact .inr ⟨hstage, .inr ⟨hs, rfl⟩⟩
        | accept => cases hd'
        | previewTimeout => cases hd'
      · obtain hs | ⟨hs, hq | ⟨hs', hq⟩⟩ := h.refusals d' hd' hh
        · exact .inl hs
        · refine .inr ⟨hs, .inl ?_⟩
          rw [hchan] at hq
          simp [chan, hq]
        · refine .inr ⟨hs, .inr ⟨hs', ?_⟩⟩
          rw [hchan] at hq
          cases queue with
          | nil => cases hq
          | cons c rest => exact hq
    accepted := fun hv hs => by
      have hold : DownloadCtl.accept ∈ w.chan ∨ s = .decided → w.handed .accept := h.accepted hv
      obtain hs | hs := hs
      · have hmem : DownloadCtl.accept ∈ queue ++ [d] := hs
        rw [List.mem_append, List.mem_singleton] at hmem
        obtain hmem | rfl := hmem
        · obtain ha | ha := hold (.inl (hchan ▸ hmem))
          · exact .inl ha
          · exact absurd ⟨_, ha⟩ hset
        · exact .inr rfl
      · obtain ha | ha := hold (.inr hs)
        · exact .inl ha
        · exact absurd ⟨_, ha⟩ hset }

theorem settle_state (d : Download) (c : DownloadCtl) :
    (d.settle c).state = if c = .accept then .running else .cancelling := by cases c <;> rfl

/-- The handler writes the record and answers. -/
theorem Inv.settles (h : Inv w s) (hl : w.lock = some (.settling d)) :
    Inv { w with lock := none, download := w.download.settle d, log := w.log ++ [Note.answered d] } s := by
  have hpub : ¬ w.published := fun hp => by have := h.free hp; rw [hl] at this; cases this
  have hload : Note.loaded ∈ w.log ++ [Note.answered d] ↔ .loaded ∈ w.log := mem_snoc_ne nofun
  have htold : Note.told .loadBoundProfilePackage ∈ w.log ++ [Note.answered d] ↔ w.published := mem_snoc_ne nofun
  have hpub' : ¬ ({ w with lock := none, download := w.download.settle d, log := w.log ++ [Note.answered d] } : World).published :=
    fun hp => hpub (htold.mp hp)
  have hhand : ∀ d', .answered d' ∈ w.log ++ [Note.answered d] ↔ w.handed d' := by
    intro d'
    simp [handed, hl, eq_comm]
  have hstate := settle_state w.download d
  have haccept : d = .accept → w.download.state = .confirm := by
    rintro rfl; exact h.holder _ (.inr hl) nofun
  exact { h with
    unpublished := fun hp => absurd hp hpub'
    published := fun hs => absurd (h.published hs) hpub
    loaded := fun hd => absurd (h.loaded (hload.mp hd)).2 hpub
    confirm := fun hc => by
      have hc' : (w.download.settle d).state = .confirm := hc
      rw [hstate] at hc'; split at hc' <;> cases hc'
    waiting := fun hc => by
      have hc' : (w.download.settle d).state = .confirm := hc
      rw [hstate] at hc'; split at hc' <;> cases hc'
    running := fun _ hp => absurd hp hpub'
    early := fun hs hr _ => by
      have hr' : (w.download.settle d).state = .running := hr
      rw [hstate] at hr'
      split at hr'
      · rename_i hd
        obtain e | e | e := (h.confirm (haccept hd)).2.2 <;> rw [hs] at e <;> cases e
      · cases hr'
    free := fun _ => rfl
    holder := fun d' e => by obtain e | e := e <;> cases e
    refusals := fun d' hd' hh => by
      refine h.refusals d' hd' ((hhand d').mp ?_)
      obtain hh | hh := hh
      · exact hh
      · cases hh
    unloaded := fun d' hd' ha hl => hpub (h.loaded (hload.mp hl)).2
    accepted := fun hv hs => .inl ((hhand _).mpr (h.accepted hv hs))
    prepared := fun hv hs => List.mem_append_left _ (h.prepared hv hs)
    guarded := guarded_snoc h.guarded ⟨hpub, fun hd => (h.confirm (haccept hd)).1⟩ }

/-! ## The procedure's exchanges -/

theorem endsWith_cancel (step : Step) : step.text.endsWith "_cancel_session" = step.isCancel := by
  cases step <;> decide +kernel

theorem text_preview (step : Step) : step.text = "preview" ↔ step = .preview := by cases step <;> decide

theorem progress_state (d : Download) (step : Step) (data : Json) :
    (d.progress step.text data).state = if step = .preview ∧ d.state = .running then .confirm else d.state := by
  have hnames : ∀ e : Download, (e.noteNames data).state = e.state := by intro e; cases data <;> rfl
  unfold Download.progress
  rw [hnames, endsWith_cancel]
  cases hc : step.isCancel with
  | true =>
    have hne : step ≠ .preview := by rintro rfl; cases hc
    simp [hne]
  | false => simp only [text_preview, Bool.false_eq_true, if_false]

theorem progress_step (d : Download) (step : Step) (data : Json) :
    (d.progress step.text data).step = if step.isCancel then d.step else step.text := by
  have hnames : ∀ e : Download, (e.noteNames data).step = e.step := by intro e; cases data <;> rfl
  unfold Download.progress
  rw [hnames, endsWith_cancel]
  cases step.isCancel <;> rfl

/-- The moves a told step makes. -/
theorem tells_cases {preview : Bool} {step : Step} (ht : s.tells preview step) :
    (s.told step = s ∧ (s = .early ∨ s = .preparing ∨ s = .ended ∧ step.isCancel = true) ∧ step ≠ .preview ∧
        step ≠ .prepareDownload ∧ step ≠ .loadBoundProfilePackage) ∨
      (s = .early ∧ step = .preview ∧ s.told step = .shown) ∨
      (s = .early ∧ step = .prepareDownload ∧ s.told step = .preparing ∧ preview = false) ∨
      (s = .decided ∧ step = .prepareDownload ∧ s.told step = .preparing) ∨
      (s = .preparing ∧ step = .loadBoundProfilePackage ∧ s.told step = .published) := by
  cases s with
  | early =>
    cases step <;> first
      | exact .inl ⟨rfl, .inl rfl, by decide, by decide, by decide⟩
      | exact .inr (.inl ⟨rfl, rfl, rfl⟩)
      | exact absurd rfl ht.1
      | exact .inr (.inr (.inl ⟨rfl, rfl, rfl, by cases preview with
          | false => rfl
          | true => exact absurd rfl ht.2⟩))
  | decided => subst ht; exact .inr (.inr (.inr (.inl ⟨rfl, rfl, rfl⟩)))
  | preparing =>
    cases step <;> first
      | exact .inl ⟨rfl, .inr (.inl rfl), by decide, by decide, by decide⟩
      | exact .inr (.inr (.inr (.inr ⟨rfl, rfl, rfl⟩)))
      | exact absurd rfl ht.1
      | exact absurd rfl ht.2
  | ended => cases step <;> first | exact .inl ⟨rfl, .inr (.inr ⟨rfl, rfl⟩), by decide, by decide, by decide⟩ | cases ht
  | shown => exact ht.elim
  | published => exact ht.elim
  | loading => exact ht.elim

theorem due_told {preview : Bool} {log : List Note} {step : Step}
    (h : step = .prepareDownload → preview = true → .answered .accept ∈ log) : (Note.told step).due preview log := by
  cases step with
  | prepareDownload => exact h rfl
  | _ => trivial

theorem installing_text : installingStep Step.loadBoundProfilePackage.text = true := by decide +kernel

/-- A step is told: the record names it, and the preview waits for its answer. -/
theorem Inv.tells (h : Inv w s) (hl : w.lock = none) {step : Step} (data : Json) (ht : s.tells w.preview step) (hstands : t.Stands w.preview (s.told step)) (hopen : t.isClosed = false) :
    Inv { w with download := w.download.progress step.text data, log := w.log ++ [Note.told step], thread := t } (s.told step) := by
  have hset : ¬ w.settling := by rintro ⟨d, e⟩; rw [hl] at e; cases e
  have hanswer : ∀ d, Note.answered d ∈ w.log ++ [Note.told step] ↔ .answered d ∈ w.log := fun d => mem_snoc_ne nofun
  have hload : Note.loaded ∈ w.log ++ [Note.told step] ↔ .loaded ∈ w.log := mem_snoc_ne nofun
  have hhand : ∀ d, w.handed d ↔ .answered d ∈ w.log := fun d => by simp [handed, hl]
  have hpub : Note.told .loadBoundProfilePackage ∈ w.log ++ [Note.told step] ↔
      w.published ∨ step = .loadBoundProfilePackage := by simp [World.published, eq_comm]
  have hcases := tells_cases ht
  have hstate := progress_state w.download step data
  have hstep := progress_step w.download step data
  have hwait := h.waiting
  exact {
    thread := hstands
    closed := fun e => by rw [hopen] at e; cases e
    unpublished := fun hp => by have := hpub.mp hp; have := h.unpublished; grind
    published := fun hs => hpub.mpr (by have := h.published; grind)
    loaded := fun hd => by
      obtain ⟨hs, hp⟩ := h.loaded (hload.mp hd)
      exact ⟨by grind, hpub.mpr (.inl hp)⟩
    confirm := fun hc => by
      have hc' : (w.download.progress step.text data).state = .confirm := hc
      rw [hstate] at hc'
      have := h.confirm; have := h.unpublished
      refine ⟨?_, fun hp => ?_, ?_⟩
      · show Note.told .preview ∈ w.log ++ [Note.told step]
        grind
      · have := hpub.mp hp
        grind
      · grind
    waiting := fun hc _ => by
      have hc' : (w.download.progress step.text data).state = .confirm := hc
      rw [hstate] at hc'
      have := h.early; have := h.waiting
      show _ ∨ _ ∧ w.chan = []
      grind
    running := fun hr hp => by
      have hr' : (w.download.progress step.text data).state = .running := hr
      rw [hstate] at hr'
      show installingStep (w.download.progress step.text data).step = true
      rw [hstep]
      obtain hp | rfl := hpub.mp hp
      · have hs := h.unpublished hp
        have hc : step.isCancel = true := by grind
        rw [if_pos hc]
        exact h.running (by grind) hp
      · exact installing_text
    early := fun hs hr _ => by
      have hr' : (w.download.progress step.text data).state = .running := hr
      rw [hstate] at hr'
      have := h.early
      show w.chan = []
      grind
    free := fun _ => hl
    holder := fun d e => by simp [hl] at e
    refusals := fun d hd hh => by
      have hold := h.refusals d hd ((hhand d).mpr (by simpa [handed, hl] using hh))
      show _ ∨ _ ∧ (.cancel ∈ w.chan ∨ _)
      grind
    unloaded := fun d hd ha hl => h.unloaded d hd ((hanswer d).mp ha) (hload.mp hl)
    accepted := fun hv hs => by
      refine .inl ((hanswer _).mpr ((hhand _).mp (h.accepted hv ?_)))
      have hs' : .accept ∈ w.chan ∨ s.told step = .decided := hs
      grind
    prepared := fun hv hs => (hanswer _).mpr (by have := h.prepared hv; have := h.accepted hv; grind)
    guarded := guarded_snoc h.guarded (due_told fun hstep hv => (hhand _).mp (h.accepted hv (.inr (by grind)))) }

variable {u : Stage}

/-- The procedure takes the first message of the channel, or finds it empty, and goes on at
    stage `u`. It stops, or the message asked for no stop. -/
theorem Inv.takesFrom (h : Inv w s) {c : DownloadCtl} {rest : List DownloadCtl} (hc : w.control = some (c :: rest))
    (hu : u = .ended ∨ u = s ∧ c ≠ .cancel ∧ s ≠ .shown ∨ s = .shown ∧ u = .decided ∧ c = .accept) (ht : t.Stands w.preview u) (hopen : t.isClosed = false) :
    Inv { w with control := some rest, thread := t } u := by
  have hchan : w.chan = c :: rest := by simp [chan, hc]
  have hshown : s = .shown → ¬ w.published := fun hs hp => by
    obtain e | e | e := h.unpublished hp <;> rw [hs] at e <;> cases e
  exact { h with
    thread := ht
    closed := fun e => by rw [hopen] at e; cases e
    unpublished := fun hp => by have := h.unpublished hp; grind
    published := fun hs => h.published (by grind)
    loaded := fun hd => ⟨by have := (h.loaded hd).1; grind, (h.loaded hd).2⟩
    confirm := fun hcf => ⟨(h.confirm hcf).1, (h.confirm hcf).2.1, by have := (h.confirm hcf).2.2; grind⟩
    waiting := fun hcf hset => by have := h.waiting hcf hset; grind
    early := fun hs hr hset => by
      have hse : s = .early := by grind
      have := h.early hse hr hset
      rw [hchan] at this; cases this
    refusals := fun d hd hh => by
      have hold := h.refusals d hd hh
      rw [hchan] at hold
      show _ ∨ _ ∧ (.cancel ∈ rest ∨ _)
      grind
    accepted := fun hv hs => by
      have hs' : .accept ∈ rest ∨ u = .decided := hs
      refine h.accepted hv ?_
      rw [hchan]
      grind
    prepared := fun hv hs => h.prepared hv (by grind) }

/-- The procedure finds no message. -/
theorem Inv.findsNone (h : Inv w s) (hc : w.chan = [])
    (hu : u = .ended ∨ u = s ∧ s ≠ .published ∨ s = .published ∧ u = .loading)
    (ht : t.Stands w.preview u) (hopen : t.isClosed = false) : Inv { w with thread := t } u := { h with
  thread := ht
  closed e := by rw [hopen] at e; cases e
  unpublished hp := by have := h.unpublished hp; grind
  published hs := h.published (by grind)
  loaded hd := ⟨by have := (h.loaded hd).1; grind, (h.loaded hd).2⟩
  confirm hcf := ⟨(h.confirm hcf).1, (h.confirm hcf).2.1, by have := h.confirm hcf; grind⟩
  waiting hcf hset := by
    have := h.waiting hcf hset
    show _ ∨ _ ∧ w.chan = []
    grind
  early hs hr hset := h.early (by grind) hr hset
  refusals d hd hh := by
    have hold := h.refusals d hd hh
    show _ ∨ _ ∧ (.cancel ∈ w.chan ∨ _ ∧ w.chan.head? = _)
    rw [hc] at hold ⊢
    grind
  accepted hv hs := h.accepted hv (by
    obtain hs | hs := hs
    · exact .inl hs
    · exact .inr (by grind))
  prepared hv hs := h.prepared hv (by grind) }

/-- A card command of the procedure, put on record. -/
theorem Inv.commands (h : Inv w s) {n : Note} (hn : n = .prepared ∧ s = .preparing ∧ u = s ∨ n = .loaded ∧ s = .loading ∧ u = .ended) (ht : t.Stands w.preview u) (hopen : t.isClosed = false) :
    Inv { w with log := w.log ++ [n], thread := t } u := by
  have hanswer : ∀ d, Note.answered d ∈ w.log ++ [n] ↔ .answered d ∈ w.log := fun d => mem_snoc_ne (by grind)
  have htold : ∀ step, Note.told step ∈ w.log ++ [n] ↔ .told step ∈ w.log := fun step => mem_snoc_ne (by grind)
  have hpub := htold .loadBoundProfilePackage
  have hhand : ∀ d, ({ w with log := w.log ++ [n], thread := t } : World).handed d ↔ w.handed d :=
    fun d => or_congr_left (hanswer d)
  have hloaded : Note.loaded ∈ w.log ++ [n] → .loaded ∈ w.log ∨ s = .loading := by simp; grind
  have hcalm : s = .loading → ∀ d : DownloadCtl, d.refuses = true → .answered d ∉ w.log := by
    intro hs d hd ha
    have := h.refusals d hd (.inl ha)
    grind
  exact {
    thread := ht
    closed := fun e => by rw [hopen] at e; cases e
    unpublished := fun hp => by have := h.unpublished (hpub.mp hp); grind
    published := fun hs => hpub.mpr (h.published (by grind))
    loaded := fun hd => by
      obtain hd | hs := hloaded hd
      · exact ⟨by have := (h.loaded hd).1; grind, hpub.mpr (h.loaded hd).2⟩
      · exact ⟨by grind, hpub.mpr (h.published (.inr hs))⟩
    confirm := fun hc =>
      ⟨(htold _).mpr (h.confirm hc).1, fun hp => (h.confirm hc).2.1 (hpub.mp hp), by have := h.confirm hc; grind⟩
    waiting := fun hc hset => by
      have := h.waiting hc hset
      show _ ∨ _ ∧ w.chan = []
      grind
    running := fun hr hp => h.running hr (hpub.mp hp)
    early := fun hs hr hset => h.early (by grind) hr hset
    free := fun hp => h.free (hpub.mp hp)
    holder := h.holder
    refusals := fun d hd hh => by
      have hold := h.refusals d hd ((hhand d).mp hh)
      show _ ∨ _ ∧ (.cancel ∈ w.chan ∨ _)
      grind
    unloaded := fun d hd ha hl => by
      obtain hl | hs := hloaded hl
      · exact h.unloaded d hd ((hanswer d).mp ha) hl
      · exact hcalm hs d hd ((hanswer d).mp ha)
    accepted := fun hv hs => (hhand _).mpr (h.accepted hv (by
      obtain hs | hs := hs
      · exact .inl hs
      · exact .inr (by grind)))
    prepared := fun hv hs => (hanswer _).mpr (h.prepared hv (by grind))
    guarded := guarded_snoc h.guarded (by
      obtain ⟨rfl, hs, _⟩ | ⟨rfl, _⟩ := hn
      · exact fun hv => h.prepared hv (.inl hs)
      · trivial) }

/-- A look at the channel. -/
theorem Inv.looks (h : Inv w s) (env : (q : Ask) → q.Answer) {k : Bool → Procedure (Except String Installed)}
    (hp : Plays w.preview (.ask .cancelled k) s fun _ _ => True) (ht : w.thread = .running (.ask .cancelled k)) :
    ∃ u, Inv (w.exchange env (.ask .cancelled k)) u := by
  have hs : s ≠ .shown ∧ s ≠ .decided := by have := hp.1; grind [Stage.allows, Stage.mayStop]
  have hempty : w.chan = [] → ∃ u, Inv { w with thread := .running (k false) } u := fun hc =>
    ⟨_, h.findsNone hc (by grind [Stage.next]) (hp.2 false) rfl⟩
  cases hc : w.control with
  | none => simpa only [World.exchange, hc] using hempty (by simp [chan, hc])
  | some queue =>
    cases queue with
    | nil => simpa only [World.exchange, hc] using hempty (by simp [chan, hc])
    | cons c rest =>
      by_cases hcancel : c = .cancel
      · subst hcancel
        exact ⟨.ended, by simpa only [World.exchange, hc] using h.takesFrom (t := .running (k true)) hc (.inl rfl) (hp.2 true) rfl⟩
      · refine ⟨s, ?_⟩
        have hnext := h.takesFrom (u := s) hc (.inr (.inl ⟨rfl, hcancel, hs.1⟩)) (t := w.thread) (by rw [ht]; exact hp) (by rw [ht]; rfl)
        cases c with
        | cancel => exact absurd rfl hcancel
        | _ => simpa only [World.exchange, hc] using hnext

/-- The wait for the answer to the preview. -/
theorem Inv.waits (h : Inv w s) (env : (q : Ask) → q.Answer) {limit : Nat}
    {k : Option DownloadCtl → Procedure (Except String Installed)}
    (hp : Plays w.preview (.ask (.recvTimeout limit) k) s fun _ _ => True) :
    ∃ u, Inv (w.exchange env (.ask (.recvTimeout limit) k)) u := by
  have hs : s = .shown := hp.1
  have hempty : w.chan = [] → ∃ u, Inv (if env (.recvTimeout limit) = none then { w with thread := .running (k none) } else w) u := by
    intro hc
    split
    · exact ⟨.ended, h.findsNone hc (.inl rfl) (hp.2 none) rfl⟩
    · exact ⟨s, h⟩
  cases hc : w.control with
  | none => simpa only [World.exchange, hc] using hempty (by simp [chan, hc])
  | some queue =>
    cases queue with
    | nil => simpa only [World.exchange, hc] using hempty (by simp [chan, hc])
    | cons c rest =>
      refine ⟨if c = .accept then .decided else .ended, ?_⟩
      have hstands := hp.2 (some c)
      simp only [Stage.next, Option.some.injEq] at hstands
      simpa only [World.exchange, hc] using h.takesFrom (t := .running (k (some c))) hc (by grind) hstands rfl

theorem Inv.exchange (h : Inv w s) (env : (q : Ask) → q.Answer) {p : Procedure (Except String Installed)}
    (hp : Plays w.preview p s fun _ _ => True) (ht : w.thread = .running p) : ∃ u, Inv (w.exchange env p) u := by
  cases p with
  | done r => exact ⟨s, h⟩
  | ask q k =>
    have hcall : ∀ a, s.next ⟨q, a⟩ = s → ∃ u, Inv { w with thread := .running (k a) } u := fun a hn =>
      ⟨s, h.moves (hn ▸ hp.2 a) nofun⟩
    cases q with
    | progress step data =>
      show ∃ u, Inv (if w.lock.isSome then w else _) u
      by_cases hl : w.lock.isSome = true
      · rw [if_pos hl]; exact ⟨s, h⟩
      rw [if_neg hl]
      refine ⟨s.told step, h.tells (by simpa using hl) data hp.1 ?_ ?_⟩
      · split <;> exact hp.2 ()
      · split <;> rfl
    | cancelled => exact h.looks env hp ht
    | recvTimeout limit => exact h.waits env hp
    | prepareDownload param tid code => exact ⟨_, h.commands (.inl ⟨rfl, hp.1, rfl⟩) (hp.2 _) rfl⟩
    | loadBoundProfilePackage package => exact ⟨_, h.commands (.inr ⟨rfl, hp.1, rfl⟩) (hp.2 _) rfl⟩
    | left => exact hcall _ rfl
    | getEuiccChallenge => exact hcall _ rfl
    | getEuiccInfo1 => exact hcall _ rfl
    | initiateAuthentication limit smdp challenge info1 => exact hcall _ rfl
    | authenticateServer param matchingId => exact hcall _ rfl
    | authenticateClient limit smdp tid response => exact hcall _ rfl
    | getBoundProfilePackage limit smdp tid prepared => exact hcall _ rfl
    | cancelSession tid reason => exact hcall _ rfl
    | es9pCancelSession limit smdp tid response => exact hcall _ rfl

/-! ## Steps and runs -/

/-- A download starts: its story begins anew. -/
theorem Inv.starts (h : Inv w s) (ht : w.thread.isClosed = true) (hl : w.lock = none) {d : Download} (hd : d.state = .running)
    {preview : Bool} (hu : u = .early ∨ u = .ended) (hstands : t.Stands preview u) (n : Nat) :
    Inv { w with download := d, preview, log := [], thread := t, unspawned := n } u where
  thread := hstands
  closed _ := h.closed ht
  unpublished hp := by cases hp
  published hs := by grind
  loaded hd := by cases hd
  confirm hc := by
    have hc' : d.state = .confirm := hc
    rw [hd] at hc'; cases hc'
  waiting hc := by
    have hc' : d.state = .confirm := hc
    rw [hd] at hc'; cases hc'
  running _ hp := by cases hp
  early _ _ _ := by
    have hcontrol := h.closed ht
    simp [chan, hcontrol]
  free hp := by cases hp
  holder d e := by simp [hl] at e
  refusals d _ hh := by
    obtain hh | hh := hh
    · cases hh
    · rw [hl] at hh; cases hh
  unloaded d _ ha := by cases ha
  accepted _ hs := by
    have hcontrol := h.closed ht
    obtain hs | hs := hs
    · simp [chan, hcontrol] at hs
    · grind
  prepared _ hs := by grind
  guarded := trivial

theorem confirm_of_checks {expected : Option Json} {accept : Bool}
    (hd : w.confirmChecks expected accept = .ok d) : w.download.state = .confirm := by
  by_contra hne
  unfold confirmChecks at hd
  cases hsel : checkDownloadSelection w.agent w.download expected with
  | error e => rw [hsel] at hd; cases hd
  | ok u => rw [hsel] at hd; simp [Bind.bind, Except.bind, hne] at hd

theorem cancel_of_checks {expected : Option Json} (hd : w.cancelChecks expected = .ok d) :
    d = .cancel ∧ ¬ (w.download.state = .running ∧ installingStep w.download.step = true) ∧
      (w.download.state = .confirm ∨ w.download.state = .running) := by
  unfold cancelChecks at hd
  cases hsel : checkDownloadSelection w.agent w.download expected with
  | error e => rw [hsel] at hd; cases hd
  | ok u =>
    rw [hsel] at hd
    simp only [Bind.bind, Except.bind] at hd
    split at hd
    · cases hd
    · rename_i hinstalling
      split at hd
      · cases hd
      · rename_i hstate
        cases hd
        exact ⟨rfl, hinstalling, by grind⟩

theorem Inv.says (h : Inv w s) (hl : w.lock = none) (status : Nat) (text : String) : Inv (w.say (.refused status text)) s := by
  have hset : ¬ w.settling := by rintro ⟨d, e⟩; rw [hl] at e; cases e
  have hrefused := h.refuses hset status text
  rw [← hl] at hrefused
  exact hrefused

theorem Inv.send (h : Inv w s) (hl : w.lock = some (.sending d)) : Inv (w.send d) s := by
  unfold World.send
  cases hc : w.control with
  | some queue => exact h.sends hl hc
  | none =>
    have hset : ¬ w.settling := by rintro ⟨d, e⟩; rw [hl] at e; cases e
    cases notTaken d with
    | some reply =>
      have hrefused := h.refuses hset reply.1 reply.2
      rw [hc] at hrefused
      exact hrefused
    | none =>
      have hreleased := h.releases hset
      rw [hc] at hreleased
      exact hreleased

theorem finish_state (d : Download) (r : Except String Installed) (now : Nat) :
    (d.finish r now).state ≠ .confirm ∧ (d.finish r now).state ≠ .running := by
  cases r with
  | ok data => exact ⟨nofun, nofun⟩
  | error e => unfold Download.finish; dsimp only; split <;> exact ⟨nofun, nofun⟩

/-- A handler takes the lock only before the install step. -/
theorem Inv.decides (h : Inv w s) (hl : w.lock = none) {checks : Except (Nat × String) DownloadCtl}
    (hok : ∀ d, checks = .ok d → ¬ w.published ∧ (d ≠ .cancel → w.download.state = .confirm)) : Inv (w.decide checks) s := by
  cases checks with
  | ok d => exact h.takes hl (hok d rfl).1 (hok d rfl).2
  | error e => exact h.says hl e.1 e.2

/-- A download that has closed its channel comes back. -/
theorem Inv.closes (h : Inv w s) (hc : w.control = none) (ht : t.Stands w.preview .ended) :
    Inv { w with thread := t } .ended := by
  have := h.returns ht
  rw [← hc] at this
  exact this

theorem Inv.opens (h : Inv w s) {p : Procedure (Except String Installed)} (ht : w.thread = .starting p) :
    Inv { w with thread := .opened p, control := some [] } s := by
  have hc : w.control = none := h.closed (by rw [ht]; rfl)
  have hstands := h.thread
  rw [ht] at hstands
  have hchan : w.chan = [] := by simp [chan, hc]
  exact { h with
    thread := hstands
    closed := nofun
    waiting := fun hcf hset => hchan ▸ h.waiting hcf hset
    early := fun _ _ _ => rfl
    refusals := fun d hd hh => hchan ▸ h.refusals d hd hh
    accepted := fun hv hs => h.accepted hv (by rw [hchan]; exact hs) }

theorem Inv.step (cx : Codec) (h : Inv w s) (e : Event) : ∃ u, Inv (World.step cx w e) u := by
  have hstay : ∃ u, Inv w u := ⟨s, h⟩
  cases e with
  | start code confirmation preview now spawned =>
    unfold World.step
    dsimp only
    cases ht : w.thread with
    | none =>
      cases hl : w.lock with
      | none =>
        have hclosed : w.thread.isClosed = true := by rw [ht]; rfl
        cases spawned with
        | true =>
          have := h.starts hclosed hl (d := { state := .running, step := "starting", startedAt := now }) rfl
            (.inl rfl) (t := .starting (Esim.download cx code confirmation preview)) (download_stages cx code confirmation) w.unspawned
          exact ⟨_, by simpa [hl] using this⟩
        | false =>
          have := h.starts hclosed hl (d := { state := .running, step := "starting", startedAt := now }) rfl
            (.inr rfl) (show Thread.Stands preview .ended .none from rfl) (w.unspawned + 1)
          exact ⟨_, by simpa [hl, ht] using this⟩
      | some holder => exact hstay
    | _ => exact hstay
  | noThread =>
    show ∃ u, Inv (if 0 < w.unspawned ∧ w.lock = none then _ else w) u
    by_cases hc : 0 < w.unspawned ∧ w.lock = none
    · rw [if_pos hc]
      have hrested := h.rests hc.2
        (d := { w.download with state := .failed, error := some "cannot start the download thread" }) (fun hc => by cases hc) fun hr => by cases hr
      exact ⟨s, hrested.unheeded w.timers (w.unspawned - 1)⟩
    · rw [if_neg hc]; exact hstay
  | openChannel failure =>
    unfold World.step
    dsimp only
    cases ht : w.thread with
    | starting p =>
      cases failure with
      | some m => exact ⟨.ended, h.closes (t := .returned _) (h.closed (by rw [ht]; rfl)) rfl⟩
      | none => exact ⟨s, h.opens ht⟩
    | _ => exact hstay
  | openSession failure =>
    unfold World.step
    dsimp only
    cases ht : w.thread with
    | opened p =>
      have hp := h.thread
      rw [ht] at hp
      cases failure with
      | some m => exact ⟨s, h.moves (t := .running (.done (.error m))) trivial fun hc => by cases hc⟩
      | none => exact ⟨s, h.moves (t := .running p) hp fun hc => by cases hc⟩
    | _ => exact hstay
  | answer env =>
    unfold World.step
    dsimp only
    cases ht : w.thread with
    | running p =>
      have hp := h.thread
      rw [ht] at hp
      exact h.exchange env hp ht
    | _ => exact hstay
  | arm spawned =>
    unfold World.step
    dsimp only
    cases ht : w.thread with
    | asking p =>
      cases hl : w.lock with
      | none =>
        have hp := h.thread
        rw [ht] at hp
        have hmoved := (h.moves (t := .running p) hp fun hc => by cases hc).unheeded (if spawned then w.download.startedAt :: w.timers else w.timers) w.unspawned
        rw [hl] at hmoved
        exact ⟨s, hmoved⟩
      | some holder => exact hstay
    | _ => exact hstay
  | crash =>
    unfold World.step
    dsimp only
    cases ht : w.thread with
    | running p =>
      cases p with
      | ask q k => exact ⟨s, h.moves (t := .running (.done _)) trivial fun hc => by cases hc⟩
      | done r => exact hstay
    | _ => exact hstay
  | close =>
    unfold World.step
    dsimp only
    cases ht : w.thread with
    | running p =>
      cases p with
      | ask q k => exact hstay
      | done r => exact ⟨.ended, h.returns (t := .returned r) rfl⟩
    | _ => exact hstay
  | finish now =>
    unfold World.step
    dsimp only
    cases ht : w.thread with
    | returned r =>
      cases hl : w.lock with
      | none =>
        have hs := h.thread
        rw [ht] at hs
        obtain ⟨hc, hr⟩ := finish_state w.download r now
        have hrested := (h.rests hl hc hr).moves (t := .none) hs fun _ => h.closed (by rw [ht]; rfl)
        rw [hl] at hrested
        exact ⟨s, hrested⟩
      | some holder => exact hstay
    | _ => exact hstay
  | confirm expected accept =>
    show ∃ u, Inv (if w.lock = none then _ else w) u
    by_cases hl : w.lock = none
    · rw [if_pos hl]
      refine ⟨s, h.decides hl fun d hd => ?_⟩
      have hc := confirm_of_checks hd
      exact ⟨(h.confirm hc).2.1, fun _ => hc⟩
    · rw [if_neg hl]; exact hstay
  | cancel expected =>
    show ∃ u, Inv (if w.lock = none then _ else w) u
    by_cases hl : w.lock = none
    · rw [if_pos hl]
      refine ⟨s, h.decides hl fun d hd => ?_⟩
      obtain ⟨rfl, hinstalling, hc | hr⟩ := cancel_of_checks hd
      · exact ⟨(h.confirm hc).2.1, fun e => absurd rfl e⟩
      · exact ⟨fun hp => hinstalling ⟨hr, h.running hr hp⟩, fun e => absurd rfl e⟩
    · rw [if_neg hl]; exact hstay
  | fire started =>
    show ∃ u, Inv (if started ∈ w.timers ∧ w.lock = none then _ else w) u
    by_cases hc : started ∈ w.timers ∧ w.lock = none
    · rw [if_pos hc]
      have hrung := h.unheeded (w.timers.erase started) w.unspawned
      dsimp only
      split
      · rename_i hd
        exact ⟨s, hrung.takes hc.2 (h.confirm hd.1).2.1 fun _ => hd.1⟩
      · exact ⟨s, hrung⟩
    · rw [if_neg hc]; exact hstay
  | hold =>
    unfold World.step
    dsimp only
    cases hl : w.lock with
    | none => exact hstay
    | some holder =>
      cases holder with
      | settling d => exact ⟨s, h.settles hl⟩
      | sending d => exact ⟨s, h.send hl⟩
  | status now =>
    show ∃ u, Inv (if w.lock = none then { w with download := w.download.expire now } else w) u
    by_cases hl : w.lock = none
    · rw [if_pos hl]
      unfold Download.expire
      split
      · exact ⟨s, h.rests hl (fun hc => by cases hc) fun hr => by cases hr⟩
      · exact hstay
    · rw [if_neg hl]; exact hstay
  | dismiss expected =>
    unfold World.step
    dsimp only
    by_cases hl : w.lock = none
    · rw [if_pos hl]
      cases hd : w.dismissChecks expected with
      | ok u => exact ⟨s, h.rests hl (fun hc => by cases hc) fun hr => by cases hr⟩
      | error e => exact ⟨s, h.says hl e.1 e.2⟩
    · rw [if_neg hl]; exact hstay

end Steps

theorem Inv.init (agent : Nat) : Inv { agent } .ended where
  thread := rfl
  closed _ := rfl
  unpublished hp := by cases hp
  published hs := by grind
  loaded hd := by cases hd
  confirm hc := by cases hc
  waiting hc := by cases hc
  running hr := by cases hr
  early hs := by cases hs
  free hp := by cases hp
  holder d e := by obtain e | e := e <;> cases e
  refusals d _ hh := by obtain hh | hh := hh <;> cases hh
  unloaded d _ ha := by cases ha
  accepted hv := by cases hv
  prepared hv := by cases hv
  guarded := trivial

/-- For every card and server and every interleaving of the download thread with Confirm,
    Decline, Cancel and the preview's timer: a download that answered a Cancel or a Decline
    with success never loads the package; with a preview it prepares only after an Accept
    that followed the preview; after the install step nothing is decided. -/
theorem decisions_honoured (cx : Codec) (agent : Nat) (es : List Event) :
    (exec (World.step cx) { agent } es).Honoured := by
  have hinv : ∃ s, Inv (exec (World.step cx) { agent } es) s :=
    invariant (I := fun w => ∃ s, Inv w s) (fun _ e ⟨_, h⟩ => h.step cx e) ⟨.ended, Inv.init agent⟩
  obtain ⟨s, h⟩ := hinv
  exact ⟨h.unloaded, h.guarded⟩

/-- A card and a server that agree to everything. -/
def agreeable : (q : Ask) → q.Answer
  | .progress _ _ => ()
  | .cancelled => false
  | .recvTimeout _ => some .accept
  | .left => 300000
  | .getEuiccChallenge => .ok ""
  | .getEuiccInfo1 => .ok ""
  | .initiateAuthentication _ _ _ _ => .ok ("1111", ⟨"", "", "", ""⟩)
  | .authenticateServer _ _ => .ok ([0x11], "")
  | .authenticateClient _ _ _ _ => .ok ⟨"", "", "", ""⟩
  | .prepareDownload _ _ _ => .ok ""
  | .getBoundProfilePackage _ _ _ _ => .ok ""
  | .loadBoundProfilePackage _ => .ok ⟨7, none, none, none⟩
  | .cancelSession _ _ => .ok ""
  | .es9pCancelSession _ _ _ _ => .ok ()

def namelessCodec : Codec := ⟨fun _ => [], fun _ _ => none, fun _ => .ok ⟨"", none, none, none, none, none⟩⟩

/-- Up to the preview, which is accepted. -/
def acceptedRun : List Event :=
  [.start ⟨"smdp.example", "ABC-123", false⟩ none true 0 true, .openChannel none, .openSession none] ++
    List.replicate 16 (.answer agreeable) ++ [.arm true, .confirm none true, .hold, .hold]

/-- The accepted download is installed, unless a Cancel comes in before its last step. -/
example :
    .loaded ∈ (exec (World.step namelessCodec) { agent := 1 } (acceptedRun ++ List.replicate 13 (.answer agreeable))).log ∧
      .loaded ∉ (exec (World.step namelessCodec) { agent := 1 }
        (acceptedRun ++ List.replicate 10 (.answer agreeable) ++ [.cancel none, .hold, .hold] ++
          List.replicate 13 (.answer agreeable))).log := by decide +kernel

end OpenU60.Esim
