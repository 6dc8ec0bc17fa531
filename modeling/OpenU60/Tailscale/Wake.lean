/-
  OpenU60.Tailscale.Wake — the handshake with the supervisor keeps the binaries free while they are swapped, and
  where a wake is lost (`zte-agent/src/tailscale/mod.rs`).

  The invariant is kept by the supervisor's steps, a caller's and the child's end, each part of it on its own:
  - `Inv.free`: from a quiesce that returned true to the next resume there is no child, and no step spawns one.
  - `Inv.alone`: at most one child lives.

  Each park but one reads its flags again under the lock, so that a store is seen or its notification still to come
  (`Awake`). The monitor's wait for the next poll reads them before it takes the lock:
  - `wake_missed`: a disable that stores and notifies in between leaves it parked.
  - `handshake_upheld`: that is the only way.
-/

import OpenU60.Tailscale.Handshake

namespace OpenU60.Tailscale.Handshake

open OpenU60.Lib

variable {w : World} {x : Outside} {i : Nat}

/-! ## The supervisor -/

theorem supervise_keeps (w : World) (x : Outside) : (w.supervise x).callers = w.callers ∧ (w.supervise x).running = w.running ∧
    (w.supervise x).paused = w.paused ∧ (w.supervise x).clears = w.clears ∧ (w.supervise x).started = w.started := by
  unfold World.supervise World.take
  cases w.spot <;> first | exact ⟨rfl, rfl, rfl, rfl, rfl⟩ | (dsimp only; split <;> exact ⟨rfl, rfl, rfl, rfl, rfl⟩)

/-- The lock is taken where it is free, given back, or left alone, and the spot says so. -/
theorem supervise_lock (h : w.lock = some .supervisor ↔ w.spot.holds = true) :
    ((w.supervise x).lock = some .supervisor ↔ (w.supervise x).spot.holds = true) ∧
      ∀ i, (w.supervise x).lock = some (.caller i) ↔ w.lock = some (.caller i) := by
  have htake : ∀ s : Spot, s.holds = true → w.spot.holds = false →
      ((w.take .supervisor s).lock = some .supervisor ↔ (w.take .supervisor s).spot.holds = true) ∧
        ∀ i, (w.take .supervisor s).lock = some (.caller i) ↔ w.lock = some (.caller i) := by
    intro s hs hfree
    unfold World.take
    split
    · rename_i hnone
      exact ⟨iff_of_true rfl hs, fun i => by rw [hnone]; exact ⟨nofun, nofun⟩⟩
    · exact ⟨h, fun i => Iff.rfl⟩
  -- a step that leaves the lock alone, from a spot without it to one without it
  have hidle : ∀ w' : World, w'.lock = w.lock → w'.spot.holds = false → w.spot.holds = false →
      (w'.lock = some .supervisor ↔ w'.spot.holds = true) ∧ ∀ i, w'.lock = some (.caller i) ↔ w.lock = some (.caller i) := by
    intro w' hlock hs' hs
    rw [hlock, hs', h, hs]
    exact ⟨Iff.rfl, fun i => Iff.rfl⟩
  have hkeep : ∀ w' : World, w'.lock = w.lock → w'.spot.holds = true → w.spot.holds = true →
      (w'.lock = some .supervisor ↔ w'.spot.holds = true) ∧ ∀ i, w'.lock = some (.caller i) ↔ w.lock = some (.caller i) := by
    intro w' hlock hs' hs
    rw [hlock, hs', h, hs]
    exact ⟨Iff.rfl, fun i => Iff.rfl⟩
  have hgive : ∀ w' : World, w'.lock = none → w'.spot.holds = false → w.spot.holds = true →
      (w'.lock = some .supervisor ↔ w'.spot.holds = true) ∧ ∀ i, w'.lock = some (.caller i) ↔ w.lock = some (.caller i) := by
    intro w' hlock hs' hs
    rw [hlock, hs', h.mpr hs]
    exact ⟨⟨nofun, nofun⟩, fun i => ⟨nofun, fun hi => by cases hi⟩⟩
  unfold World.supervise
  cases hs : w.spot with
  | locks p => exact htake _ (by cases p <;> rfl) (by rw [hs]; rfl)
  | woken p => exact htake _ (by cases p <;> rfl) (by rw [hs]; rfl)
  | evaluates p => exact hkeep _ rfl (by cases p <;> cases w.running <;> rfl) (by rw [hs]; rfl)
  | evaluatesPaused p => exact hkeep _ rfl (by cases p <;> cases w.paused <;> rfl) (by rw [hs]; rfl)
  | waits p =>
    dsimp only
    split
    · exact hkeep _ rfl rfl (by rw [hs]; rfl)
    · exact hgive _ rfl rfl (by rw [hs]; rfl)
  | leaves p => exact hgive _ rfl (by cases p <;> cases x.late <;> rfl) (by rw [hs]; rfl)
  | reads c => exact hidle _ rfl (by cases c <;> cases w.running <;> rfl) (by rw [hs]; rfl)
  | readsPaused c => exact hidle _ rfl (by cases c <;> cases w.paused <;> rfl) (by rw [hs]; rfl)
  | looks => exact hidle _ rfl (by cases x.installed <;> rfl) (by rw [hs]; rfl)
  | probes => exact hidle _ rfl (by cases x.ready <;> rfl) (by rw [hs]; rfl)
  | tries => exact hidle _ rfl (by dsimp only; split <;> rfl) (by rw [hs]; rfl)
  | polls => exact hidle _ rfl (by cases x.restarts <;> rfl) (by rw [hs]; rfl)
  | triesAgain => exact hidle _ rfl (by dsimp only; split <;> rfl) (by rw [hs]; rfl)
  | clocks => exact hidle _ rfl (by cases x.late <;> rfl) (by rw [hs]; rfl)
  | ends => exact hidle _ rfl (by cases w.running <;> rfl) (by rw [hs]; rfl)
  | spawns =>
    dsimp only
    split
    · exact hidle _ rfl rfl (by rw [hs]; rfl)
    · exact hidle _ rfl rfl (by rw [hs]; rfl)
  | unborn | setsIdle | parked | setsIdleUninstalled | sleeps | clearsIdle | cleans | records | applies | stops | forgets =>
    exact hidle _ rfl (by first | rfl | rw [hs]; rfl) (by rw [hs]; rfl)

theorem World.OneChild.gone (h : w.OneChild) (hgone : w.gone = true) : w.alive = [] := by
  rcases h with h | ⟨-, pid, hchild, halive⟩
  · exact h
  · unfold World.gone at hgone
    rw [hchild, halive] at hgone
    simp at hgone

theorem supervise_children (h : w.OneChild) : (w.supervise x).OneChild := by
  have hkeep : ∀ w' : World, w'.alive = w.alive → w'.child = w.child → (w.spot.withChild = true → w'.spot.withChild = true) → w'.OneChild := by
    intro w' halive hchild hspot
    rcases h with h | ⟨hwith, pid, hpid, h⟩
    · exact .inl (halive.trans h)
    · exact .inr ⟨hspot hwith, pid, hchild.trans hpid, halive.trans h⟩
  have htake : ∀ s : Spot, (w.spot.withChild = true → s.withChild = true) → (w.take .supervisor s).OneChild := by
    intro s hspot
    unfold World.take
    split
    · exact hkeep _ rfl rfl hspot
    · exact h
  have hnone : w.spot.withChild = false → w.alive = [] := by
    intro hwithout
    rcases h with h | ⟨hwith, -⟩
    · exact h
    · rw [hwithout] at hwith
      cases hwith
  unfold World.supervise
  cases hs : w.spot with
  | locks p => exact htake _ (by rw [hs]; cases p <;> exact id)
  | woken p => exact htake _ (by rw [hs]; cases p <;> exact id)
  | evaluates p => exact hkeep _ rfl rfl (by rw [hs]; cases p <;> cases w.running <;> exact id)
  | evaluatesPaused p => exact hkeep _ rfl rfl (by rw [hs]; cases p <;> cases w.paused <;> exact id)
  | waits p =>
    dsimp only
    split
    · exact hkeep _ rfl rfl (by rw [hs]; exact id)
    · exact hkeep _ rfl rfl (by rw [hs]; exact id)
  | parked p => exact hkeep _ rfl rfl (by rw [hs]; exact id)
  | leaves p => exact hkeep _ rfl rfl (by rw [hs]; cases p <;> first | exact fun _ => rfl | nofun)
  | reads c => exact hkeep _ rfl rfl (by rw [hs]; cases c <;> cases w.running <;> first | exact fun _ => rfl | nofun)
  | readsPaused c => exact hkeep _ rfl rfl (by rw [hs]; cases c <;> cases w.paused <;> first | exact fun _ => rfl | nofun)
  | polls => exact hkeep _ rfl rfl (by dsimp only; split <;> exact fun _ => rfl)
  | triesAgain => exact hkeep _ rfl rfl (by dsimp only; split <;> exact fun _ => rfl)
  | clocks => exact hkeep _ rfl rfl (by dsimp only; split <;> exact fun _ => rfl)
  | records | applies => exact hkeep _ rfl rfl fun _ => rfl
  | tries =>
    dsimp only
    split
    · rename_i hgone
      exact .inl (h.gone hgone)
    · exact hkeep _ rfl rfl fun _ => rfl
  | stops =>
    refine .inl ?_
    show w.alive.filter (w.child ≠ some ·) = []
    rcases h with h | ⟨-, pid, hchild, halive⟩
    · rw [h]
      rfl
    · rw [hchild, halive]
      simp
  | spawns =>
    have halive := hnone (by rw [hs]; rfl)
    dsimp only
    split
    · exact .inr ⟨rfl, _, rfl, congrArg (w.spawned :: ·) halive⟩
    · exact .inl halive
  | unborn | setsIdle | looks | setsIdleUninstalled | sleeps | clearsIdle | probes | cleans | forgets | ends =>
    exact .inl (hnone (by rw [hs]; rfl))

/-- From where it may have declared itself idle it goes on declaring it, or clears it. -/
theorem supervise_idle (h : w.idle = true → w.spot.resting = true) : (w.supervise x).idle = true → (w.supervise x).spot.resting = true := by
  have hkeep : ∀ w' : World, w'.idle = w.idle → (w.spot.resting = true → w'.spot.resting = true) →
      w'.idle = true → w'.spot.resting = true := fun w' hidle hspot hw' => hspot (h (hidle ▸ hw'))
  have htake : ∀ s : Spot, (w.spot.resting = true → s.resting = true) →
      (w.take .supervisor s).idle = true → (w.take .supervisor s).spot.resting = true := by
    intro s hspot
    unfold World.take
    split
    · exact hkeep _ rfl hspot
    · exact h
  unfold World.supervise
  cases hs : w.spot with
  | locks p => exact htake _ (by rw [hs]; cases p <;> exact id)
  | woken p => exact htake _ (by rw [hs]; cases p <;> exact id)
  | evaluates p => exact hkeep _ rfl (by rw [hs]; cases p <;> cases w.running <;> exact id)
  | evaluatesPaused p => exact hkeep _ rfl (by rw [hs]; cases p <;> cases w.paused <;> exact id)
  | waits p =>
    dsimp only
    split
    · exact hkeep _ rfl (by rw [hs]; exact id)
    · exact hkeep _ rfl (by rw [hs]; exact id)
  | parked p => exact hkeep _ rfl (by rw [hs]; exact id)
  | leaves p => exact hkeep _ rfl (by rw [hs]; cases p <;> first | exact fun _ => rfl | nofun)
  | reads c => exact hkeep _ rfl (by rw [hs]; cases c <;> cases w.running <;> first | exact fun _ => rfl | nofun)
  | readsPaused c => exact hkeep _ rfl (by rw [hs]; cases c <;> cases w.paused <;> first | exact fun _ => rfl | nofun)
  | looks => exact hkeep _ rfl (by dsimp only; split <;> exact fun _ => rfl)
  | setsIdle | setsIdleUninstalled => exact fun _ => rfl
  | clearsIdle => exact nofun
  | sleeps => exact hkeep _ rfl fun _ => rfl
  | spawns =>
    dsimp only
    split
    · exact hkeep _ rfl (by rw [hs]; nofun)
    · exact hkeep _ rfl (by rw [hs]; nofun)
  | unborn => exact fun _ => by rw [hs]; rfl
  | probes | cleans | records | applies | tries | polls | triesAgain | clocks | stops | forgets | ends =>
    exact hkeep _ rfl (by rw [hs]; nofun)

/-- While it is paused it stays where it looks again before it spawns. -/
theorem supervise_safe (hpaused : w.paused = true) (h : w.spot.safe = true) : (w.supervise x).spot.safe = true := by
  have htake : ∀ s : Spot, s.safe = true → (w.take .supervisor s).spot.safe = true := by
    intro s hs
    unfold World.take
    split
    · exact hs
    · exact h
  unfold World.supervise
  cases hs : w.spot with
  | locks p =>
    rw [hs] at h
    exact htake _ (by cases p <;> exact h)
  | woken p =>
    rw [hs] at h
    exact htake _ (by cases p <;> exact h)
  | evaluates p =>
    rw [hs] at h
    cases p <;> cases w.running <;> exact h
  | evaluatesPaused p =>
    rw [hs] at h
    cases p <;> cases w.paused <;> exact h
  | waits p =>
    rw [hs] at h
    dsimp only
    split
    · exact h
    · exact h
  | parked p =>
    rw [hs] at h
    exact h
  | leaves p =>
    rw [hs] at h
    cases p <;> cases x.late <;> first | rfl | cases h
  | reads c =>
    rw [hs] at h
    cases c <;> cases w.running <;> first | rfl | cases h
  | readsPaused c =>
    rw [hs] at h
    dsimp only
    rw [hpaused]
    cases c <;> first | rfl | cases h
  | looks => dsimp only; split <;> rfl
  | probes => dsimp only; split <;> rfl
  | unborn => rw [hs] at h ⊢; exact h
  | setsIdle | setsIdleUninstalled | sleeps | clearsIdle | cleans => rfl
  | spawns | records | applies | tries | polls | triesAgain | clocks | stops | forgets | ends =>
    rw [hs] at h
    cases h

theorem Inv.supervise (h : Inv w) (x : Outside) : Inv (w.supervise x) := by
  obtain ⟨hcallers, -, hpaused, hclears, hstarted⟩ := supervise_keeps w x
  obtain ⟨hheld, hheldBy⟩ := supervise_lock (x := x) h.held
  refine ⟨hheld, ?_, ?_, ?_, ?_, supervise_children h.children, supervise_idle h.idle, ?_, ?_, ?_⟩
  · rw [hcallers]
    exact fun i => (hheldBy i).trans (h.heldBy i)
  · rw [hcallers]
    exact h.sound
  · rw [hcallers]
    exact h.seen
  · rw [hstarted]
    intro hunborn
    have hspot := h.unborn hunborn
    unfold World.supervise
    rw [hspot]
    exact hspot
  · rw [hcallers, hclears]
    exact h.past
  · rw [hcallers, hclears, hpaused]
    exact h.pausing
  · rw [hcallers, hclears]
    exact fun i hepoch hsaw => supervise_safe (h.pausing i hepoch) (h.quiet i hepoch hsaw)

/-! ## A caller -/

/-- What the invariant asks of one caller. -/
structure Fits (w : World) (c : Caller) : Prop where
  sound : Sound c.script = true
  seen : c.script.head? = some .seesNoChild → c.saw = true
  past : ∀ e, c.epoch = some e → e ≤ w.clears
  pausing : c.epoch = some w.clears → w.paused = true
  quiet : c.epoch = some w.clears → c.saw = true ∨ c.quiesced = true → w.spot.safe = true

theorem Inv.fits (h : Inv w) (j : Nat) : Fits w (w.callers j) := ⟨h.sound j, h.seen j, h.past j, h.pausing j, h.quiet j⟩

theorem Inv.fits_update (h : Inv w) {c : Caller} (hc : Fits w c) (i : Nat) : ∀ j, Fits w (Function.update w.callers i c j) :=
  (Function.forall_update_iff w.callers fun _ => Fits w).mpr ⟨hc, fun j _ => h.fits j⟩

/-- A statement neither takes the lock nor gives it back. -/
theorem Inv.setCaller (h : Inv w) {c : Caller} (hold : (w.callers i).script.head? ≠ some .notify) (hnew : c.script.head? ≠ some .notify)
    (hc : Fits w c) : Inv (w.setCaller i c) := by
  have hfits := h.fits_update hc i
  refine { h with
    heldBy := fun j => ?_
    sound := fun j => (hfits j).sound
    seen := fun j => (hfits j).seen
    past := fun j => (hfits j).past
    pausing := fun j => (hfits j).pausing
    quiet := fun j => (hfits j).quiet }
  show w.lock = some (.caller j) ↔ (Function.update w.callers i c j).script.head? = some .notify
  by_cases hj : j = i
  · rw [hj, Function.update_self, h.heldBy]
    exact iff_of_false hold hnew
  · rw [Function.update_of_ne hj]
    exact h.heldBy j

theorem ne_of_leads {o : Option Stmt} (h : leads o = true) : o ≠ some .notify ∧ o ≠ some .seesNoChild := by
  simpa [leads] using h

/-- It goes on with the rest of its script and has seen what it had. -/
theorem Inv.proceeds (h : Inv w) {rest : List Stmt} (hold : (w.callers i).script.head? ≠ some .notify) (hsound : Sound rest = true)
    (hleads : leads rest.head? = true) : Inv (w.setCaller i { w.callers i with script := rest }) := by
  have hnew := ne_of_leads hleads
  exact h.setCaller hold hnew.1 { h.fits i with sound := hsound, seen := fun hhead => absurd hhead hnew.2 }

theorem Inv.stores (h : Inv w) (b : Bool) : Inv { w with running := b } :=
  { h with }

theorem Inv.pauses (h : Inv w) : Inv { w with paused := true } :=
  { h with pausing := fun _ _ => rfl }

/-- No quiesce counts any more. -/
theorem Inv.clears (h : Inv w) : Inv { w with paused := false, clears := w.clears + 1 } := by
  have hno : ∀ j, (w.callers j).epoch ≠ some (w.clears + 1) := by
    intro j hepoch
    have hle := h.past j _ hepoch
    omega
  refine { h with past := ?_, pausing := ?_, quiet := ?_ }
  · intro j e hepoch
    have hle := h.past j e hepoch
    show e ≤ w.clears + 1
    omega
  · exact fun j hepoch => absurd hepoch (hno j)
  · exact fun j hepoch => absurd hepoch (hno j)

theorem Inv.born (h : Inv w) (hstarted : w.started = false) : Inv { w with started := true, spot := .reads .head } := by
  have hspot := h.unborn hstarted
  have halive : w.alive = [] := by
    rcases h.children with h | ⟨hwith, -⟩
    · exact h
    · rw [hspot] at hwith
      cases hwith
  have hheld := h.held
  rw [hspot] at hheld
  exact { h with held := hheld, unborn := nofun, children := .inl halive, idle := fun _ => rfl, quiet := fun _ _ _ => rfl }

theorem Inv.locks (h : Inv w) {rest : List Stmt} (hscript : (w.callers i).script = .lock :: rest) (hfree : w.lock = none) :
    Inv ({ w with lock := some (.caller i) }.setCaller i { w.callers i with script := rest }) := by
  have hsound := hscript ▸ h.sound i
  have hnext : rest.head? = some .notify := of_decide_eq_true (Sound.follows hsound)
  have hheld : w.spot.holds = false := by
    rw [Bool.eq_false_iff, ne_eq, ← h.held, hfree]
    exact nofun
  have hfits := h.fits_update (c := { w.callers i with script := rest })
    { h.fits i with sound := Sound.tail hsound, seen := fun hhead => by rw [hnext] at hhead; cases hhead } i
  refine { h with
    held := ?_
    heldBy := fun j => ?_
    sound := fun j => (hfits j).sound
    seen := fun j => (hfits j).seen
    past := fun j => (hfits j).past
    pausing := fun j => (hfits j).pausing
    quiet := fun j => (hfits j).quiet }
  · show some (Holder.caller i) = some .supervisor ↔ w.spot.holds = true
    rw [hheld]
    exact iff_of_false nofun nofun
  · show some (Holder.caller i) = some (.caller j) ↔ (Function.update w.callers i _ j).script.head? = some .notify
    by_cases hj : j = i
    · rw [hj, Function.update_self]
      exact iff_of_true rfl hnext
    · rw [Function.update_of_ne hj, ← h.heldBy, hfree]
      refine iff_of_false ?_ nofun
      intro heq
      injection heq with heq
      injection heq with heq
      exact hj heq.symm

/-- The supervisor after a notification. -/
def Spot.notified : Spot → Spot
  | parked p => woken p
  | s => s

theorem Spot.notified_holds (s : Spot) : s.notified.holds = s.holds := by cases s <;> rfl

theorem Spot.notified_withChild (s : Spot) : s.notified.withChild = s.withChild := by cases s <;> rfl

theorem Spot.notified_resting (s : Spot) : s.notified.resting = s.resting := by cases s <;> rfl

theorem Spot.notified_safe (s : Spot) : s.notified.safe = s.safe := by cases s <;> rfl

theorem Inv.notifies (h : Inv w) {rest : List Stmt} (hscript : (w.callers i).script = .notify :: rest) :
    Inv ({ w with lock := none, spot := w.spot.notified }.setCaller i { w.callers i with script := rest }) := by
  have hsound := hscript ▸ h.sound i
  have hnext := ne_of_leads (Sound.follows hsound)
  have hlock : w.lock = some (.caller i) := (h.heldBy i).mpr (by rw [hscript]; rfl)
  have hheld : w.spot.holds = false := by
    rw [Bool.eq_false_iff, ne_eq, ← h.held, hlock]
    exact nofun
  have hfits := h.fits_update (c := { w.callers i with script := rest })
    { h.fits i with sound := Sound.tail hsound, seen := fun hhead => absurd hhead hnext.2 } i
  refine {
    held := ?_
    heldBy := fun j => ?_
    sound := fun j => (hfits j).sound
    seen := fun j => (hfits j).seen
    unborn := fun hunborn => ?_
    children := h.children.imp_right fun ⟨hwith, hchild⟩ => ⟨w.spot.notified_withChild.trans hwith, hchild⟩
    idle := fun hidle => w.spot.notified_resting.trans (h.idle hidle)
    past := fun j => (hfits j).past
    pausing := fun j => (hfits j).pausing
    quiet := fun j hepoch hsaw => w.spot.notified_safe.trans ((hfits j).quiet hepoch hsaw) }
  · show none = some Holder.supervisor ↔ w.spot.notified.holds = true
    rw [w.spot.notified_holds, hheld]
    exact iff_of_false nofun nofun
  · show none = some (Holder.caller j) ↔ (Function.update w.callers i _ j).script.head? = some .notify
    by_cases hj : j = i
    · rw [hj, Function.update_self]
      exact iff_of_false nofun hnext.1
    · rw [Function.update_of_ne hj, ← h.heldBy, hlock]
      refine iff_of_false nofun ?_
      intro heq
      injection heq with heq
      injection heq with heq
      exact hj heq.symm
  · show w.spot.notified = .unborn
    rw [h.unborn hunborn]
    rfl

theorem Inv.move (h : Inv w) (i : Nat) : Inv (w.move i) := by
  unfold World.move
  dsimp only
  have hsound := h.sound i
  cases hscript : (w.callers i).script with
  | nil => exact h
  | cons s rest =>
    rw [hscript] at hsound
    have hold : s ≠ .notify → (w.callers i).script.head? ≠ some .notify := by
      rw [hscript]
      exact fun hs heq => hs (Option.some.inj heq)
    cases s with
    | running b => exact (h.stores b).proceeds (hold nofun) (Sound.tail hsound) (leads_of_wake (Sound.follows hsound))
    | paused b =>
      have hleads := leads_of_wake (Sound.follows hsound)
      cases b with
      | false => exact h.clears.proceeds (hold nofun) (Sound.tail hsound) hleads
      | true =>
        have hnew := ne_of_leads hleads
        refine h.pauses.setCaller (hold nofun) hnew.1 ⟨Sound.tail hsound, fun hhead => absurd hhead hnew.2, ?_, fun _ => rfl, ?_⟩
        · intro e he
          exact Nat.le_of_eq (Option.some.inj he).symm
        · intro _ hsaw
          rcases hsaw with hsaw | hsaw
          · cases hsaw
          · obtain ⟨hquiesced, hepoch⟩ := Bool.and_eq_true_iff.mp hsaw
            exact h.quiet i (of_decide_eq_true hepoch) (.inr hquiesced)
    | ensure =>
      have hleads := leads_of_wake (Sound.follows hsound)
      dsimp only
      by_cases hstarted : w.started = true
      · rw [if_pos hstarted]
        exact h.proceeds (hold nofun) (Sound.tail hsound) hleads
      · rw [if_neg hstarted]
        exact (h.born (Bool.eq_false_iff.mpr hstarted)).proceeds (hold nofun) (Sound.tail hsound) hleads
    | lock =>
      dsimp only
      split
      · rename_i hfree
        exact h.locks hscript hfree
      · exact h
    | notify => exact h.notifies hscript
    | signal => exact h.proceeds (hold nofun) (Sound.tail hsound) (leads_of_wake (Sound.follows hsound))
    | seesIdle =>
      have hnext : rest.head? = some .seesNoChild := of_decide_eq_true (Sound.follows hsound)
      dsimp only
      by_cases hidle : w.idle = true
      · rw [if_pos hidle]
        refine h.setCaller (hold nofun) ?_ ⟨Sound.tail hsound, fun _ => rfl, h.past i, h.pausing i, ?_⟩
        · rw [hnext]
          exact nofun
        · exact fun _ _ => Spot.safe_of_resting (h.idle hidle)
      · rw [if_neg hidle]
        cases rest with
        | nil => cases hnext
        | cons s rest =>
          obtain rfl : s = .seesNoChild := Option.some.inj hnext
          have hrest := Sound.tail hsound
          have hnew := ne_of_leads (Sound.follows hrest)
          refine h.setCaller (hold nofun) hnew.1 ⟨Sound.tail hrest, fun hhead => absurd hhead hnew.2, h.past i, h.pausing i, ?_⟩
          intro hepoch hsaw
          rcases hsaw with hsaw | hsaw
          · cases hsaw
          · exact h.quiet i hepoch (.inr hsaw)
    | seesNoChild =>
      have hsaw : (w.callers i).saw = true := h.seen i (by rw [hscript]; rfl)
      dsimp only
      by_cases hnone : w.childPid = none
      · rw [if_pos hnone]
        exact h.setCaller (hold nofun) nofun ⟨rfl, nofun, h.past i, h.pausing i, fun hepoch _ => h.quiet i hepoch (.inl hsaw)⟩
      · rw [if_neg hnone]
        have hnew := ne_of_leads (Sound.follows hsound)
        exact h.setCaller (hold nofun) hnew.1 ⟨Sound.tail hsound, fun hhead => absurd hhead hnew.2, h.past i, h.pausing i,
          fun hepoch _ => h.quiet i hepoch (.inl hsaw)⟩

theorem Inv.calls (h : Inv w) (i : Nat) (op : Op) : Inv (w.step (.calls i op)) := by
  show Inv (if (w.callers i).script = [] then w.setCaller i { w.callers i with script := op.script } else w)
  by_cases hnil : (w.callers i).script = []
  · rw [if_pos hnil]
    refine h.proceeds ?_ (script_sound op) (script_leads op)
    rw [hnil]
    exact nofun
  · rw [if_neg hnil]
    exact h

/-! ## A run -/

theorem Inv.dies (h : Inv w) (pid : Nat) : Inv (w.step (.dies pid)) := by
  refine { h with children := ?_ }
  show w.alive.filter (· ≠ pid) = [] ∨ _ ∧ ∃ child, _ ∧ w.alive.filter (· ≠ pid) = [child]
  rcases h.children with halive | ⟨hwith, child, hchild, halive⟩
  · rw [halive]
    exact .inl rfl
  · rw [halive]
    by_cases heq : child = pid
    · exact .inl (by simp [heq])
    · exact .inr ⟨hwith, child, hchild, by simp [heq]⟩

theorem Inv.step (h : Inv w) (e : Event) : Inv (w.step e) := by
  cases e with
  | calls i op => exact h.calls i op
  | moves i => exact h.move i
  | supervises x => exact h.supervise x
  | dies pid => exact h.dies pid

theorem Inv.start : Inv World.start :=
  ⟨iff_of_false nofun nofun, fun _ => iff_of_false nofun nofun, fun _ => rfl, nofun, fun _ => rfl, .inl rfl, fun _ => rfl, nofun, nofun, nofun⟩

theorem Inv.exec (es : List Event) : Inv (Machine.exec World.step World.start es) :=
  Machine.invariant (fun _ e h => h.step e) Inv.start

theorem Inv.alone (h : Inv w) : w.alive.length ≤ 1 := by
  rcases h.children with halive | ⟨-, pid, -, halive⟩
  · rw [halive]
    exact Nat.zero_le 1
  · rw [halive]
    exact Nat.le_refl 1

theorem move_spawned (w : World) (i : Nat) : (w.move i).spawned = w.spawned := by
  unfold World.move
  dsimp only
  split <;> first | rfl | (split <;> rfl)

theorem supervise_spawned (h : w.spot ≠ .spawns) : (w.supervise x).spawned = w.spawned := by
  unfold World.supervise World.take
  cases hs : w.spot with
  | spawns => exact absurd hs h
  | _ => first | rfl | (dsimp only; split <;> rfl)

theorem Inv.free (h : Inv w) (hq : w.Quiesced i) : w.Free := by
  have hsafe := h.quiet i hq.2 (.inr hq.1)
  refine ⟨?_, ?_⟩
  · rcases h.children with halive | ⟨hwith, -⟩
    · exact halive
    · rw [Spot.not_withChild_of_safe hsafe] at hwith
      cases hwith
  · intro e
    cases e with
    | calls j op =>
      show (if (w.callers j).script = [] then w.setCaller j { w.callers j with script := op.script } else w).spawned = w.spawned
      split <;> rfl
    | moves j => exact move_spawned w j
    | supervises x =>
      refine supervise_spawned ?_
      intro hspot
      rw [hspot] at hsafe
      cases hsafe
    | dies pid => rfl

/-! ## Wakes -/

/-- No notification comes between the supervisor's look at the flags and the lock with one of them changed since. -/
def Calm (w : World) : Event → Prop
  | .moves i => (w.callers i).script.head? = some .notify → w.spot.unguarded = true → w.spot.sees w.running w.paused = true
  | _ => True

/-- What it is about to wait for is not there yet, or its notification is on the way. -/
def World.Awake (w : World) : Prop := w.spot.sees w.running w.paused = true ∨ w.Owed

theorem Spot.notified_sees {s : Spot} {running paused : Bool} (hfree : s.holds = false)
    (h : s.unguarded = true → s.sees running paused = true) : s.notified.sees running paused = true := by
  cases s with
  | readsPaused c => cases c <;> first | rfl | exact h rfl
  | locks p => cases p <;> first | rfl | exact h rfl
  | evaluates p | evaluatesPaused p | waits p | leaves p => cases hfree
  | triesAgain | clocks => exact h rfl
  | _ => rfl

theorem World.Awake.supervise (h : w.Awake) (x : Outside) : (w.supervise x).Awake := by
  obtain ⟨hcallers, hrunning, hpaused, -, -⟩ := supervise_keeps w x
  rcases h with h | h
  · refine .inl ?_
    rw [hrunning, hpaused]
    have htake : ∀ s : Spot, s.sees w.running w.paused = true → (w.take .supervisor s).spot.sees w.running w.paused = true := by
      intro s hs
      unfold World.take
      split
      · exact hs
      · exact h
    unfold World.supervise
    cases hs : w.spot with
    | unborn => exact h
    | reads c =>
      dsimp only
      cases hr : w.running <;> cases c <;> rfl
    | readsPaused c =>
      rw [hs] at h
      dsimp only
      cases hp : w.paused <;> cases c <;> first | rfl | exact (Bool.and_true _).trans h
    | evaluates p =>
      dsimp only
      cases hr : w.running <;> cases p <;> rfl
    | evaluatesPaused p =>
      rw [hs] at h
      dsimp only
      cases hp : w.paused <;> cases hr : w.running <;> cases p <;> first | rfl | (rw [hr] at h; cases h)
    | waits p =>
      rw [hs] at h
      dsimp only
      split
      · rfl
      · exact h
    | locks p =>
      rw [hs] at h
      refine htake _ ?_
      cases p with
      | poll =>
        have h : (w.running && !w.paused) = true := h
        show (!(!w.running || w.paused)) = true
        rw [Bool.not_or, Bool.not_not]
        exact h
      | _ => rfl
    | woken p => exact htake _ (by cases p <;> rfl)
    | leaves p => cases p <;> cases x.late <;> rfl
    | triesAgain =>
      rw [hs] at h
      dsimp only
      split
      · rfl
      · exact h
    | clocks =>
      rw [hs] at h
      dsimp only
      split
      · rfl
      · exact h
    | looks | probes | tries | polls | spawns | ends =>
      dsimp only
      split <;> rfl
    | setsIdle | setsIdleUninstalled | sleeps | clearsIdle | cleans | records | applies | stops | forgets | parked =>
      rfl
  · obtain ⟨i, h⟩ := h
    exact .inr ⟨i, by rw [hcallers]; exact h⟩

/-- The others owe what they owed. -/
theorem World.Owed.setCaller (h : w.Owed) {c : Caller} (hi : owes (w.callers i).script = false) : (w.setCaller i c).Owed := by
  obtain ⟨j, hj⟩ := h
  refine ⟨j, ?_⟩
  show owes (Function.update w.callers i c j).script = true
  rw [Function.update_of_ne]
  · exact hj
  · intro heq
    rw [heq, hi] at hj
    cases hj

theorem World.owed_setCaller (w : World) {c : Caller} (h : owes c.script = true) : (w.setCaller i c).Owed :=
  ⟨i, by show owes (Function.update w.callers i c i).script = true; rw [Function.update_self]; exact h⟩

theorem World.Awake.setCaller (h : w.Awake) {c : Caller} (hi : owes (w.callers i).script = false) : (w.setCaller i c).Awake := by
  rcases h with h | h
  · exact .inl h
  · exact .inr (h.setCaller hi)

/-- A store is followed by its wake; a notification finds the supervisor without the lock. -/
theorem World.Awake.move (h : w.Awake) (hinv : Inv w) (hcalm : Calm w (.moves i)) : (w.move i).Awake := by
  unfold World.move
  dsimp only
  have hsound := hinv.sound i
  cases hscript : (w.callers i).script with
  | nil => exact h
  | cons s rest =>
    rw [hscript] at hsound
    cases s with
    | running b => exact .inr (World.owed_setCaller _ (owes_of_wake (Sound.follows hsound)))
    | paused b =>
      have howes := owes_of_wake (Sound.follows hsound)
      cases b with
      | false => exact .inr (World.owed_setCaller _ howes)
      | true => exact .inr (World.owed_setCaller _ howes)
    | ensure => exact .inr (World.owed_setCaller _ (owes_of_wake (Sound.follows hsound)))
    | signal => exact .inr (World.owed_setCaller _ (owes_of_wake (Sound.follows hsound)))
    | lock =>
      dsimp only
      split
      · refine .inr (World.owed_setCaller _ ?_)
        have hnext : rest.head? = some .notify := of_decide_eq_true (Sound.follows hsound)
        cases rest with
        | nil => cases hnext
        | cons t rest =>
          obtain rfl : t = .notify := Option.some.inj hnext
          rfl
      · exact h
    | notify =>
      have hlock : w.lock = some (.caller i) := (hinv.heldBy i).mpr (by rw [hscript]; rfl)
      have hfree : w.spot.holds = false := by
        rw [Bool.eq_false_iff, ne_eq, ← hinv.held, hlock]
        exact nofun
      exact .inl (Spot.notified_sees hfree (hcalm (by rw [hscript]; rfl)))
    | seesIdle => exact h.setCaller (by rw [hscript]; rfl)
    | seesNoChild => exact h.setCaller (by rw [hscript]; rfl)

theorem World.Awake.step (h : w.Awake) (hinv : Inv w) {e : Event} (hcalm : Calm w e) : (w.step e).Awake := by
  cases e with
  | calls i op =>
    show World.Awake (if (w.callers i).script = [] then w.setCaller i { w.callers i with script := op.script } else w)
    split
    · rename_i hnil
      exact h.setCaller (by rw [hnil]; rfl)
    · exact h
  | moves i => exact h.move hinv hcalm
  | supervises x => exact h.supervise x
  | dies pid => exact h

theorem World.Awake.not_lost (h : w.Awake) : ¬ w.Lost := by
  rintro ⟨p, hspot, hawaits, howed⟩
  rcases h with h | h
  · rw [hspot] at h
    have h : (!p.awaits w.running w.paused) = true := h
    rw [hawaits] at h
    cases h
  · exact howed h

theorem awake_exec {es : List Event} (hcalm : Machine.Along World.step Calm World.start es) :
    (Machine.exec World.step World.start es).Awake :=
  (Machine.invariant_along (I := fun w => Inv w ∧ w.Awake) (fun _ e h hcalm => ⟨h.1.step e, h.2.step h.1 hcalm⟩)
    ⟨Inv.start, .inl rfl⟩ hcalm).2

/-! ## The handshake -/

/-- After every run the binaries are free for whoever has quiesced the supervisor and not yet resumed it, and at most one
child lives; where every notification of the run was calm, no wake is lost. -/
theorem handshake_upheld (es : List Event) :
    (∀ i, (Machine.exec World.step World.start es).Quiesced i → (Machine.exec World.step World.start es).Free) ∧
      (Machine.exec World.step World.start es).alive.length ≤ 1 ∧
      (Machine.Along World.step Calm World.start es → ¬ (Machine.exec World.step World.start es).Lost) :=
  ⟨fun _ => (Inv.exec es).free, (Inv.exec es).alone, fun hcalm => (awake_exec hcalm).not_lost⟩

/-- An enable; the daemon runs, and its monitor has looked at the flags and is about to take the lock. -/
def looking : List Event :=
  .calls 0 .enable :: List.replicate 4 (.moves 0) ++ List.replicate 23 (.supervises {})

/-- A quiesce whose signal the child follows. -/
def swapping : List Event :=
  looking ++ [.supervises {}, .supervises {}, .calls 1 .quiesce] ++ List.replicate 6 (.moves 1) ++ [.dies 0] ++
    List.replicate 16 (.supervises {}) ++ List.replicate 2 (.moves 1)

instance (w : World) (e : Event) : Decidable (Calm w e) := by
  cases e <;> unfold Calm <;> infer_instance

theorem swapped : (Machine.exec World.step World.start swapping).Free ∧ ¬ (Machine.exec World.step World.start swapping).Lost :=
  ⟨(handshake_upheld swapping).1 1 ⟨by decide, by decide⟩, (handshake_upheld swapping).2.2 (by decide)⟩

/-- A disable stores and notifies there; then the monitor takes the lock and waits for the notification. -/
theorem wake_missed : (Machine.exec World.step World.start
    (looking ++ .calls 1 .disable :: List.replicate 6 (.moves 1) ++ List.replicate 2 (.supervises {}))).Lost := by
  refine ⟨.poll, rfl, rfl, ?_⟩
  rintro ⟨i, hi⟩
  match i with
  | 0 => cases hi
  | 1 => cases hi
  | _ + 2 => cases hi

end OpenU60.Tailscale.Handshake
