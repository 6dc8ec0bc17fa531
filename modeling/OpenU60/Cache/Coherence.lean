/-
  OpenU60.Cache.Coherence — what a read of the cache may give back.

  A fetch is dated by the generation read before it; what it brings is stored only if the
  generation is still that one, so a stored value is never older than the last invalidation.
  The generation is a wrapping 64-bit counter: a fetch overtaken by a whole number of turns of
  it is taken for one that was not overtaken.

  - `reads_coherent`: in every run one fetch is in flight at a time, the slot holds only
    values a fetch came back with, never nulls, and what is served from it is young enough. In every
    run in which no fetch is overtaken by whole turns of the generation, no call gives back a
    value whose fetch began before an invalidation that was over when the call began.
  - `stale_after_whole_turn`: the run in which one is.
-/

import OpenU60.Cache.Slot
import OpenU60.Lib.Counter
import OpenU60.Lib.Machine

namespace OpenU60.Cache

open OpenU60.Lib.Machine OpenU60.Lib.Counter

variable {V E : Type}

/-! ## The slot -/

namespace Slot

variable {α : Type} {s : Slot α}

theorem fresh_some {ttl now : Nat} {v : α} (h : s.fresh ttl now = some v) :
    ∃ t, s.value = some (t, v) ∧ now - t < s.effectiveTtl ttl now := by
  unfold fresh at h
  split at h
  · rename_i t u hv
    split at h
    · cases h
      exact ⟨t, hv, ‹_›⟩
    · cases h
  · cases h

theorem effectiveTtl_le (ttl now : Nat) : s.effectiveTtl ttl now ≤ ttl := by
  unfold effectiveTtl
  split
  · split <;> omega
  · exact Nat.le_refl _

/-- Inside the settle window the cap applies. -/
theorem effectiveTtl_settling (ttl : Nat) {now t : Nat} (hs : s.settleUntil = some t) (hlt : now < t) :
    s.effectiveTtl ttl now ≤ settleTtl := by
  unfold effectiveTtl
  rw [hs]
  simp only [if_pos hlt]
  omega

@[simp] theorem store_generation (g : UInt64) (t : Nat) (v : α) : (s.store g t v).generation = s.generation := by
  unfold store; split <;> rfl

theorem store_value {g : UInt64} {t t' : Nat} {v v' : α} (h : (s.store g t v).value = some (t', v')) :
    s.generation = g ∧ t' = t ∧ v' = v ∨ s.value = some (t', v') := by
  unfold store at h
  split at h
  · cases h
    exact .inl ⟨‹_›, rfl, rfl⟩
  · exact .inr h

end Slot

/-! ## The calls -/

namespace Call

/-- It holds the gate. -/
def holds : Call V E → Bool
  | .gated _ => true
  | .relooking _ _ => true
  | .calling _ _ _ => true
  | .fetching _ _ _ _ _ => true
  | .storing _ _ _ _ => true
  | _ => false

def inFlight : Call V E → Bool
  | .fetching _ _ _ _ _ => true
  | _ => false

/-- What it has given back. -/
def yields : Call V E → Option (Sample V)
  | .done (.served s) => some s
  | .done (.fetched s) => some s
  | _ => none

/-- The longest age the caller takes and the clock reading the next statement compares with. -/
def compares (now : Nat) : Call V E → Option (Nat × Nat)
  | .looking ttl => some (ttl, now)
  | .relooking ttl started => some (ttl, started)
  | _ => none

/-- The readings it carries are in order. -/
def Fits (isNull : V → Bool) (now invalidations : Nat) : Call V E → Prop
  | .relooking _ started => started ≤ now
  | .calling started g seen => started ≤ now ∧ g = UInt64.ofNat seen ∧ seen ≤ invalidations
  | .fetching started g seen since begun =>
    started ≤ since ∧ g = UInt64.ofNat seen ∧ seen ≤ begun ∧ begun ≤ invalidations
  | .storing started g seen s =>
    started ≤ s.since ∧ g = UInt64.ofNat seen ∧ seen ≤ s.begun ∧ s.begun ≤ invalidations ∧ isNull s.value = false
  | _ => True

/-- No fetch it has dated or brought began before invalidation `b`. -/
def After (b : Nat) : Call V E → Prop
  | .calling _ _ seen => b ≤ seen
  | .fetching _ _ _ _ begun => b ≤ begun
  | .storing _ _ _ s => b ≤ s.begun
  | .done (.served s) => b ≤ s.begun
  | .done (.fetched s) => b ≤ s.begun
  | _ => True

theorem Fits.mono {isNull : V → Bool} {now now' n n' : Nat} {c : Call V E} (h : c.Fits isNull now n) (hnow : now ≤ now')
    (hn : n ≤ n') : c.Fits isNull now' n' := by
  cases c with
  | relooking ttl started => exact Nat.le_trans h hnow
  | calling started g seen => exact ⟨Nat.le_trans h.1 hnow, h.2.1, Nat.le_trans h.2.2 hn⟩
  | fetching started g seen since begun => exact ⟨h.1, h.2.1, h.2.2.1, Nat.le_trans h.2.2.2 hn⟩
  | storing started g seen s => exact ⟨h.1, h.2.1, h.2.2.1, Nat.le_trans h.2.2.2.1 hn, h.2.2.2.2⟩
  | _ => trivial

end Call

/-! ## The invariant -/

namespace World

variable (isNull : V → Bool)

/-- What a step serves from the slot is younger than the caller takes, and than the cap
    inside the settle window, at the clock reading it compares with. -/
def ServesYoung (w : World V E) (e : Event V E) : Prop :=
  ∀ i s, (w.step isNull e).calls i = .done (.served s) → w.calls i = .done (.served s) ∨
    ∃ ttl now, (w.calls i).compares w.now = some (ttl, now) ∧ now ≤ w.now ∧ now < s.since + ttl ∧
      ∀ t, w.slot.settleUntil = some t → now < t → now < s.since + settleTtl

def OneInFlight (w : World V E) : Prop := ∀ i j, (w.calls i).inFlight = true → (w.calls j).inFlight = true → i = j

/-- What is stored a fetch has come back with, and it is no null. -/
def StoresResults (w : World V E) : Prop :=
  ∀ t s, w.slot.value = some (t, s) → isNull s.value = false ∧ ∃ i, w.calls i = .done (.fetched s)

/-- The result that is stored has not been overtaken by whole turns of the generation. -/
def Unlapped (w : World V E) : Event V E → Prop
  | .run i _ =>
    match w.calls i with
    | .storing _ _ seen _ => ¬ Lapped seen w.invalidations
    | _ => True
  | _ => True

instance (w : World V E) : ∀ e, Decidable (w.Unlapped e)
  | .run i x =>
    match h : w.calls i with
    | .storing _ _ seen _ => decidable_of_iff (¬ Lapped seen w.invalidations) (by simp only [Unlapped, h])
    | .idle | .looking _ | .waiting _ | .gated _ | .relooking _ _ | .calling _ _ _ | .fetching _ _ _ _ _ | .done _ =>
      .isTrue (by simp only [Unlapped, h])
  | .call _ _ | .invalidate _ | .pass _ => .isTrue trivial

structure Inv (w : World V E) : Prop where
  generation : w.slot.generation = UInt64.ofNat w.invalidations
  gate : ∀ i, (w.calls i).holds = true ↔ w.inflight = some i
  fits : ∀ i, (w.calls i).Fits isNull w.now w.invalidations
  stored : StoresResults isNull w
  dated : ∀ t s, w.slot.value = some (t, s) → t ≤ s.since

/-- The stored value is of after the last invalidation. -/
def Current (w : World V E) : Prop := ∀ t s, w.slot.value = some (t, s) → s.begun = w.invalidations

@[simp] theorem moved_self (w : World V E) (i : Nat) (c : Call V E) : (w.moved i c).calls i = c := by simp [moved]

theorem moved_other (w : World V E) {i j : Nat} (c : Call V E) (h : j ≠ i) : (w.moved i c).calls j = w.calls j := by
  simp [moved, h]

@[simp] theorem moved_slot (w : World V E) (i : Nat) (c : Call V E) : (w.moved i c).slot = w.slot := rfl
@[simp] theorem moved_inflight (w : World V E) (i : Nat) (c : Call V E) : (w.moved i c).inflight = w.inflight := rfl
@[simp] theorem moved_now (w : World V E) (i : Nat) (c : Call V E) : (w.moved i c).now = w.now := rfl
@[simp] theorem moved_invalidations (w : World V E) (i : Nat) (c : Call V E) :
    (w.moved i c).invalidations = w.invalidations := rfl

variable {isNull : V → Bool} {w : World V E} {i : Nat}

theorem Inv.init : Inv isNull ({} : World V E) := ⟨rfl, fun _ => ⟨nofun, nofun⟩, fun _ => trivial, nofun, nofun⟩

/-- What one call's statement leaves of the others: it moves from no result given back, may
    take or drop the gate for itself and may store what it gives back. -/
theorem Inv.moved (h : w.Inv isNull) {c : Call V E} (s' : Slot (Sample V)) (g : Option Nat)
    (hopen : ∀ s, w.calls i ≠ .done (.fetched s)) (hgen : s'.generation = w.slot.generation)
    (hgate : c.holds = true ↔ g = some i) (hothers : ∀ j, j ≠ i → (g = some j ↔ w.inflight = some j))
    (hfits : c.Fits isNull w.now w.invalidations)
    (hvalue : ∀ t s, s'.value = some (t, s) →
      w.slot.value = some (t, s) ∨ t ≤ s.since ∧ isNull s.value = false ∧ c = .done (.fetched s)) :
    Inv isNull { w.moved i c with slot := s', inflight := g } := by
  refine ⟨hgen.trans h.generation, fun j => ?_, fun j => ?_, fun t s hs => ?_, fun t s hs => ?_⟩
  · show ((w.moved i c).calls j).holds = true ↔ g = some j
    by_cases hj : j = i
    · subst hj
      rw [moved_self]
      exact hgate
    · rw [moved_other _ _ hj, hothers j hj]
      exact h.gate j
  · show ((w.moved i c).calls j).Fits isNull w.now w.invalidations
    by_cases hj : j = i
    · subst hj
      rw [moved_self]
      exact hfits
    · rw [moved_other _ _ hj]
      exact h.fits j
  · show isNull s.value = false ∧ ∃ j, (w.moved i c).calls j = .done (.fetched s)
    rcases hvalue t s hs with hs | ⟨-, hnull, rfl⟩
    · obtain ⟨hnull, j, hj⟩ := h.stored t s hs
      have hne : j ≠ i := fun e => hopen s (e ▸ hj)
      exact ⟨hnull, j, (moved_other _ _ hne).trans hj⟩
    · exact ⟨hnull, i, moved_self _ _ _⟩
  · rcases hvalue t s hs with hs | ⟨ht, -, -⟩
    · exact h.dated t s hs
    · exact ht

/-- The same for a statement that leaves the gate alone. -/
theorem Inv.kept (h : w.Inv isNull) {c : Call V E} (hopen : ∀ s, w.calls i ≠ .done (.fetched s))
    (hgate : c.holds = (w.calls i).holds) (hfits : c.Fits isNull w.now w.invalidations) : Inv isNull (w.moved i c) := by
  refine h.moved w.slot w.inflight hopen rfl ?_ (fun j _ => Iff.rfl) hfits fun t s hs => .inl hs
  rw [hgate]
  exact h.gate i

/-- The same for one that leaves `get_or_fetch` with the gate. -/
theorem Inv.left (h : w.Inv isNull) {r : Reply V E} (hholds : (w.calls i).holds = true) : Inv isNull (w.leave i r) := by
  have hg : w.inflight = some i := (h.gate i).mp hholds
  refine h.moved w.slot none (fun s hs => ?_) rfl ⟨nofun, nofun⟩ (fun j hj => ?_) trivial fun t s hs => .inl hs
  · rw [hs] at hholds
    cases hholds
  · rw [hg]
    exact ⟨nofun, fun e => absurd (Option.some.inj e).symm hj⟩

theorem Inv.run (h : w.Inv isNull) (i : Nat) (x : Outcome V E) : Inv isNull (w.run isNull i x) := by
  have hfits := h.fits i
  unfold World.run
  cases hc : w.calls i with
  | idle => exact h
  | done r => exact h
  | looking ttl =>
    dsimp only
    split <;> exact h.kept (by rw [hc]; nofun) (by rw [hc]; rfl) trivial
  | waiting ttl =>
    dsimp only
    split
    · exact h
    · rename_i hg
      refine h.moved w.slot (some i) (by rw [hc]; nofun) rfl ⟨fun _ => rfl, fun _ => rfl⟩ (fun j hj => ?_) trivial
        fun t s hs => .inl hs
      rw [hg]
      exact ⟨fun e => absurd (Option.some.inj e).symm hj, nofun⟩
  | gated ttl => exact h.kept (by rw [hc]; nofun) (by rw [hc]; rfl) (Nat.le_refl _)
  | relooking ttl started =>
    rw [hc] at hfits
    dsimp only
    split
    · exact h.left (by rw [hc]; rfl)
    · exact h.kept (by rw [hc]; nofun) (by rw [hc]; rfl) ⟨hfits, h.generation, Nat.le_refl _⟩
  | calling started g seen =>
    rw [hc] at hfits
    exact h.kept (by rw [hc]; nofun) (by rw [hc]; rfl) ⟨hfits.1, hfits.2.1, hfits.2.2, Nat.le_refl _⟩
  | fetching started g seen since begun =>
    rw [hc] at hfits
    cases x with
    | panic => exact h.left (by rw [hc]; rfl)
    | err e => exact h.left (by rw [hc]; rfl)
    | ok v =>
      dsimp only
      split
      · exact h.left (by rw [hc]; rfl)
      · rename_i hnull
        exact h.kept (by rw [hc]; nofun) (by rw [hc]; rfl)
          ⟨hfits.1, hfits.2.1, hfits.2.2.1, hfits.2.2.2, Bool.eq_false_iff.mpr hnull⟩
  | storing started g seen s =>
    rw [hc] at hfits
    have hg : w.inflight = some i := (h.gate i).mp (by rw [hc]; rfl)
    refine h.moved _ none (by rw [hc]; nofun) (Slot.store_generation ..) ⟨nofun, nofun⟩ (fun j hj => ?_) trivial
      fun t u hu => ?_
    · rw [hg]
      exact ⟨nofun, fun e => absurd (Option.some.inj e).symm hj⟩
    · rcases Slot.store_value hu with ⟨-, rfl, rfl⟩ | hu
      · exact .inr ⟨hfits.1, hfits.2.2.2.2, rfl⟩
      · exact .inl hu

theorem Inv.step (h : w.Inv isNull) (e : Event V E) : Inv isNull (w.step isNull e) := by
  cases e with
  | call i ttl =>
    dsimp only [World.step]
    cases hc : w.calls i with
    | idle => exact h.kept (by rw [hc]; nofun) (by rw [hc]; rfl) trivial
    | _ => exact h
  | run i x => exact h.run i x
  | invalidate settle =>
    refine ⟨?_, h.gate, fun i => (h.fits i).mono (Nat.le_refl _) (Nat.le_succ _), nofun, nofun⟩
    show w.slot.generation + 1 = UInt64.ofNat (w.invalidations + 1)
    rw [ofNat_succ, h.generation]
  | pass d => exact ⟨h.generation, h.gate, fun i => (h.fits i).mono (Nat.le_add_right _ _) (Nat.le_refl _), h.stored, h.dated⟩

/-! ## One fetch, and the age of what is served -/

theorem holds_of_inFlight {c : Call V E} (h : c.inFlight = true) : c.holds = true := by
  cases c with
  | fetching => rfl
  | _ => cases h

theorem Inv.oneInFlight (h : w.Inv isNull) : w.OneInFlight := by
  intro i j hi hj
  have hi' := (h.gate i).mp (holds_of_inFlight hi)
  have hj' := (h.gate j).mp (holds_of_inFlight hj)
  rw [hi'] at hj'
  exact Option.some.inj hj'

/-- A value the slot has fresh at a clock reading is young at it. -/
theorem Inv.young (h : w.Inv isNull) {ttl now : Nat} {s : Sample V} (hs : w.slot.fresh ttl now = some s) :
    now < s.since + ttl ∧ ∀ t, w.slot.settleUntil = some t → now < t → now < s.since + settleTtl := by
  obtain ⟨t, hv, hlt⟩ := Slot.fresh_some hs
  have ht := h.dated t s hv
  refine ⟨?_, fun u hu hnow => ?_⟩
  · have := Slot.effectiveTtl_le (s := w.slot) ttl now
    omega
  · have := Slot.effectiveTtl_settling ttl hu hnow
    omega

theorem run_other {i j : Nat} (h : j ≠ i) (x : Outcome V E) : (w.run isNull i x).calls j = w.calls j := by
  simp only [World.run, leave]
  (repeat' split) <;> first | rfl | exact moved_other _ _ h

theorem Inv.servesYoung (h : w.Inv isNull) (e : Event V E) : w.ServesYoung isNull e := by
  intro i s hs
  cases e with
  | call j ttl =>
    dsimp only [World.step] at hs
    split at hs
    · by_cases hij : i = j
      · subst hij
        rw [moved_self] at hs
        cases hs
      · rw [moved_other _ _ hij] at hs
        exact .inl hs
    · exact .inl hs
  | invalidate settle => exact .inl hs
  | pass d => exact .inl hs
  | run j x =>
    by_cases hij : i = j
    · subst hij
      have hfits := h.fits i
      simp only [World.step, World.run] at hs
      cases hc : w.calls i with
      | looking ttl =>
        simp only [hc] at hs
        split at hs
        · rename_i u hu
          rw [moved_self] at hs
          cases hs
          exact .inr ⟨ttl, w.now, rfl, Nat.le_refl _, h.young hu⟩
        · rw [moved_self] at hs
          cases hs
      | relooking ttl started =>
        rw [hc] at hfits
        simp only [hc] at hs
        split at hs
        · rename_i u hu
          simp only [leave, moved_self] at hs
          cases hs
          exact .inr ⟨ttl, started, rfl, hfits, h.young hu⟩
        · rw [moved_self] at hs
          cases hs
      | done r =>
        simp only [hc] at hs
        exact .inl hs
      | _ =>
        simp only [hc, leave] at hs
        (repeat' split at hs) <;> simp_all
    · refine .inl ?_
      rw [← run_other hij x]
      exact hs

/-! ## What a call gives back is of after it began -/

theorem Inv.current (h : w.Inv isNull) (hcur : w.Current) {e : Event V E} (hlap : w.Unlapped e) : (w.step isNull e).Current := by
  intro t s hs
  cases e with
  | call i ttl =>
    dsimp only [World.step] at hs ⊢
    split at hs <;> exact hcur t s hs
  | invalidate settle => cases hs
  | pass d => exact hcur t s hs
  | run i x =>
    have hfits := h.fits i
    cases hc : w.calls i with
    | storing started g seen u =>
      rw [hc] at hfits
      obtain ⟨-, rfl, hseen, hbegun, -⟩ := hfits
      simp only [World.Unlapped, hc] at hlap
      simp only [World.step, World.run, hc] at hs ⊢
      show s.begun = w.invalidations
      rcases Slot.store_value hs with ⟨hg, rfl, rfl⟩ | hs
      · have : seen = w.invalidations := eq_of_ofNat_eq (Nat.le_trans hseen hbegun) hlap (hg.symm.trans h.generation)
        omega
      · exact hcur t s hs
    | _ =>
      have hsame : (w.step isNull (.run i x)).slot = w.slot ∧ (w.step isNull (.run i x)).invalidations = w.invalidations := by
        constructor <;> simp only [World.step, World.run, hc] <;> (repeat' split) <;> rfl
      rw [hsame.1] at hs
      rw [hsame.2]
      exact hcur t s hs

theorem fresh_current (hcur : w.Current) {ttl now : Nat} {s : Sample V} (hs : w.slot.fresh ttl now = some s) :
    s.begun = w.invalidations := by
  obtain ⟨t, hv, -⟩ := Slot.fresh_some hs
  exact hcur t s hv

/-- From a current slot a call takes nothing of before invalidation `b`, if it had none. -/
theorem after_run (hcur : w.Current) {b : Nat} (hb : b ≤ w.invalidations) (ha : (w.calls i).After b) (x : Outcome V E) :
    ((w.run isNull i x).calls i).After b := by
  unfold World.run
  cases hc : w.calls i with
  | looking ttl =>
    dsimp only
    split
    · rename_i s hs
      rw [moved_self]
      show b ≤ s.begun
      rw [fresh_current hcur hs]
      exact hb
    · rw [moved_self]
      trivial
  | relooking ttl started =>
    dsimp only
    split
    · rename_i s hs
      simp only [leave, moved_self]
      show b ≤ s.begun
      rw [fresh_current hcur hs]
      exact hb
    · rw [moved_self]
      exact hb
  | calling started g seen =>
    dsimp only
    rw [moved_self]
    exact hb
  | fetching started g seen since begun =>
    rw [hc] at ha
    cases x with
    | ok v =>
      dsimp only
      split
      · simp only [leave, moved_self]
        exact ha
      · rw [moved_self]
        exact ha
    | _ =>
      simp only [leave, moved_self]
      trivial
  | storing started g seen s =>
    rw [hc] at ha
    simp only [leave, moved_self]
    exact ha
  | waiting ttl =>
    dsimp only
    split
    · rw [hc]
      trivial
    · simp only [moved_self]
      trivial
  | gated ttl =>
    rw [moved_self]
    trivial
  | _ =>
    rw [hc] at ha ⊢
    exact ha

/-- Call `i` is to give back nothing of before invalidation `b`. -/
structure Follows (isNull : V → Bool) (i b : Nat) (w : World V E) : Prop where
  inv : Inv isNull w
  current : Current w
  begun : b ≤ w.invalidations
  after : (w.calls i).After b

theorem Follows.step {b : Nat} (h : Follows isNull i b w) {e : Event V E} (hlap : w.Unlapped e) :
    Follows isNull i b (w.step isNull e) := by
  refine ⟨h.inv.step e, h.inv.current h.current hlap, ?_, ?_⟩
  · have hb := h.begun
    cases e with
    | invalidate settle => exact Nat.le_succ_of_le hb
    | pass d => exact hb
    | call j ttl =>
      dsimp only [World.step]
      split <;> exact hb
    | run j x =>
      have hsame : (w.step isNull (.run j x)).invalidations = w.invalidations := by
        simp only [World.step, World.run]
        (repeat' split) <;> rfl
      rw [hsame]
      exact hb
  · have ha := h.after
    cases e with
    | invalidate settle => exact ha
    | pass d => exact ha
    | call j ttl =>
      dsimp only [World.step]
      split
      · by_cases hij : i = j
        · subst hij
          rw [moved_self]
          trivial
        · rw [moved_other _ _ hij]
          exact ha
      · exact ha
    | run j x =>
      by_cases hij : i = j
      · subst hij
        exact after_run h.current h.begun ha x
      · show ((w.run isNull j x).calls i).After b
        rw [run_other hij]
        exact ha

theorem after_yields {b : Nat} {c : Call V E} {s : Sample V} (ha : c.After b) (hs : c.yields = some s) : b ≤ s.begun := by
  unfold Call.yields at hs
  split at hs <;> cases hs <;> exact ha

theorem reachable (es : List (Event V E)) : Inv isNull (exec (World.step isNull) {} es) :=
  invariant (I := Inv isNull) (fun _ e h => h.step e) Inv.init

theorem reachable_current {es : List (Event V E)} (h : Along (World.step isNull) Unlapped {} es) :
    Current (exec (World.step isNull) {} es) := by
  refine (invariant_along (I := fun w => Inv isNull w ∧ Current w) (fun w e hw hl => ?_) ⟨Inv.init, nofun⟩ h).2
  exact ⟨hw.1.step e, hw.1.current hw.2 hl⟩

end World

open World

/-- At the end of every run one fetch at most is in flight and the slot holds only non-null
    values that a call has fetched, and each step serves only what is young; if no fetch is
    overtaken by whole turns of the generation, a call that begins where the run has got to
    gives back nothing whose fetch began before the last invalidation. -/
theorem reads_coherent (isNull : V → Bool) (es : List (Event V E)) :
    OneInFlight (exec (step isNull) {} es) ∧ StoresResults isNull (exec (step isNull) {} es) ∧
      Along (step isNull) (ServesYoung isNull) {} es ∧
      ∀ i ttl fs s, (exec (step isNull) {} es).calls i = .idle →
        Along (step isNull) Unlapped {} (es ++ .call i ttl :: fs) →
        ((exec (step isNull) {} (es ++ .call i ttl :: fs)).calls i).yields = some s →
        (exec (step isNull) {} es).invalidations ≤ s.begun := by
  have hinv : World.Inv isNull (exec (step isNull) {} es) := reachable es
  refine ⟨hinv.oneInFlight, hinv.stored, ?_, ?_⟩
  · exact along_invariant (I := World.Inv isNull) (fun _ e h => h.step e) (fun _ e h => h.servesYoung e) Inv.init
  · intro i ttl fs s hidle hrun hs
    obtain ⟨hes, hrest⟩ := along_append.mp hrun
    have hbegin : Follows isNull i (exec (step isNull) {} es).invalidations (exec (step isNull) {} es) := by
      refine ⟨hinv, reachable_current hes, Nat.le_refl _, ?_⟩
      rw [hidle]
      trivial
    rw [exec_append] at hs
    have hend := invariant_along (I := Follows isNull i _) (fun _ _ h hl => h.step hl) hbegin hrest
    exact after_yields hend.after hs

section

/-- A read that fetches `v`, from its first look to the statement that stores it. -/
def fetches (i ttl v : Nat) : List (Event Nat Unit) :=
  [.call i ttl, .run i (.ok v), .run i (.ok v), .run i (.ok v), .run i (.ok v), .run i (.ok v), .run i (.ok v)]

/-- An invalidation overtakes the first read; the next one fetches again. -/
theorem overtaken_read_refetched :
    let es := fetches 0 30 7 ++ [.invalidate none, .run 0 (.ok 7)]
    let fs := (fetches 1 30 8).tail ++ [.run 1 (.ok 8)]
    (exec (step (· == 0)) {} (es ++ .call 1 30 :: fs)).calls 0 = .done (.fetched ⟨7, 0, 0⟩) ∧
      (exec (step (· == 0)) {} es).invalidations ≤ (⟨8, 0, 1⟩ : Sample Nat).begun :=
  ⟨rfl, (reads_coherent (· == 0) (fetches 0 30 7 ++ [.invalidate none, .run 0 (.ok 7)])).2.2.2 1 30
    ((fetches 1 30 8).tail ++ [.run 1 (.ok 8)]) ⟨8, 0, 1⟩ rfl (by decide +kernel) rfl⟩

theorem exec_invalidations (isNull : V → Bool) (n : Nat) {w : World V E} (hv : w.slot.value = none) :
    exec (step isNull) w (List.replicate n (.invalidate none)) =
      { w with slot := { w.slot with generation := w.slot.generation + UInt64.ofNat n },
               invalidations := w.invalidations + n } := by
  induction n generalizing w with
  | zero =>
    show w = { w with slot := { w.slot with generation := w.slot.generation + 0 }, invalidations := w.invalidations }
    rw [UInt64.add_zero]
  | succ n ih =>
    have hgen : w.slot.generation + 1 + UInt64.ofNat n = w.slot.generation + UInt64.ofNat (n + 1) := by
      rw [ofNat_succ, UInt64.add_assoc, UInt64.add_comm 1]
    have hn : w.invalidations + 1 + n = w.invalidations + (n + 1) := by omega
    rw [List.replicate_succ, exec_cons, ih (w := w.step isNull (.invalidate none)) rfl]
    simp only [step, Slot.invalidate, hgen, hn, hv]

/-- A whole turn of the generation overtakes a fetch: the next read is served what it brought. -/
theorem stale_after_whole_turn :
    let es := fetches 0 30 7 ++ List.replicate (2 ^ 64) (.invalidate none)
    let w : World Nat Unit := exec (step (· == 0)) {} (es ++ [.run 0 (.ok 7), .call 1 30, .run 1 (.ok 8)])
    (exec (step (· == 0)) {} es).invalidations = 2 ^ 64 ∧ w.calls 1 = .done (.served ⟨7, 0, 0⟩) := by
  intro es
  have hes : exec (step (· == 0)) {} es = { exec (step (· == 0)) {} (fetches 0 30 7) with invalidations := 2 ^ 64 } := by
    rw [exec_append, exec_invalidations (· == 0) (2 ^ 64) rfl]
    rfl
  refine ⟨?_, ?_⟩
  · rw [hes]
  · rw [exec_append, hes]
    rfl

end

end OpenU60.Cache
