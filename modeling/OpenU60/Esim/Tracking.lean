/-
  OpenU60.Esim.Tracking — which switch is on record, and who ends the reload.

  The card is let go before the inventory and the switch record are written, each under its
  own lock; a superseded worker returns without lowering `reloading`, and a retry looks at
  the generation only after the card has carried out its command. `Orderly` leaves out the
  steps where one of these goes wrong.

  - `switches_tracked`: where every step is orderly, the recorded switch is that of the
    enable the card carried out last, a switch the card has made is not reported as not
    applied, and `reloading` is up only while some worker will lower it.
  - `made_switch_not_applied_and_reads_blocked`: two requests that both pass the checks
    before either reaches the card break each of these.
-/

import OpenU60.Esim.Switch
import OpenU60.Lib.Machine

namespace OpenU60.Esim.Switching

open OpenU60.Lib.Machine

namespace Actor

/-- The target of a switch the card has carried out and that is still to be recorded. -/
def owed : Actor → Option String
  | .enabling t (.ran _ _) => some t
  | .enabling t (.listed _ _ _) => some t
  | .deferring t (.refused _ _) => some t
  | .deferring t (.listed _ _ _) => some t
  | _ => none

/-- The generation of a switch still to be recorded. -/
def coming : Actor → Option Nat
  | .enabling _ (.listed _ g _) => some g
  | .deferring _ (.listed _ g _) => some g
  | _ => none

/-- The switch the actor has recorded, as long as it follows it. -/
def followed : Actor → Option (String × Nat)
  | .enabling t (.recorded g) => some (t, g)
  | .deferring t (.recorded g) => some (t, g)
  | .deferring t (.unspawned g) => some (t, g)
  | .retrying t g _ => some (t, g)
  | .verifying t g _ => some (t, g)
  | _ => none

/-- It lowers `reloading` whatever the record says by then. -/
def settles : Actor → Bool
  | .enabling _ (.listed _ _ _) => true
  | .enabling _ .unspawned => true
  | .verifying _ _ (.listed _) => true
  | .verifying _ _ (.unreadable _) => true
  | _ => false

/-- It lowers `reloading` if its switch stays on record, as generation `current`. -/
def lowers (current : Nat) : Actor → Bool
  | .enabling _ (.recorded g) => g = current
  | .retrying _ g (.flagged _) => g = current
  | .verifying _ g (.checking _) => g = current
  | .verifying _ g (.waiting _) => g = current
  | .verifying _ g .holding => g = current
  | a => a.settles

end Actor

namespace World

/-- The recorded switch is that of the enable the card carried out last, or that enable is
    still to record it. -/
def Tracked (w : World) : Prop :=
  ∀ c, w.last = some c →
    (w.actors c.actor).owed = some c.target ∨ w.owner = some c.actor ∧ w.switch.target = c.target

/-- A switch the card has made is not reported as not applied. -/
def Truthful (w : World) : Prop :=
  ∀ c, w.last = some c → c.ok = true → w.switch.state = .notApplied → (w.actors c.actor).owed ≠ none

/-- The actor lowers `reloading` on its own, whatever it finds, at the latest four steps
    after its time is over. -/
def WillLower (w : World) (i : Nat) : Prop :=
  ∀ xs ys : List Outside, ys.length = 4 → (∀ y ∈ ys, y.late = true) →
    ∃ zs, zs <+: xs ++ ys ∧ (exec step w (zs.map (Event.run i))).inventory.reloading = false

def Unblocked (w : World) : Prop := w.inventory.reloading = true → ∃ i, w.WillLower i

/-- The switch the card carried out last is still to be recorded. -/
def Unrecorded (w : World) : Prop := ∀ c ∈ w.last, (w.actors c.actor).owed ≠ none

/-- A switch is recorded before any the card has carried out since; a refusal that passes is
    recorded while nothing reloads, or what does is past its last look at the record; a retry
    reaches the card, and starts a reload, only while its switch is on record; and so does
    the failure to start one. -/
def Orderly (w : World) : Event → Prop
  | .run i x =>
    match w.actors i with
    | .enabling _ (.listed _ _ _) => w.Unrecorded
    | .deferring _ (.listed _ _ _) =>
      w.Unrecorded ∧ (w.inventory.reloading = false ∨ ∃ k, (w.actors k).settles = true)
    | .deferring _ (.unspawned g) => w.switch.generation = g
    | .retrying t g (.holding _) => w.switch.generation = g ∨ ∃ m, w.answered t x = .notStarted m
    | .retrying _ g (.accepted _) =>
      w.switch.generation = g ∨ ∃ k, (w.actors k).lowers w.switch.generation = true
    | _ => True
  | _ => True

end World

/-! ## The card obeys -/

theorem enabledIccid_switched {card : List Profile} {t : String} (h : card.any (·.iccid == t) = true) :
    enabledIccid (World.switched card t) = some t := by
  induction card with
  | nil => simp at h
  | cons p card ih =>
    by_cases hp : p.iccid = t
    · simp [enabledIccid, World.switched, hp]
    · have hrest : card.any (·.iccid == t) = true := by simpa [hp] using h
      have hi := ih hrest
      simpa [enabledIccid, World.switched, hp] using hi

theorem answered_ok {w : World} {t : String} {x : Outside} (h : w.answered t x = .ok) :
    w.card.any (·.iccid == t) = true := by
  unfold World.answered at h
  split at h
  · split at h
    · assumption
    · cases h
  · rename_i hne
    exact absurd h (by simpa using hne)

/-! ## What a statement leaves alone -/

section

variable {w : World} {i j : Nat} {x : Outside}

@[simp] theorem moved_self (a : Actor) : (w.moved i a).actors i = a := Function.update_self ..

@[simp] theorem moved_card (a : Actor) : (w.moved i a).card = w.card := rfl

@[simp] theorem moved_inventory (a : Actor) : (w.moved i a).inventory = w.inventory := rfl

@[simp] theorem moved_switch (a : Actor) : (w.moved i a).switch = w.switch := rfl

@[simp] theorem moved_last (a : Actor) : (w.moved i a).last = w.last := rfl

@[simp] theorem moved_owner (a : Actor) : (w.moved i a).owner = w.owner := rfl

theorem moved_other (h : j ≠ i) (a : Actor) : (w.moved i a).actors j = w.actors j := Function.update_of_ne h ..

variable {t : String} {g : Nat}

theorem run_enabling {s : EnableStep} (h : w.actors i = .enabling t s) : w.run i x = w.enable i x t s := by
  unfold World.run; rw [h]

theorem run_retrying {s : RetryStep} (h : w.actors i = .retrying t g s) : w.run i x = w.retryEnable i x t g s := by
  unfold World.run; rw [h]

theorem run_verifying {s : VerifyStep} (h : w.actors i = .verifying t g s) : w.run i x = w.verifySwitch i x t g s := by
  unfold World.run; rw [h]

theorem noteCard_grows (inv : Inventory) (eid : String) : inv.generation ≤ (inv.noteCard eid).1.generation := by
  unfold Inventory.noteCard
  split
  · exact Nat.le_refl _
  · split
    · split
      · exact Nat.le_succ _
      · exact Nat.le_refl _
    · exact Nat.le_refl _

theorem noteCard_reloading (inv : Inventory) (eid : String) :
    (inv.noteCard eid).1.reloading = true → inv.reloading = true := by
  unfold Inventory.noteCard
  split
  · exact id
  · split
    · split
      · intro h; cases h
      · exact id
    · exact id

end

/-! ## Who ends the reload -/

namespace Actor

/-- How many more steps it takes to lower `reloading` once its time is over. -/
def left : Actor → Nat
  | .enabling _ (.listed _ _ _) => 4
  | .enabling _ (.recorded _) => 3
  | .retrying _ _ (.flagged _) => 3
  | .verifying _ _ (.checking _) => 2
  | .verifying _ _ (.waiting _) => 4
  | .verifying _ _ .holding => 3
  | _ => 1

theorem left_pos (a : Actor) : 0 < a.left := by unfold left; split <;> decide

theorem left_le (a : Actor) : a.left ≤ 4 := by unfold left; split <;> decide

theorem lowers_of_settles {a : Actor} (h : a.settles = true) (g : Nat) : a.lowers g = true := by
  unfold lowers
  split <;> first | exact h | cases h

end Actor

section

variable {w : World} {i : Nat}

theorem lowers_run (x : Outside) (h : (w.actors i).lowers w.switch.generation = true) :
    (w.run i x).inventory.reloading = false ∨
      ((w.run i x).actors i).lowers (w.run i x).switch.generation = true ∧
        (x.late = true → ((w.run i x).actors i).left < (w.actors i).left) := by
  cases ha : w.actors i with
  | idle => rw [ha] at h; cases h
  | refused => rw [ha] at h; cases h
  | done => rw [ha] at h; cases h
  | reading s => rw [ha] at h; cases h
  | deferring t s => rw [ha] at h; cases h
  | enabling t s =>
    rw [ha] at h
    rw [run_enabling ha]
    cases s with
    | listed previous g note => right; simp [World.enable, Actor.lowers, Actor.left]
    | recorded g =>
      right
      simp only [Actor.lowers, decide_eq_true_eq] at h
      simp only [World.enable]
      split <;> simp [Actor.lowers, Actor.settles, Actor.left, h]
    | unspawned => left; rfl
    | _ => cases h
  | retrying t g s =>
    rw [ha] at h
    rw [run_retrying ha]
    cases s with
    | flagged note =>
      right
      simp only [Actor.lowers, decide_eq_true_eq] at h
      simp [World.retryEnable, Actor.lowers, Actor.left, h]
    | _ => cases h
  | verifying t g s =>
    rw [ha] at h
    rw [run_verifying ha]
    cases s with
    | checking last =>
      right
      simp only [Actor.lowers, decide_eq_true_eq] at h
      simp only [World.verifySwitch]
      split
      · simp [Actor.lowers, Actor.settles, Actor.left]
      · rw [if_neg (not_not_intro h.symm)]
        simp_all [Actor.lowers]
    | waiting last =>
      right
      simp only [Actor.lowers, decide_eq_true_eq] at h
      simp only [World.verifySwitch]
      split <;> simp [Actor.lowers, Actor.left, World.acquire, h]
    | holding =>
      right
      simp only [Actor.lowers, decide_eq_true_eq] at h
      simp only [World.verifySwitch]
      split <;> simp [Actor.lowers, Actor.settles, Actor.left, World.release, h]
    | listed list => left; rfl
    | unreadable last => left; rfl
    | _ => cases h

theorem lowered_or_lowers (h : (w.actors i).lowers w.switch.generation = true) (xs : List Outside) :
    (∃ zs, zs <+: xs ∧ (exec World.step w (zs.map (Event.run i))).inventory.reloading = false) ∨
      let w' := exec World.step w (xs.map (Event.run i))
      (w'.actors i).lowers w'.switch.generation = true := by
  induction xs generalizing w with
  | nil => exact .inr h
  | cons x xs ih =>
    rcases lowers_run x h with hdown | ⟨hnext, -⟩
    · exact .inl ⟨[x], List.prefix_append [x] xs, hdown⟩
    · rcases ih hnext with ⟨zs, hzs, hdown⟩ | hend
      · exact .inl ⟨x :: zs, List.cons_prefix_cons.mpr ⟨rfl, hzs⟩, hdown⟩
      · exact .inr hend

theorem lowered_when_late (ys : List Outside) (h : (w.actors i).lowers w.switch.generation = true)
    (hleft : (w.actors i).left ≤ ys.length) (hlate : ∀ y ∈ ys, y.late = true) :
    ∃ zs, zs <+: ys ∧ (exec World.step w (zs.map (Event.run i))).inventory.reloading = false := by
  induction ys generalizing w with
  | nil =>
    have := (w.actors i).left_pos
    simp only [List.length_nil] at hleft
    omega
  | cons y ys ih =>
    rcases lowers_run y h with hdown | ⟨hnext, hless⟩
    · exact ⟨[y], List.prefix_append [y] ys, hdown⟩
    · have hy := hless (hlate y List.mem_cons_self)
      have hleft' : ((w.run i y).actors i).left ≤ ys.length := by
        simp only [List.length_cons] at hleft
        omega
      obtain ⟨zs, hzs, hdown⟩ := ih hnext hleft' fun z hz => hlate z (List.mem_cons_of_mem y hz)
      exact ⟨y :: zs, List.cons_prefix_cons.mpr ⟨rfl, hzs⟩, hdown⟩

theorem willLower_of_lowers (h : (w.actors i).lowers w.switch.generation = true) : w.WillLower i := by
  intro xs ys hys hlate
  rcases lowered_or_lowers h xs with ⟨zs, hzs, hdown⟩ | hend
  · exact ⟨zs, hzs.trans (List.prefix_append xs ys), hdown⟩
  · obtain ⟨zs, hzs, hdown⟩ := lowered_when_late ys hend (by have := Actor.left_le; simp only [hys, this]) hlate
    refine ⟨xs ++ zs, (List.prefix_append_right_inj xs).mpr hzs, ?_⟩
    rw [List.map_append, exec_append]
    exact hdown

end

/-! ## The invariant -/

namespace Actor

def gen (a : Actor) : Option Nat :=
  match a.coming with
  | some g => some g
  | none => a.followed.map (·.2)

/-- The card has not carried out its last command with success. -/
def failing : Actor → Bool
  | .deferring _ _ => true
  | .retrying _ _ (.sleeping _ _) => true
  | .retrying _ _ (.holding _) => true
  | .retrying _ _ (.ran _ r) => r ≠ .ok
  | .verifying t _ (.listed list) => enabledIccid list ≠ some t
  | .verifying t _ (.judging enabled) => enabled ≠ some t
  | _ => false

/-- A refusal that passes is on record, and has not been given up. -/
def retries : Actor → Bool
  | .deferring _ (.recorded _) => true
  | .retrying _ _ _ => true
  | _ => false

end Actor

structure Inv (w : World) : Prop where
  bound : w.switch.generation ≤ w.inventory.generation
  coming : ∀ i g, (w.actors i).coming = some g → g ≤ w.inventory.generation ∧ w.switch.generation ≠ g
  followed : ∀ i t g, (w.actors i).followed = some (t, g) →
    g ≤ w.inventory.generation ∧ (w.switch.generation = g → w.owner = some i) ∧ (w.owner = some i → w.switch.target = t)
  apart : ∀ i j g, (w.actors i).gen = some g → (w.actors j).gen = some g → i = j
  tracked : ∀ c, w.last = some c →
    (w.actors c.actor).owed = some c.target ∨
      (w.actors c.actor).owed = none ∧ w.owner = some c.actor ∧ w.switch.target = c.target
  failing : ∀ c, w.last = some c → (w.actors c.actor).failing = true → c.ok = false
  retries : ∀ i t g, (w.actors i).retries = true → (w.actors i).followed = some (t, g) → w.switch.generation = g →
    w.switch.state ≠ .notApplied
  obeyed : ∀ c, w.last = some c → c.ok = true → enabledIccid w.card = some c.target
  truthful : ∀ c, w.last = some c → c.ok = true → w.switch.state = .notApplied → (w.actors c.actor).owed ≠ none

theorem Inv.init (card : List Profile) : Inv { card } where
  bound := Nat.le_refl _
  coming := nofun
  followed := nofun
  apart := nofun
  tracked := nofun
  failing := nofun
  retries := nofun
  obeyed := nofun
  truthful := nofun

/-- A statement of actor `i` that neither reaches the card with a command nor enters a
    switch in the inventory or on record. -/
structure Quiet (w w' : World) (i : Nat) : Prop where
  card : w'.card = w.card
  last : w'.last = w.last
  owner : w'.owner = w.owner
  generation : w'.switch.generation = w.switch.generation
  target : w'.switch.target = w.switch.target
  grows : w.inventory.generation ≤ w'.inventory.generation
  others : ∀ j, j ≠ i → w'.actors j = w.actors j
  unowed : (w.actors i).owed = none ∧ (w'.actors i).owed = none
  coming : (w'.actors i).coming = none
  followed : ∀ p, (w'.actors i).followed = some p → (w.actors i).followed = some p
  failing : (w'.actors i).failing = true → ∀ c, w.last = some c → c.actor = i → c.ok = false
  retries : (w'.actors i).retries = true → (w.actors i).retries = true
  state : w'.switch.state = .notApplied →
    w.switch.state = .notApplied ∨
      (∃ t, (w.actors i).followed = some (t, w.switch.generation)) ∧ (w.actors i).failing = true ∧
        (w'.actors i).retries = false

section

variable {w w' : World} {i : Nat}

theorem gen_of_followed {a : Actor} {t : String} {g : Nat} (h : a.followed = some (t, g)) : a.gen = some g := by
  unfold Actor.gen
  cases a with
  | enabling t s => cases s <;> simp_all [Actor.coming, Actor.followed]
  | deferring t s => cases s <;> simp_all [Actor.coming, Actor.followed]
  | _ => simp_all [Actor.coming, Actor.followed]

theorem gen_of_coming {a : Actor} {g : Nat} (h : a.coming = some g) : a.gen = some g := by
  simp only [Actor.gen, h]

theorem followed_of_gen {a : Actor} {g : Nat} (h : a.gen = some g) (hc : a.coming = none) :
    ∃ t, a.followed = some (t, g) := by
  simp only [Actor.gen, hc, Option.map_eq_some_iff] at h
  obtain ⟨⟨t, g'⟩, hf, rfl⟩ := h
  exact ⟨t, hf⟩

theorem Quiet.gen (q : Quiet w w' i) {g : Nat} (h : (w'.actors i).gen = some g) : (w.actors i).gen = some g := by
  obtain ⟨t, hf⟩ := followed_of_gen h q.coming
  exact gen_of_followed (q.followed _ hf)

theorem Inv.quiet (h : Inv w) (q : Quiet w w' i) : Inv w' where
  bound := by
    have := h.bound
    have := q.grows
    rw [q.generation]
    omega
  coming := by
    intro j g hj
    by_cases hji : j = i
    · rw [hji, q.coming] at hj
      cases hj
    · rw [q.others j hji] at hj
      have := h.coming j g hj
      have := q.grows
      rw [q.generation]
      omega
  followed := by
    intro j t g hj
    have hold : (w.actors j).followed = some (t, g) := by
      by_cases hji : j = i
      · subst hji; exact q.followed _ hj
      · rw [← q.others j hji]; exact hj
    obtain ⟨hle, hown, htgt⟩ := h.followed j t g hold
    rw [q.generation, q.owner, q.target]
    exact ⟨Nat.le_trans hle q.grows, hown, htgt⟩
  apart := by
    have hold : ∀ j g, (w'.actors j).gen = some g → (w.actors j).gen = some g := by
      intro j g hj
      by_cases hji : j = i
      · subst hji; exact q.gen hj
      · rw [← q.others j hji]; exact hj
    intro j k g hj hk
    exact h.apart j k g (hold j g hj) (hold k g hk)
  tracked := by
    intro c hc
    rw [q.last] at hc
    rw [q.owner, q.target]
    by_cases hci : c.actor = i
    · rcases h.tracked c hc with ho | ⟨-, ho⟩
      · rw [hci, q.unowed.1] at ho
        cases ho
      · rw [hci] at ho ⊢
        exact .inr ⟨q.unowed.2, ho⟩
    · rw [q.others _ hci]
      exact h.tracked c hc
  failing := by
    intro c hc hf
    rw [q.last] at hc
    by_cases hci : c.actor = i
    · rw [hci] at hf
      exact q.failing hf c hc hci
    · rw [q.others _ hci] at hf
      exact h.failing c hc hf
  retries := by
    intro j t g hr hf hg hs
    rw [q.generation] at hg
    have hold : (w.actors j).retries = true ∧ (w.actors j).followed = some (t, g) := by
      by_cases hji : j = i
      · subst hji; exact ⟨q.retries hr, q.followed _ hf⟩
      · rw [← q.others j hji]; exact ⟨hr, hf⟩
    rcases q.state hs with hs | ⟨⟨t', hf'⟩, -, hno⟩
    · exact h.retries j t g hold.1 hold.2 hg hs
    · -- the writer's own generation is on record, so it is the one that retries
      have hji := h.apart j i g (gen_of_followed hold.2) (gen_of_followed (hg ▸ hf'))
      rw [hji, hno] at hr
      cases hr
  obeyed := by
    intro c hc hok
    rw [q.last] at hc
    rw [q.card]
    exact h.obeyed c hc hok
  truthful := by
    intro c hc hok hs
    rw [q.last] at hc
    rcases q.state hs with hs | ⟨⟨t, hf⟩, hfail, -⟩
    · have ho := h.truthful c hc hok hs
      have hci : c.actor ≠ i := fun e => ho (e ▸ q.unowed.1)
      rwa [q.others _ hci]
    · have hown := (h.followed i t _ hf).2.1 rfl
      rcases h.tracked c hc with ho | ⟨-, ho, -⟩
      · have hci : c.actor ≠ i := fun e => by rw [e, q.unowed.1] at ho; cases ho
        rw [q.others _ hci, ho]
        nofun
      · have hci : c.actor = i := by rw [hown] at ho; exact (Option.some.inj ho).symm
        rw [h.failing c hc (hci ▸ hfail)] at hok
        cases hok

structure Same (w u : World) : Prop where
  actors : u.actors = w.actors
  card : u.card = w.card
  last : u.last = w.last
  owner : u.owner = w.owner
  generation : u.switch.generation = w.switch.generation
  target : u.switch.target = w.switch.target
  grows : w.inventory.generation ≤ u.inventory.generation

theorem Same.refl (w : World) : Same w w := ⟨rfl, rfl, rfl, rfl, rfl, rfl, Nat.le_refl _⟩

/-- What an update does not write is as it was. -/
theorem Same.updated {u : World} (hg : w.inventory.generation ≤ u.inventory.generation)
    (ha : u.actors = w.actors) (hc : u.card = w.card) (hl : u.last = w.last)
    (ho : u.owner = w.owner) (hn : u.switch.generation = w.switch.generation)
    (ht : u.switch.target = w.switch.target) : Same w u := ⟨ha, hc, hl, ho, hn, ht, hg⟩

theorem Same.notStarted {t m : String} {x : Outside} (h : w.answered t x = .notStarted m) : Same w (w.commanded i t x) where
  actors := rfl
  card := by simp [World.commanded, World.switches, h]
  last := by simp only [World.commanded, h]
  owner := rfl
  generation := rfl
  target := rfl
  grows := Nat.le_refl _

/-- From `b` to `a` no switch is carried out or entered. -/
structure Onward (b a : Actor) : Prop where
  unowed : b.owed = none ∧ a.owed = none
  coming : a.coming = none
  followed : ∀ p, a.followed = some p → b.followed = some p
  retries : a.retries = true → b.retries = true

theorem Onward.fresh {a b : Actor} (hb : b.owed = none) (ha : a.owed = none)
    (hc : a.coming = none) (hf : a.followed = none) (hr : a.retries = false) :
    Onward b a := by
  refine ⟨⟨hb, ha⟩, hc, fun p hp => ?_, fun h => ?_⟩
  · rw [hf] at hp; cases hp
  · rw [hr] at h; cases h

theorem Onward.along {a b : Actor} (hr : a.retries = true → b.retries = true) (hb : b.owed = none)
    (ha : a.owed = none) (hc : a.coming = none) (hf : a.followed = b.followed) :
    Onward b a := ⟨⟨hb, ha⟩, hc, fun _ hp => hf ▸ hp, hr⟩

theorem Inv.unproven (h : Inv w) {b : Actor} (ha : w.actors i = b) (hb : b.failing = true) :
    ∀ c, w.last = some c → c.actor = i → c.ok = false := by
  rintro c hc rfl
  exact h.failing c hc (ha ▸ hb)

theorem Inv.moves (h : Inv w) {u : World} {a b : Actor} (ha : w.actors i = b) (hu : Same w u) (hb : Onward b a)
    (hf : a.failing = true → ∀ c, w.last = some c → c.actor = i → c.ok = false)
    (hs : u.switch.state = .notApplied →
      w.switch.state = .notApplied ∨
        (∃ t, b.followed = some (t, w.switch.generation)) ∧ b.failing = true ∧ a.retries = false) :
    Inv (u.moved i a) := by
  refine h.quiet (i := i) { hu with
    others := fun j hj => ?_, unowed := ?_, coming := ?_, followed := ?_, failing := ?_, retries := ?_, state := ?_ }
  · rw [moved_other hj, hu.actors]
  · rw [moved_self, ha]; exact hb.unowed
  · rw [moved_self]; exact hb.coming
  · rw [moved_self, ha]; exact hb.followed
  · rw [moved_self]; exact hf
  · rw [moved_self, ha]; exact hb.retries
  · rw [moved_self, ha]; exact hs

end

/-! ## The card's command, the entry in the inventory and the record -/

section

variable {w u : World} {i : Nat} {x : Outside} {t : String} {g : Nat} {a b : Actor}

/-- An actor that has taken no generation it did not have shares none. -/
theorem Inv.apart_moved (h : Inv w) (hu : u.actors = w.actors) (ha : ∀ g, a.gen = some g → (w.actors i).gen = some g)
    (j k g : Nat) (hj : ((u.moved i a).actors j).gen = some g) (hk : ((u.moved i a).actors k).gen = some g) : j = k := by
  have hold : ∀ j, ((u.moved i a).actors j).gen = some g → (w.actors j).gen = some g := by
    intro j hj
    by_cases hji : j = i
    · rw [hji, moved_self] at hj
      exact hji ▸ ha g hj
    · rw [moved_other hji, hu] at hj
      exact hj
  exact h.apart j k g (hold j hj) (hold k hk)

theorem commanded_last (h : ∀ m, w.answered t x ≠ .notStarted m) :
    (w.commanded i t x).last = some ⟨i, t, w.answered t x = .ok⟩ := by
  simp only [World.commanded]
  cases hr : w.answered t x with
  | ok => simp
  | failed m => simp
  | notStarted m => exact absurd hr (h m)

theorem commanded_card (h : w.answered t x = .ok) : enabledIccid (w.commanded i t x).card = some t := by
  simp only [World.commanded, h, World.switches, if_true]
  exact enabledIccid_switched (answered_ok h)

theorem Inv.commands (h : Inv w) (ha : w.actors i = b) (hr : ∀ m, w.answered t x ≠ .notStarted m) (hc : a.coming = none)
    (hfol : ∀ p, a.followed = some p → b.followed = some p) (hret : a.retries = true → b.retries = true)
    (ho : a.owed = some t ∨
      a.owed = none ∧ (w.owner = some i ∧ w.switch.target = t) ∧ w.switch.state ≠ .notApplied)
    (hf : a.failing = true → w.answered t x ≠ .ok) : Inv ((w.commanded i t x).moved i a) where
  bound := h.bound
  coming := by
    intro j g hj
    by_cases hji : j = i
    · rw [hji, moved_self, hc] at hj
      cases hj
    · rw [moved_other hji] at hj
      exact h.coming j g hj
  followed := by
    intro j t' g hj
    by_cases hji : j = i
    · rw [hji, moved_self] at hj
      subst hji
      exact h.followed j t' g (ha ▸ hfol _ hj)
    · rw [moved_other hji] at hj
      exact h.followed j t' g hj
  apart := by
    refine h.apart_moved rfl fun g hg => ?_
    obtain ⟨t', hf'⟩ := followed_of_gen hg hc
    exact ha ▸ gen_of_followed (hfol _ hf')
  tracked := by
    intro c hl
    rw [moved_last, commanded_last hr, Option.some.injEq] at hl
    subst hl
    rw [moved_self]
    exact ho.imp id fun ⟨ho, hown, _⟩ => ⟨ho, hown⟩
  failing := by
    intro c hl hfail
    rw [moved_last, commanded_last hr, Option.some.injEq] at hl
    subst hl
    rw [moved_self] at hfail
    simpa using hf hfail
  retries := by
    intro j t' g hj hfj hg
    by_cases hji : j = i
    · rw [hji, moved_self] at hj hfj
      exact h.retries i t' g (ha ▸ hret hj) (ha ▸ hfol _ hfj) hg
    · rw [moved_other hji] at hj hfj
      exact h.retries j t' g hj hfj hg
  obeyed := by
    intro c hl hok
    rw [moved_last, commanded_last hr, Option.some.injEq] at hl
    subst hl
    exact commanded_card (i := i) (by simpa using hok)
  truthful := by
    intro c hl _ hs
    rw [moved_last, commanded_last hr, Option.some.injEq] at hl
    subst hl
    rw [moved_self]
    rcases ho with ho | ⟨-, -, hno⟩
    · rw [ho]; nofun
    · exact absurd hs hno

/-- A switch takes the next generation. -/
theorem Inv.enters (h : Inv w) (ha : w.actors i = b) (hactors : u.actors = w.actors) (hcard : u.card = w.card)
    (hlast : u.last = w.last) (hown : u.owner = w.owner) (hsw : u.switch = w.switch)
    (hg : u.inventory.generation = w.inventory.generation + 1) (ho : a.owed = b.owed)
    (hc : a.coming = some u.inventory.generation) (hfol : a.followed = none) (hret : a.retries = false)
    (hf : a.failing = true → b.failing = true) : Inv (u.moved i a) := by
  have hother : ∀ j, j ≠ i → (u.moved i a).actors j = w.actors j := fun j hj => by rw [moved_other hj, hactors]
  have hgen : ∀ j g, (w.actors j).gen = some g → g ≤ w.inventory.generation := by
    intro j g hj
    cases hcj : (w.actors j).coming with
    | some g' =>
      rw [gen_of_coming hcj, Option.some.injEq] at hj
      exact hj ▸ (h.coming j g' hcj).1
    | none =>
      obtain ⟨t', hf'⟩ := followed_of_gen hj hcj
      exact (h.followed j t' g hf').1
  refine ⟨?_, ?_, ?_, ?_, ?_, ?_, ?_, ?_, ?_⟩
  · have := h.bound
    rw [moved_switch, moved_inventory, hsw]
    omega
  · intro j g hj
    rw [moved_switch, moved_inventory, hsw]
    have := h.bound
    by_cases hji : j = i
    · rw [hji, moved_self, hc, Option.some.injEq] at hj
      omega
    · rw [hother j hji] at hj
      have := h.coming j g hj
      omega
  · intro j t' g hj
    by_cases hji : j = i
    · rw [hji, moved_self, hfol] at hj
      cases hj
    · rw [hother j hji] at hj
      have hold := h.followed j t' g hj
      rw [moved_switch, moved_inventory, moved_owner, hsw, hown]
      exact ⟨by omega, hold.2⟩
  · intro j k g hj hk
    by_cases hji : j = i
    · by_cases hki : k = i
      · rw [hji, hki]
      · rw [hji, moved_self, gen_of_coming hc, Option.some.injEq] at hj
        rw [hother k hki] at hk
        have := hgen k g hk
        omega
    · rw [hother j hji] at hj
      by_cases hki : k = i
      · rw [hki, moved_self, gen_of_coming hc, Option.some.injEq] at hk
        have := hgen j g hj
        omega
      · rw [hother k hki] at hk
        exact h.apart j k g hj hk
  · intro c hl
    rw [moved_last, hlast] at hl
    rw [moved_owner, moved_switch, hown, hsw]
    by_cases hci : c.actor = i
    · rw [hci, moved_self, ho, ← ha, ← hci]
      exact h.tracked c hl
    · rw [hother _ hci]
      exact h.tracked c hl
  · intro c hl hfail
    rw [moved_last, hlast] at hl
    by_cases hci : c.actor = i
    · rw [hci, moved_self] at hfail
      exact h.unproven ha (hf hfail) c hl hci
    · rw [hother _ hci] at hfail
      exact h.failing c hl hfail
  · intro j t' g hj hfj hg'
    rw [moved_switch, hsw] at hg' ⊢
    by_cases hji : j = i
    · rw [hji, moved_self, hret] at hj
      cases hj
    · rw [hother j hji] at hj hfj
      exact h.retries j t' g hj hfj hg'
  · intro c hl
    rw [moved_last, hlast] at hl
    rw [moved_card, hcard]
    exact h.obeyed c hl
  · intro c hl hok hs
    rw [moved_last, hlast] at hl
    rw [moved_switch, hsw] at hs
    by_cases hci : c.actor = i
    · rw [hci, moved_self, ho, ← ha, ← hci]
      exact h.truthful c hl hok hs
    · rw [hother _ hci]
      exact h.truthful c hl hok hs

/-- A switch is recorded; the one the card carried out last is not on record yet. -/
theorem Inv.records (h : Inv w) (ha : w.actors i = b) (hun : w.Unrecorded) (hactors : u.actors = w.actors)
    (hcard : u.card = w.card) (hlast : u.last = w.last) (hown : u.owner = some i) (hinv : u.inventory = w.inventory)
    (hb : b.owed = some t) (hg : b.coming = some u.switch.generation) (ht : u.switch.target = t)
    (hs : u.switch.state ≠ .notApplied) (ho : a.owed = none) (hc : a.coming = none)
    (hfol : a.followed = some (t, u.switch.generation)) (hf : a.failing = true → b.failing = true) :
    Inv (u.moved i a) := by
  have hother : ∀ j, j ≠ i → (u.moved i a).actors j = w.actors j := fun j hj => by rw [moved_other hj, hactors]
  have hgi : (w.actors i).gen = some u.switch.generation := by rw [ha]; exact gen_of_coming hg
  have hle : u.switch.generation ≤ w.inventory.generation := (h.coming i _ (ha ▸ hg)).1
  -- no other actor has this generation
  have halone : ∀ j, j ≠ i → (w.actors j).gen ≠ some u.switch.generation := fun j hj he => hj (h.apart j i _ he hgi)
  have howed : ∀ c, w.last = some c → (w.actors c.actor).owed = some c.target := by
    intro c hl
    rcases h.tracked c hl with ho | ⟨ho, -⟩
    · exact ho
    · exact absurd ho (hun c hl)
  refine ⟨?_, ?_, ?_, ?_, ?_, ?_, ?_, ?_, ?_⟩
  · rw [moved_switch, moved_inventory, hinv]
    exact hle
  · intro j g hj
    rw [moved_switch, moved_inventory, hinv]
    by_cases hji : j = i
    · rw [hji, moved_self, hc] at hj
      cases hj
    · rw [hother j hji] at hj
      exact ⟨(h.coming j g hj).1, fun e => halone j hji (e ▸ gen_of_coming hj)⟩
  · intro j t' g hj
    rw [moved_switch, moved_inventory, moved_owner, hinv, hown, ht]
    by_cases hji : j = i
    · rw [hji, moved_self, hfol, Option.some.injEq, Prod.mk.injEq] at hj
      obtain ⟨rfl, rfl⟩ := hj
      exact ⟨hle, fun _ => by rw [hji], fun _ => rfl⟩
    · rw [hother j hji] at hj
      refine ⟨(h.followed j t' g hj).1, fun e => absurd (gen_of_followed hj) (e ▸ halone j hji), fun e => ?_⟩
      exact absurd (Option.some.inj e).symm hji
  · refine h.apart_moved hactors fun g hg' => ?_
    rw [gen_of_followed hfol] at hg'
    rw [hgi, hg']
  · intro c hl
    rw [moved_last, hlast] at hl
    have hoc := howed c hl
    by_cases hci : c.actor = i
    · right
      rw [hci, ha, hb, Option.some.injEq] at hoc
      rw [hci, moved_self, moved_owner, moved_switch, ht, hoc]
      exact ⟨ho, hown, rfl⟩
    · left
      rw [hother _ hci]
      exact hoc
  · intro c hl hfail
    rw [moved_last, hlast] at hl
    by_cases hci : c.actor = i
    · rw [hci, moved_self] at hfail
      exact h.unproven ha (hf hfail) c hl hci
    · rw [hother _ hci] at hfail
      exact h.failing c hl hfail
  · intro j t' g _ _ _
    rw [moved_switch]
    exact hs
  · intro c hl
    rw [moved_last, hlast] at hl
    rw [moved_card, hcard]
    exact h.obeyed c hl
  · intro c _ _ hs'
    rw [moved_switch] at hs'
    exact absurd hs' hs

end

/-! ## One statement -/

section

variable {w : World} {i : Nat} {x : Outside} {t : String} {g : Nat}

theorem Inv.enable (h : Inv w) {s : EnableStep} (ha : w.actors i = .enabling t s) (hok : w.Orderly (.run i x)) :
    Inv (w.enable i x t s) := by
  cases s with
  | asked =>
    simp only [World.enable]
    split
    · exact h.moves ha (.refl w) (.fresh rfl rfl rfl rfl rfl) nofun .inl
    · exact h.moves ha (.refl w) (.fresh rfl rfl rfl rfl rfl) nofun .inl
  | unblocked =>
    simp only [World.enable]
    split
    · exact h.moves ha (.refl w) (.fresh rfl rfl rfl rfl rfl) nofun .inl
    · exact h.moves ha (.refl w) (.fresh rfl rfl rfl rfl rfl) nofun .inl
  | calm =>
    simp only [World.enable]
    split
    · exact h.moves ha (.refl w) (.fresh rfl rfl rfl rfl rfl) nofun .inl
    · split
      · exact h.moves ha (.updated (Nat.le_refl _) rfl rfl rfl rfl rfl rfl) (.fresh rfl rfl rfl rfl rfl) nofun .inl
      · exact h.moves ha (.refl w) (.fresh rfl rfl rfl rfl rfl) nofun .inl
  | holding =>
    simp only [World.enable]
    split
    · exact h.moves ha (.updated (Nat.le_refl _) rfl rfl rfl rfl rfl rfl) (.fresh rfl rfl rfl rfl rfl) nofun .inl
    · split
      · exact h.moves ha (.updated (noteCard_grows _ _) rfl rfl rfl rfl rfl rfl) (.fresh rfl rfl rfl rfl rfl) nofun .inl
      · exact h.moves ha (.updated (noteCard_grows _ _) rfl rfl rfl rfl rfl rfl) (.fresh rfl rfl rfl rfl rfl) nofun .inl
  | known =>
    simp only [World.enable]
    split
    · exact h.moves ha (.updated (Nat.le_refl _) rfl rfl rfl rfl rfl rfl) (.fresh rfl rfl rfl rfl rfl) nofun .inl
    · split
      · exact h.moves ha (.updated (Nat.le_refl _) rfl rfl rfl rfl rfl rfl) (.fresh rfl rfl rfl rfl rfl) nofun .inl
      · split
        · rename_i hr
          exact h.commands ha (by simp [hr]) rfl nofun nofun (.inl rfl) nofun
        · rename_i m hr
          split
          · exact h.commands ha (by simp [hr]) rfl nofun nofun (.inl rfl) fun _ => by simp [hr]
          · exact h.commands ha (by simp [hr]) rfl nofun nofun (.inl rfl) nofun
        · rename_i m hr
          exact h.moves ha (.notStarted hr) (.fresh rfl rfl rfl rfl rfl) nofun .inl
  | ran list note => exact h.enters ha rfl rfl rfl rfl rfl rfl rfl rfl rfl rfl nofun
  | listed previous g note =>
    have hun : w.Unrecorded := by simpa only [World.Orderly, ha] using hok
    exact h.records ha hun rfl rfl rfl rfl rfl rfl rfl rfl nofun rfl rfl rfl nofun
  | recorded g =>
    simp only [World.enable]
    split
    · exact h.moves ha (.refl w) (.along nofun rfl rfl rfl rfl) nofun .inl
    · exact h.moves ha (.refl w) (.fresh rfl rfl rfl rfl rfl) nofun .inl
  | unspawned => exact h.moves ha (.updated (Nat.le_refl _) rfl rfl rfl rfl rfl rfl) (.fresh rfl rfl rfl rfl rfl) nofun nofun

theorem Inv.retryWhileBusy (h : Inv w) {s : DeferStep} (ha : w.actors i = .deferring t s) (hok : w.Orderly (.run i x)) :
    Inv (w.retryWhileBusy i x t s) := by
  cases s with
  | refused list m => exact h.enters ha rfl rfl rfl rfl rfl rfl rfl rfl rfl rfl fun _ => rfl
  | listed previous g m =>
    have hun : w.Unrecorded := by
      simp only [World.Orderly, ha] at hok
      exact hok.1
    exact h.records ha hun rfl rfl rfl rfl rfl rfl rfl rfl nofun rfl rfl rfl fun _ => rfl
  | recorded g =>
    simp only [World.retryWhileBusy]
    split
    · exact h.moves ha (.refl w) (.along id rfl rfl rfl rfl) (fun _ => h.unproven ha rfl) .inl
    · exact h.moves ha (.refl w) (.along nofun rfl rfl rfl rfl) (fun _ => h.unproven ha rfl) .inl
  | unspawned g =>
    have hg : w.switch.generation = g := by simpa only [World.Orderly, ha] using hok
    refine h.moves ha (.updated (Nat.le_refl _) rfl rfl rfl rfl rfl rfl) (.fresh rfl rfl rfl rfl rfl) nofun fun _ => .inr ?_
    exact ⟨⟨t, by rw [hg]; rfl⟩, rfl, rfl⟩

theorem Inv.retryEnable (h : Inv w) {s : RetryStep} (ha : w.actors i = .retrying t g s) (hok : w.Orderly (.run i x)) :
    Inv (w.retryEnable i x t g s) := by
  cases s with
  | sleeping attempt last =>
    simp only [World.retryEnable]
    split
    · split
      · exact h.moves ha (.refl w) (.fresh rfl rfl rfl rfl rfl) nofun .inl
      · rename_i hg
        refine h.moves ha (.updated (Nat.le_refl _) rfl rfl rfl rfl rfl rfl) (.fresh rfl rfl rfl rfl rfl) nofun fun _ => .inr ?_
        exact ⟨⟨t, by rw [not_not.mp hg]; rfl⟩, rfl, rfl⟩
    · split
      · exact h.moves ha (.updated (Nat.le_refl _) rfl rfl rfl rfl rfl rfl) (.along id rfl rfl rfl rfl) (fun _ => h.unproven ha rfl) .inl
      · exact h.moves ha (.refl w) (.along id rfl rfl rfl rfl) (fun _ => h.unproven ha rfl) .inl
  | holding attempt =>
    simp only [World.retryEnable]
    by_cases hr : ∃ m, w.answered t x = .notStarted m
    · obtain ⟨m, hr⟩ := hr
      exact h.moves ha (.notStarted hr) (.along id rfl rfl rfl rfl) (fun _ => h.unproven ha rfl) .inl
    · have hg : w.switch.generation = g := by
        simp only [World.Orderly, ha] at hok
        exact hok.resolve_right hr
      have hfol : (w.actors i).followed = some (t, g) := by rw [ha]; rfl
      obtain ⟨-, hown, htgt⟩ := h.followed i t g hfol
      have hstate := h.retries i t g (by rw [ha]; rfl) hfol hg
      refine h.commands ha (not_exists.mp hr) rfl (fun _ hp => hp) id
        (.inr ⟨rfl, ⟨hown hg, htgt (hown hg)⟩, hstate⟩) fun hf => ?_
      simpa [Actor.failing] using hf
  | ran attempt r =>
    simp only [World.retryEnable]
    split
    · exact h.moves ha (.refl w) (.fresh rfl rfl rfl rfl rfl) nofun .inl
    · split
      · exact h.moves ha (.refl w) (.along id rfl rfl rfl rfl) nofun .inl
      · exact h.moves ha (.refl w) (.along id rfl rfl rfl rfl) (fun _ => h.unproven ha rfl) .inl
      · split
        · exact h.moves ha (.refl w) (.along id rfl rfl rfl rfl) (fun _ => h.unproven ha rfl) .inl
        · exact h.moves ha (.refl w) (.along id rfl rfl rfl rfl) nofun .inl
  | accepted note =>
    exact h.moves ha (.updated (Nat.le_refl _) rfl rfl rfl rfl rfl rfl) (.along id rfl rfl rfl rfl) nofun .inl
  | flagged note =>
    exact h.moves ha (.updated (Nat.le_refl _) rfl rfl rfl rfl rfl rfl) (.along nofun rfl rfl rfl rfl) nofun nofun

/-- A list that does not have the target enabled shows that the card has not switched to it. -/
theorem Inv.unlisted (h : Inv w) {b : Actor} (ha : w.actors i = b) (hf : b.followed = some (t, g)) (ho : b.owed = none)
    (hl : enabledIccid w.card ≠ some t) : ∀ c, w.last = some c → c.actor = i → c.ok = false := by
  rintro c hc rfl
  rcases h.tracked c hc with htr | ⟨-, hown, htr⟩
  · rw [ha, ho] at htr
    cases htr
  · have htgt := (h.followed c.actor t g (ha ▸ hf)).2.2 hown
    cases hok : c.ok with
    | false => rfl
    | true =>
      rw [h.obeyed c hc hok, ← htr, htgt] at hl
      exact absurd rfl hl

theorem Inv.verifySwitch (h : Inv w) {s : VerifyStep} (ha : w.actors i = .verifying t g s) : Inv (w.verifySwitch i x t g s) := by
  cases s with
  | checking last =>
    simp only [World.verifySwitch]
    split
    · exact h.moves ha (.refl w) (.along nofun rfl rfl rfl rfl) nofun .inl
    · split
      · exact h.moves ha (.refl w) (.fresh rfl rfl rfl rfl rfl) nofun .inl
      · exact h.moves ha (.refl w) (.along nofun rfl rfl rfl rfl) nofun .inl
  | waiting last =>
    simp only [World.verifySwitch]
    split
    · exact h.moves ha (.updated (Nat.le_refl _) rfl rfl rfl rfl rfl rfl) (.along nofun rfl rfl rfl rfl) nofun .inl
    · exact h.moves ha (.refl w) (.along nofun rfl rfl rfl rfl) nofun .inl
  | holding =>
    simp only [World.verifySwitch]
    split
    · exact h.moves ha (.updated (Nat.le_refl _) rfl rfl rfl rfl rfl rfl) (.along nofun rfl rfl rfl rfl) nofun .inl
    · refine h.moves ha (.updated (Nat.le_refl _) rfl rfl rfl rfl rfl rfl) (.along nofun rfl rfl rfl rfl)
        (fun hf => h.unlisted ha rfl rfl ?_) .inl
      simpa [Actor.failing] using hf
  | listed list =>
    exact h.moves ha (.updated (Nat.le_refl _) rfl rfl rfl rfl rfl rfl) (.along nofun rfl rfl rfl rfl) (fun hf => h.unproven ha hf) .inl
  | judging enabled =>
    simp only [World.verifySwitch]
    split
    · rename_i he
      split
      · rename_i hg
        refine h.moves ha (.updated (Nat.le_refl _) rfl rfl rfl rfl rfl rfl) (.fresh rfl rfl rfl rfl rfl) nofun fun _ => .inr ?_
        exact ⟨⟨t, by rw [hg]; rfl⟩, by simpa [Actor.failing] using he, rfl⟩
      · exact h.moves ha (.refl w) (.fresh rfl rfl rfl rfl rfl) nofun .inl
    · split
      · exact h.moves ha (.refl w) (.fresh rfl rfl rfl rfl rfl) nofun .inl
      · exact h.moves ha (.updated (Nat.le_refl _) rfl rfl rfl rfl rfl rfl) (.along nofun rfl rfl rfl rfl) nofun nofun
  | unreadable last =>
    exact h.moves ha (.updated (Nat.le_refl _) rfl rfl rfl rfl rfl rfl) (.along nofun rfl rfl rfl rfl) nofun .inl
  | unread =>
    simp only [World.verifySwitch]
    split
    · exact h.moves ha (.refl w) (.along nofun rfl rfl rfl rfl) nofun .inl
    · split
      · exact h.moves ha (.refl w) (.fresh rfl rfl rfl rfl rfl) nofun .inl
      · exact h.moves ha (.updated (Nat.le_refl _) rfl rfl rfl rfl rfl rfl) (.fresh rfl rfl rfl rfl rfl) nofun nofun
  | following =>
    simp only [World.verifySwitch]
    split
    · exact h.moves ha (.refl w) (.fresh rfl rfl rfl rfl rfl) nofun .inl
    · obtain ⟨sw, hsw⟩ : ∃ sw, sw = if w.switch.modemConfirmedAt = 0 ∧ x.loaded then
          { w.switch with modemConfirmedAt := x.now, state := .modemConfirmed } else w.switch := ⟨_, rfl⟩
      rw [← hsw]
      have hkept : sw.generation = w.switch.generation ∧ sw.target = w.switch.target := by subst hsw; split <;> exact ⟨rfl, rfl⟩
      have hsame : ∀ sw', sw'.generation = sw.generation → sw'.target = sw.target → Same w { w with switch := sw' } :=
        fun _ hg ht => .updated (Nat.le_refl _) rfl rfl rfl rfl (hg.trans hkept.1) (ht.trans hkept.2)
      split
      · exact h.moves ha (hsame _ rfl rfl) (.fresh rfl rfl rfl rfl rfl) nofun nofun
      · split
        · split
          · exact h.moves ha (hsame _ rfl rfl) (.fresh rfl rfl rfl rfl rfl) nofun nofun
          · exact h.moves ha (hsame _ rfl rfl) (.fresh rfl rfl rfl rfl rfl) nofun nofun
        · refine h.moves ha (hsame _ rfl rfl) (.along nofun rfl rfl rfl rfl) nofun fun hs => .inl ?_
          subst hsw
          dsimp only at hs
          split at hs
          · cases hs
          · exact hs

theorem Inv.profiles (h : Inv w) {s : ReadStep} (ha : w.actors i = .reading s) : Inv (w.profiles i x s) := by
  cases s with
  | asked =>
    simp only [World.profiles]
    split
    · exact h.moves ha (.refl w) (.fresh rfl rfl rfl rfl rfl) nofun .inl
    · exact h.moves ha (.refl w) (.fresh rfl rfl rfl rfl rfl) nofun .inl
  | calm =>
    simp only [World.profiles]
    split
    · exact h.moves ha (.updated (Nat.le_refl _) rfl rfl rfl rfl rfl rfl) (.fresh rfl rfl rfl rfl rfl) nofun .inl
    · exact h.moves ha (.refl w) (.fresh rfl rfl rfl rfl rfl) nofun .inl
  | holding =>
    simp only [World.profiles]
    split
    · exact h.moves ha (.refl w) (.fresh rfl rfl rfl rfl rfl) nofun .inl
    · exact h.moves ha (.refl w) (.fresh rfl rfl rfl rfl rfl) nofun .inl
  | ran r =>
    cases r with
    | ok list => exact h.moves ha (.updated (Nat.le_refl _) rfl rfl rfl rfl rfl rfl) (.fresh rfl rfl rfl rfl rfl) nofun .inl
    | error e => exact h.moves ha (.updated (Nat.le_refl _) rfl rfl rfl rfl rfl rfl) (.fresh rfl rfl rfl rfl rfl) nofun .inl

theorem Inv.run (h : Inv w) (hok : w.Orderly (.run i x)) : Inv (w.run i x) := by
  unfold World.run
  cases ha : w.actors i with
  | idle => exact h
  | refused => exact h
  | done => exact h
  | enabling t s => exact h.enable ha hok
  | deferring t s => exact h.retryWhileBusy ha hok
  | retrying t g s => exact h.retryEnable ha hok
  | verifying t g s => exact h.verifySwitch ha
  | reading s => exact h.profiles ha

theorem Inv.step (h : Inv w) {e : Event} (hok : w.Orderly e) : Inv (w.step e) := by
  cases e with
  | enable i t =>
    simp only [World.step, World.arrives]
    split
    · rename_i ha
      exact h.moves ha (.refl w) (.fresh rfl rfl rfl rfl rfl) nofun .inl
    · exact h
  | read i =>
    simp only [World.step, World.arrives]
    split
    · rename_i ha
      exact h.moves ha (.refl w) (.fresh rfl rfl rfl rfl rfl) nofun .inl
    · exact h
  | run i x => exact h.run hok

end

/-! ## Some worker ends the reload -/

namespace Actor

/-- Its next statement raises `reloading`. -/
def raises : Actor → Bool
  | .enabling _ (.ran _ _) => true
  | .retrying _ _ (.accepted _) => true
  | _ => false

end Actor

section

variable {w : World} {i : Nat} {x : Outside}

theorem run_other {j : Nat} (h : j ≠ i) : (w.run i x).actors j = w.actors j := by
  unfold World.run
  cases w.actors i with
  | enabling t s => cases s <;> simp only [World.enable] <;> (repeat' split) <;> exact Function.update_of_ne h ..
  | deferring t s => cases s <;> simp only [World.retryWhileBusy] <;> (repeat' split) <;> exact Function.update_of_ne h ..
  | retrying t g s => cases s <;> simp only [World.retryEnable] <;> (repeat' split) <;> exact Function.update_of_ne h ..
  | verifying t g s => cases s <;> simp only [World.verifySwitch] <;> (repeat' split) <;> exact Function.update_of_ne h ..
  | reading s => cases s <;> simp only [World.profiles] <;> (repeat' split) <;> exact Function.update_of_ne h ..
  | _ => rfl

/-- Only a switch that comes on record changes the generation there. -/
theorem run_generation (h : (w.actors i).coming = none) : (w.run i x).switch.generation = w.switch.generation := by
  unfold World.run
  cases ha : w.actors i with
  | enabling t s =>
    rw [ha] at h
    cases s with
    | listed => cases h
    | _ => simp only [World.enable]; (repeat' split) <;> rfl
  | deferring t s =>
    rw [ha] at h
    cases s with
    | listed => cases h
    | _ => simp only [World.retryWhileBusy]; (repeat' split) <;> rfl
  | retrying t g s => cases s <;> simp only [World.retryEnable] <;> (repeat' split) <;> rfl
  | verifying t g s =>
    cases s <;> simp only [World.verifySwitch, moved_switch, Switch.finish, apply_ite World.switch, apply_ite Switch.generation, ite_self]
    all_goals (repeat' split) <;> rfl
  | reading s => cases s <;> simp only [World.profiles] <;> (repeat' split) <;> rfl
  | _ => rfl

theorem run_reloading (h : (w.actors i).raises = false) (hr : (w.run i x).inventory.reloading = true) :
    w.inventory.reloading = true := by
  revert hr
  unfold World.run
  cases ha : w.actors i with
  | enabling t s =>
    rw [ha] at h
    cases s with
    | ran => cases h
    | unspawned => nofun
    | holding =>
      simp only [World.enable]
      repeat' split
      · exact id
      · exact noteCard_reloading _ _
      · exact noteCard_reloading _ _
    | _ => simp only [World.enable]; (repeat' split) <;> exact id
  | deferring t s => cases s <;> simp only [World.retryWhileBusy] <;> (repeat' split) <;> exact id
  | retrying t g s =>
    rw [ha] at h
    cases s with
    | accepted => cases h
    | _ => simp only [World.retryEnable]; (repeat' split) <;> exact id
  | verifying t g s =>
    cases s with
    | listed => nofun
    | unreadable => nofun
    | _ => simp only [World.verifySwitch]; (repeat' split) <;> exact id
  | reading s => cases s <;> simp only [World.profiles] <;> (repeat' split) <;> exact id
  | _ => exact id

def Lowered (w : World) : Prop := w.inventory.reloading = true → ∃ k, (w.actors k).lowers w.switch.generation = true

theorem Lowered.run (h : Lowered w) (hok : w.Orderly (.run i x)) : Lowered (w.run i x) := by
  intro hrel
  -- a worker other than this actor, or that settles whatever is on record, is left as it was
  have hother : ∀ k, k ≠ i → (w.actors k).lowers (w.run i x).switch.generation = true →
      ∃ k, ((w.run i x).actors k).lowers (w.run i x).switch.generation = true := by
    intro k hki hk
    exact ⟨k, by rw [run_other hki]; exact hk⟩
  by_cases hraise : (w.actors i).raises = true
  · cases ha : w.actors i with
    | enabling t s =>
      cases s with
      | ran list note => exact ⟨i, by rw [run_enabling ha]; simp [World.enable, Actor.lowers, Actor.settles]⟩
      | _ => rw [ha] at hraise; cases hraise
    | retrying t g s =>
      cases s with
      | accepted note =>
        have hsame : (w.run i x).switch.generation = w.switch.generation := run_generation (by rw [ha]; rfl)
        simp only [World.Orderly, ha] at hok
        rcases hok with hg | ⟨k, hk⟩
        · exact ⟨i, by rw [hsame, run_retrying ha]; simp [World.retryEnable, Actor.lowers, hg]⟩
        · refine hother k ?_ (hsame ▸ hk)
          rintro rfl
          rw [ha] at hk
          cases hk
      | _ => rw [ha] at hraise; cases hraise
    | _ => rw [ha] at hraise; cases hraise
  · rw [Bool.not_eq_true] at hraise
    have hup := run_reloading hraise hrel
    by_cases hcome : (w.actors i).coming = none
    · have hsame : (w.run i x).switch.generation = w.switch.generation := run_generation hcome
      obtain ⟨k, hk⟩ := h hup
      by_cases hki : k = i
      · subst hki
        rcases lowers_run x hk with hdown | ⟨hnext, -⟩
        · rw [hdown] at hrel
          cases hrel
        · exact ⟨k, hnext⟩
      · exact hother k hki (hsame ▸ hk)
    · cases ha : w.actors i with
      | enabling t s =>
        cases s with
        | listed previous g note => exact ⟨i, by rw [run_enabling ha]; simp [World.enable, Actor.lowers]⟩
        | _ => rw [ha] at hcome; exact absurd rfl hcome
      | deferring t s =>
        cases s with
        | listed previous g m =>
          simp only [World.Orderly, ha] at hok
          rcases hok.2 with hdown | ⟨k, hk⟩
          · rw [hdown] at hup
            cases hup
          · refine hother k ?_ (Actor.lowers_of_settles hk _)
            rintro rfl
            rw [ha] at hk
            cases hk
        | _ => rw [ha] at hcome; exact absurd rfl hcome
      | _ => rw [ha] at hcome; exact absurd rfl hcome

theorem Lowered.arrives (h : Lowered w) {a : Actor} : Lowered (w.arrives i a) := by
  unfold World.arrives
  split
  · rename_i ha
    intro hrel
    obtain ⟨k, hk⟩ := h hrel
    refine ⟨k, ?_⟩
    have hki : k ≠ i := by
      rintro rfl
      rw [ha] at hk
      cases hk
    rw [moved_other hki]
    exact hk
  · exact h

theorem Lowered.step (h : Lowered w) {e : Event} (hok : w.Orderly e) : Lowered (w.step e) := by
  cases e with
  | enable i t => exact h.arrives
  | read i => exact h.arrives
  | run i x => exact h.run hok

end

/-! ## Every run -/

/-- In every run whose steps are orderly the recorded switch is that of the enable the card
    carried out last, no switch the card has made is reported as not applied, and reads are
    blocked only while some worker will unblock them. -/
theorem switches_tracked (card : List Profile) (es : List Event) (h : Along World.step World.Orderly { card } es) :
    let w := exec World.step { card } es
    w.Tracked ∧ w.Truthful ∧ w.Unblocked := by
  intro w
  have hinv : Inv w ∧ Lowered w :=
    invariant_along (I := fun w => Inv w ∧ Lowered w) (fun _ _ hi hok => ⟨hi.1.step hok, hi.2.step hok⟩)
      ⟨Inv.init card, nofun⟩ h
  refine ⟨fun c hc => (hinv.1.tracked c hc).imp id And.right, hinv.1.truthful, fun hrel => ?_⟩
  obtain ⟨k, hk⟩ := hinv.2 hrel
  exact ⟨k, willLower_of_lowers hk⟩

/-! ## Two enables at once -/

section

def Event.actor : Event → Nat
  | .enable i _ => i
  | .read i => i
  | .run i _ => i

theorem exec_other {w : World} {j : Nat} {es : List Event} (h : ∀ e ∈ es, e.actor ≠ j) :
    (exec World.step w es).actors j = w.actors j := by
  induction es generalizing w with
  | nil => rfl
  | cons e es ih =>
    have hj := (h e List.mem_cons_self).symm
    rw [exec_cons, ih fun e' he' => h e' (List.mem_cons_of_mem e he')]
    cases e with
    | enable i t =>
      simp only [World.step, World.arrives]
      split
      · exact moved_other hj _
      · rfl
    | read i =>
      simp only [World.step, World.arrives]
      split
      · exact moved_other hj _
      · rfl
    | run i x => exact run_other hj

/-- Nothing the actor is still to do. -/
def Actor.ended : Actor → Bool
  | .idle => true
  | .refused _ _ => true
  | .done => true
  | _ => false

theorem not_willLower {w : World} {i : Nat} (h : (w.actors i).ended = true) (hr : w.inventory.reloading = true) :
    ¬ w.WillLower i := by
  have hstill : ∀ x, w.run i x = w := by
    intro x
    unfold World.run
    cases ha : w.actors i with
    | idle => rfl
    | refused => rfl
    | done => rfl
    | _ => rw [ha] at h; cases h
  have hexec : ∀ zs : List Outside, exec World.step w (zs.map (Event.run i)) = w := by
    intro zs
    induction zs with
    | nil => rfl
    | cons z zs ih => exact (congrArg (fun u => exec World.step u _) (hstill z)).trans ih
  intro hlower
  obtain ⟨zs, -, hdown⟩ := hlower [] (List.replicate 4 { late := true }) rfl (by simp)
  rw [hexec, hr] at hdown
  cases hdown

def home : Profile := ⟨"8949000000000000009", "enabled", "operational"⟩
def travel : Profile := ⟨"8963000000000000001", "disabled", "operational"⟩
def backup : Profile := ⟨"8963000000000000002", "disabled", "operational"⟩

def steps (i n : Nat) (x : Outside) : List Event := List.replicate n (.run i x)

def refusal : Answer := .failed "es10c_enable_profile: result catBusy"

/-- Both requests have passed the checks; the card refuses the first as busy, the second
    succeeds and is on record when the first one's retry reaches the card. -/
def overtaken : List Event :=
  [.enable 0 travel.iccid, .enable 1 backup.iccid] ++ steps 1 2 {} ++ steps 0 8 { answer := refusal } ++
    steps 1 6 {} ++ steps 0 3 {} ++ steps 1 5 {}

/-- Both have passed the checks; the first succeeds, and the card refuses the second as busy
    until its time is over. -/
def stranded : List Event :=
  [.enable 0 travel.iccid, .enable 1 backup.iccid] ++ steps 1 2 {} ++ steps 0 8 {} ++ steps 1 2 {} ++
    steps 1 4 { answer := refusal } ++ steps 0 1 {} ++ steps 1 1 { late := true }

theorem ended_of_stranded (i : Nat) : ((exec World.step { card := [home, travel, backup] } stranded).actors i).ended = true := by
  by_cases h0 : i = 0
  · subst h0; decide +kernel
  · by_cases h1 : i = 1
    · subst h1; decide +kernel
    · have hall : ∀ e ∈ stranded, e.actor = 0 ∨ e.actor = 1 := by decide +kernel
      rw [exec_other fun e he => by have := hall e he; omega]
      rfl

/-- In the first run the switch the card made last ends reported as not applied, on record
    for the other target; in the second reads stay blocked with no worker left. -/
theorem made_switch_not_applied_and_reads_blocked :
    (¬ (exec World.step { card := [home, travel, backup] } overtaken).Tracked ∧
      ¬ (exec World.step { card := [home, travel, backup] } overtaken).Truthful) ∧
    ¬ (exec World.step { card := [home, travel, backup] } stranded).Unblocked := by
  have hlast : (exec World.step { card := [home, travel, backup] } overtaken).last = some ⟨0, travel.iccid, true⟩ := by
    decide +kernel
  refine ⟨⟨fun h => ?_, fun h => ?_⟩, fun h => ?_⟩
  · have := h _ hlast
    revert this
    decide +kernel
  · have := h _ hlast rfl (by decide +kernel)
    revert this
    decide +kernel
  · have hrel : (exec World.step { card := [home, travel, backup] } stranded).inventory.reloading = true := by decide +kernel
    obtain ⟨i, hi⟩ := h hrel
    exact not_willLower (ended_of_stranded i) hrel hi

instance (w : World) : Decidable w.Unrecorded := inferInstanceAs (Decidable (∀ c ∈ w.last, (w.actors c.actor).owed ≠ none))

/-- Orderly without another worker's help. -/
def Plain (w : World) : Event → Bool
  | .run i _ =>
    match w.actors i with
    | .enabling _ (.listed _ _ _) => w.Unrecorded
    | .deferring _ (.listed _ _ _) => w.Unrecorded && !w.inventory.reloading
    | .deferring _ (.unspawned g) => w.switch.generation = g
    | .retrying _ g (.holding _) => w.switch.generation = g
    | .retrying _ g (.accepted _) => w.switch.generation = g
    | _ => true
  | _ => true

theorem orderly_of_plain (w : World) (e : Event) (h : Plain w e = true) : w.Orderly e := by
  cases e with
  | run i x =>
    unfold World.Orderly
    simp only [Plain] at h
    split at h <;> simp_all
  | _ => trivial

/-- A refused switch made on a retry, while a second request is turned away and the list is
    read. -/
def retried : List Event :=
  [.enable 0 travel.iccid] ++ steps 0 8 { answer := refusal } ++ [.enable 1 backup.iccid] ++ steps 1 2 {} ++
    [.read 2] ++ steps 2 4 {} ++ steps 0 10 {}

theorem retried_switch_tracked :
    let w := exec World.step { card := [home, travel, backup] } retried
    (w.Tracked ∧ w.Truthful ∧ w.Unblocked) ∧ w.switch.state = .cardConfirmed ∧ w.switch.target = travel.iccid := by
  have hplain : Along World.step (fun w e => Plain w e = true) { card := [home, travel, backup] } retried := by decide +kernel
  refine ⟨switches_tracked _ _ (along_mono orderly_of_plain hplain), ?_⟩
  decide +kernel

end

end OpenU60.Esim.Switching
