/-
  OpenU60.Esim.Retry — no receipt is left without a worker, and attempts are counted once.

  The worker decides to stop under the lock and lowers `retrying` under it once more; in
  between, and from the moment its last round has picked what to send, a request that finds
  the flag up leaves a receipt to a worker that does nothing more. The thread that raises
  the flag may also fail to start the worker.

  - `receipts_served_iff`: a run serves every request for a retry exactly if each of them
    meets no worker on its way out and no thread still to be started, and no thread fails to
    start while something can be retried. Attempts are counted, and one worker runs at a
    time, in every run.
  - `receipt_left_without_worker`: the request between the decision and the flag.
-/

import OpenU60.Esim.Receipts
import OpenU60.Lib.Machine

namespace OpenU60.Esim.Receipts

open OpenU60.Lib.Machine

/-! ## The saved receipts -/

theorem same_seq {r o : Receipt} (h : r.same o = true) : o.seq = r.seq := by
  simp only [Receipt.same, Bool.and_eq_true, decide_eq_true_eq] at h
  exact h.1.1.1

@[simp] theorem same_refl (r : Receipt) : r.same r = true := by simp [Receipt.same]

namespace Saved

def Numbered (s : Saved) : Prop := (s.receipts.map (·.seq)).Nodup

/-- Entries keep their count, which is reset or goes up by one at number `att`, and a new
    entry has none. -/
def Counts (s s' : Saved) (reset : Bool) (att : Option Nat) : Prop :=
  ∀ r' ∈ s'.receipts,
    (∀ r ∈ s.receipts, r'.same r = true →
      r'.attempts = if reset then 0 else if att = some r.seq then r.attempts + 1 else r.attempts) ∧
    ((∀ r ∈ s.receipts, r'.same r = false) → r'.attempts = 0)

theorem Numbered.unique {s : Saved} (h : s.Numbered) {r o : Receipt} (hr : r ∈ s.receipts) (ho : o ∈ s.receipts)
    (he : r.seq = o.seq) : r = o :=
  List.inj_on_of_nodup_map h hr ho he

theorem counts_refl {s : Saved} (h : s.Numbered) : s.Counts s false none := by
  intro r hr
  refine ⟨fun o ho hs => ?_, fun hno => ?_⟩
  · rw [h.unique hr ho (same_seq hs).symm]
    rfl
  · have := hno r hr
    rw [same_refl] at this
    cases this

theorem counts_of_receipts {s s' : Saved} (h : s.Numbered) (he : s'.receipts = s.receipts) : s.Counts s' false none := by
  unfold Counts
  rw [he]
  exact counts_refl h

theorem merge_receipts (s : Saved) (fresh : List Receipt) (now : Nat) :
    (s.merge fresh now).receipts = fresh.map fun r =>
      match s.receipts.find? r.same with
      | some o => { r with attempts := o.attempts, lastError := o.lastError }
      | none => r := rfl

theorem merge_numbered (s : Saved) (data : Listing) (now : Nat) : (s.merge (receiptViews data) now).Numbered := by
  unfold Numbered
  rw [merge_receipts, List.map_map, receiptViews, List.map_map]
  refine (List.map_congr_left fun n _ => ?_) ▸ data.numbered
  simp only [Function.comp_apply]
  split <;> rfl

theorem merge_counts {s : Saved} (h : s.Numbered) (data : Listing) (now : Nat) :
    s.Counts (s.merge (receiptViews data) now) false none := by
  intro r' hr'
  rw [merge_receipts, List.mem_map] at hr'
  obtain ⟨r, hr, rfl⟩ := hr'
  have huntried : r.attempts = 0 := by
    rw [receiptViews, List.mem_map] at hr
    obtain ⟨n, -, rfl⟩ := hr
    rfl
  cases hf : s.receipts.find? r.same with
  | some o =>
    have hso : r.same o = true := List.find?_some hf
    have ho := List.mem_of_find?_eq_some hf
    refine ⟨fun q hq hs => ?_, fun hno => ?_⟩
    · have hsq : r.same q = true := hs
      have hqo : q = o := h.unique hq ho ((same_seq hsq).trans (same_seq hso).symm)
      rw [hqo]
      rfl
    · have hno' : r.same o = false := hno o ho
      rw [hso] at hno'
      cases hno'
  | none =>
    refine ⟨fun q hq hs => ?_, fun _ => huntried⟩
    have := List.find?_eq_none.mp hf q hq
    exact absurd hs this

theorem failOne_eq_map {seq : Nat} {m : String} {rs : List Receipt} (h : (rs.map (·.seq)).Nodup) :
    failOne seq m rs = rs.map fun r => if r.seq = seq then { r with attempts := r.attempts + 1, lastError := some m } else r := by
  induction rs with
  | nil => rfl
  | cons r rs ih =>
    rw [List.map_cons, List.nodup_cons] at h
    simp only [failOne, List.map_cons]
    by_cases hr : r.seq = seq
    · rw [if_pos hr, if_pos hr]
      refine congrArg _ ?_
      symm
      rw [List.map_congr_left (g := id), List.map_id]
      intro q hq
      have hne : q.seq ≠ seq := fun e => h.1 (List.mem_map.mpr ⟨q, hq, e.trans hr.symm⟩)
      simp only [if_neg hne, id_eq]
    · rw [if_neg hr, if_neg hr, ih h.2]

theorem failed_receipts {s : Saved} (h : s.Numbered) (seq : Nat) (m : String) :
    (s.failed seq m).receipts =
      s.receipts.map fun r => if r.seq = seq then { r with attempts := r.attempts + 1, lastError := some m } else r := by
  cases hp : s.pending with
  | none => simp [failed, receipts, hp]
  | some rs =>
    have hrs : (rs.map (·.seq)).Nodup := by simpa [Numbered, receipts, hp] using h
    simpa [failed, receipts, hp] using failOne_eq_map hrs

theorem accepted_receipts (s : Saved) (seq now : Nat) : (s.accepted seq now).receipts = s.receipts.filter (·.seq ≠ seq) := by
  cases hp : s.pending <;> simp [accepted, receipts, hp]

theorem reset_receipts (s : Saved) : s.reset.receipts = s.receipts.map fun r => { r with attempts := 0 } := by
  cases hp : s.pending <;> simp [reset, receipts, hp]

theorem numbered_map {s s' : Saved} (h : s.Numbered) {f : Receipt → Receipt} (hf : ∀ r, (f r).seq = r.seq)
    (he : s'.receipts = s.receipts.map f) : s'.Numbered := by
  unfold Numbered
  rw [he, List.map_map]
  exact (List.map_congr_left fun r _ => (hf r).symm) ▸ h

theorem counts_map {s s' : Saved} (h : s.Numbered) {f : Receipt → Receipt} {reset : Bool} {att : Option Nat}
    (hsame : ∀ r o, (f r).same o = r.same o) (he : s'.receipts = s.receipts.map f)
    (hf : ∀ r, (f r).attempts = if reset then 0 else if att = some r.seq then r.attempts + 1 else r.attempts) :
    s.Counts s' reset att := by
  intro r' hr'
  rw [he, List.mem_map] at hr'
  obtain ⟨r, hr, rfl⟩ := hr'
  refine ⟨fun q hq hs => ?_, fun hno => ?_⟩
  · rw [hsame] at hs
    rw [h.unique hq hr (same_seq hs), hf]
  · have := hno r hr
    rw [hsame, same_refl] at this
    cases this

theorem accepted_numbered {s : Saved} (h : s.Numbered) (seq now : Nat) : (s.accepted seq now).Numbered := by
  unfold Numbered
  rw [accepted_receipts]
  exact h.sublist (List.Sublist.map _ List.filter_sublist)

theorem accepted_counts {s : Saved} (h : s.Numbered) (seq now : Nat) : s.Counts (s.accepted seq now) false none := by
  intro r hr
  rw [accepted_receipts] at hr
  exact counts_refl h r (List.mem_of_mem_filter hr)

theorem failed_counts {s : Saved} (h : s.Numbered) (seq : Nat) (m : String) : s.Counts (s.failed seq m) false (some seq) := by
  refine counts_map h (fun r o => ?_) (failed_receipts h seq m) fun r => ?_
  · split <;> rfl
  · simp only [Bool.false_eq_true, if_false, Option.some.injEq]
    by_cases hr : r.seq = seq
    · rw [if_pos hr, if_pos hr.symm]
    · rw [if_neg hr, if_neg (Ne.symm hr)]

theorem failed_numbered {s : Saved} (h : s.Numbered) (seq : Nat) (m : String) : (s.failed seq m).Numbered :=
  numbered_map h (fun r => by split <;> rfl) (failed_receipts h seq m)

theorem reset_counts {s : Saved} (h : s.Numbered) : s.Counts s.reset true none :=
  counts_map (f := fun r => { r with attempts := 0 }) h (fun _ _ => rfl) s.reset_receipts fun _ => rfl

theorem reset_numbered {s : Saved} (h : s.Numbered) : s.reset.Numbered :=
  numbered_map (f := fun r => { r with attempts := 0 }) h (fun _ => rfl) s.reset_receipts

end Saved

/-! ## A round -/

namespace SendStep

/-- The number of the receipt that reaches the card and fails. -/
def attempted (x : Outside) : SendStep → Option Nat
  | .sending ((seq, address) :: _) failedServers =>
    if address ∈ failedServers then none
    else
      match x.answer with
      | .failed _ => some seq
      | _ => none
  | _ => none

/-- What is still to be sent is pending, each number once. -/
def Fits (s : Saved) : SendStep → Prop
  | .sending todo _ => (todo.map (·.1)).Nodup ∧ ∀ p ∈ todo, ∃ r ∈ s.receipts, r.seq = p.1
  | _ => True

end SendStep

theorem todo_fits {s : Saved} (h : s.Numbered) : SendStep.Fits s (.sending s.todo []) := by
  refine ⟨?_, fun p hp => ?_⟩
  · rw [Saved.todo, List.map_map]
    exact h.sublist (List.Sublist.map _ List.filter_sublist)
  · rw [Saved.todo, List.mem_map] at hp
    obtain ⟨r, hr, rfl⟩ := hp
    exact ⟨r, List.mem_of_mem_filter hr, rfl⟩

/-- What a statement of a round does to the saved receipts. -/
structure Sends (s s' : Saved) (next : Option SendStep) (att : Option Nat) : Prop where
  retrying : s'.retrying = s.retrying
  numbered : s'.Numbered
  counts : s.Counts s' false att
  fits : ∀ t, next = some t → t.Fits s'
  pending : ∀ seq, att = some seq → (∃ r ∈ s.receipts, r.seq = seq ∧ ∃ r' ∈ s'.receipts, r'.same r = true)

theorem sendReceipts_sends {s : Saved} (h : s.Numbered) {t : SendStep} (ht : t.Fits s) (x : Outside) :
    Sends s (sendReceipts s x t).1 (sendReceipts s x t).2 (t.attempted x) := by
  cases t with
  | listing =>
    simp only [sendReceipts]
    split
    · exact ⟨rfl, h, Saved.counts_refl h, nofun, nofun⟩
    · refine ⟨rfl, s.merge_numbered _ _, Saved.merge_counts h _ _, fun t ht => ?_, nofun⟩
      cases ht
      trivial
  | picking =>
    refine ⟨rfl, h, Saved.counts_of_receipts h rfl, fun t ht => ?_, nofun⟩
    cases ht
    exact todo_fits h
  | relisting =>
    simp only [sendReceipts]
    split
    · exact ⟨rfl, h, Saved.counts_refl h, nofun, nofun⟩
    · exact ⟨rfl, s.merge_numbered _ _, Saved.merge_counts h _ _, nofun, nofun⟩
  | sending todo failedServers =>
    cases todo with
    | nil =>
      refine ⟨rfl, h, Saved.counts_refl h, fun t ht => ?_, nofun⟩
      cases ht
      trivial
    | cons p todo =>
      obtain ⟨seq, address⟩ := p
      obtain ⟨hnodup, hin⟩ := ht
      rw [List.map_cons, List.nodup_cons] at hnodup
      have hrest : ∀ p ∈ todo, ∃ r ∈ s.receipts, r.seq = p.1 := fun p hp => hin p (List.mem_cons_of_mem _ hp)
      simp only [sendReceipts, SendStep.attempted]
      split
      · refine ⟨rfl, h, Saved.counts_refl h, fun t ht => ?_, nofun⟩
        cases ht
        exact ⟨hnodup.2, hrest⟩
      · cases ha : x.answer with
        | notStarted m =>
          refine ⟨rfl, h, Saved.counts_refl h, fun t ht => ?_, nofun⟩
          cases ht
          trivial
        | ok =>
          refine ⟨rfl, Saved.accepted_numbered h _ _, Saved.accepted_counts h _ _, fun t ht => ?_, nofun⟩
          cases ht
          refine ⟨hnodup.2, fun p hp => ?_⟩
          obtain ⟨r, hr, hrp⟩ := hrest p hp
          have hne : r.seq ≠ seq := fun e => hnodup.1 (List.mem_map.mpr ⟨p, hp, hrp.symm.trans e⟩)
          refine ⟨r, ?_, hrp⟩
          rw [Saved.accepted_receipts, List.mem_filter]
          exact ⟨hr, by simpa using hne⟩
        | failed m =>
          refine ⟨rfl, Saved.failed_numbered h _ _, Saved.failed_counts h _ _, fun t ht => ?_, fun q hq => ?_⟩
          · cases ht
            refine ⟨hnodup.2, fun p hp => ?_⟩
            obtain ⟨r, hr, hrp⟩ := hrest p hp
            rw [Saved.failed_receipts h]
            exact ⟨_, List.mem_map.mpr ⟨r, hr, rfl⟩, by split <;> exact hrp⟩
          · cases hq
            obtain ⟨r, hr, hrs⟩ := hin _ List.mem_cons_self
            refine ⟨r, hr, hrs, ?_⟩
            rw [Saved.failed_receipts h]
            exact ⟨_, List.mem_map.mpr ⟨r, hr, rfl⟩, by split <;> exact same_refl r⟩

/-! ## The card and the receipts -/

namespace Request

/-- It has raised `retrying` and is still to start the worker, or to lower it. -/
def raising : Request → Bool
  | .spawning => true
  | .unspawned => true
  | _ => false

/-- It holds the card. -/
def holds : Request → Bool
  | .listing => true
  | .sending _ _ => true
  | .resetting => true
  | .starting => true
  | _ => false

end Request

namespace Worker

def live : Worker → Bool
  | .none => false
  | .done => false
  | _ => true

def holds : Worker → Bool
  | .sending _ _ => true
  | _ => false

/-- It begins no further round. -/
def ending : Worker → Bool
  | .sending 0 _ => true
  | .checking 0 => true
  | .stopping => true
  | _ => false

end Worker

namespace World

def holds (w : World) : Holder → Bool
  | .request i => (w.requests i).holds
  | .worker j => (w.workers j).holds

def charged (w : World) : Holder → Bool
  | .request i => (w.requests i).raising
  | .worker j => (w.workers j).live

def round (w : World) : Holder → Option SendStep
  | .request i =>
    match w.requests i with
    | .sending t _ => some t
    | _ => none
  | .worker j =>
    match w.workers j with
    | .sending _ t => some t
    | _ => none

def attempted (w : World) : Event → Option Nat
  | .run i x => (w.round (.request i)).bind (·.attempted x)
  | .work j x => (w.round (.worker j)).bind (·.attempted x)
  | _ => none

/-- The explicit request for another try. -/
def resets (w : World) : Event → Bool
  | .run i _ =>
    match w.requests i with
    | .resetting => true
    | _ => false
  | _ => false

/-- The call of `ensure_receipt_retry` returns. -/
def returns (w : World) : Event → Bool
  | .run i x =>
    match w.requests i with
    | .ensuring => w.saved.retrying || !w.saved.retryable
    | .spawning => x.spawned
    | .unspawned => true
    | _ => false
  | _ => false

/-- The worker begins another round, unless nothing is left to retry. -/
def WillTry (w : World) (j : Nat) : Prop :=
  Inevitable World.step (Event.work j) (fun w' => w.rounds j < w'.rounds j ∨ w'.saved.retryable = false) w

def Served (w : World) (e : Event) : Prop :=
  w.returns e = true → (w.step e).saved.retryable = true → ∃ j, (w.step e).WillTry j

def OneWorker (w : World) : Prop := ∀ j k, (w.workers j).live = true → (w.workers k).live = true → j = k

/-- Exactly the receipt that reached the card and failed counts one more, and counts fall
    only on request. -/
def Counted (w : World) (e : Event) : Prop :=
  (∀ seq, w.attempted e = some seq →
    ∃ r ∈ w.saved.receipts, r.seq = seq ∧ ∃ r' ∈ (w.step e).saved.receipts, r'.same r = true) ∧
  w.saved.Counts (w.step e).saved (w.resets e) (w.attempted e)

def Proper (w : World) (e : Event) : Prop := w.Served e ∧ (w.step e).OneWorker ∧ w.Counted e

/-- A call that finds the flag up with something to retry meets neither a worker that begins
    no further round nor a thread that is still to start one, and no start fails with
    something to retry. -/
def Orderly (w : World) : Event → Prop
  | .run i _ =>
    match w.requests i with
    | .ensuring =>
      w.saved.retrying = true → w.saved.retryable = true →
        (∀ k, (w.requests k).raising = false) ∧ ∀ j, (w.workers j).ending = false
    | .unspawned => w.saved.retryable = false
    | _ => True
  | _ => True

end World

structure Inv (w : World) : Prop where
  numbered : w.saved.Numbered
  guard : ∀ a, w.holds a = true → w.busy = some a
  fits : ∀ a t, w.round a = some t → t.Fits w.saved
  one : ∀ a b, w.charged a = true → w.charged b = true → a = b
  flag : w.saved.retrying = true ↔ ∃ a, w.charged a = true
  fresh : ∀ i, w.workers i ≠ .none → w.requests i = .done

theorem Inv.init : Inv {} where
  numbered := List.nodup_nil
  guard a h := by cases a <;> cases h
  fits a t h := by cases a <;> cases h
  one a b h := by cases a <;> cases h
  flag := by
    refine ⟨nofun, ?_⟩
    rintro ⟨a, h⟩
    cases a <;> cases h
  fresh i h := absurd rfl h

section

variable {w w' : World} {a : Holder}

theorem holds_of_round {t : SendStep} (h : w.round a = some t) : w.holds a = true := by
  cases a with
  | request i => unfold World.round at h; unfold World.holds; cases hr : w.requests i <;> simp_all [Request.holds]
  | worker j => unfold World.round at h; unfold World.holds; cases hr : w.workers j <;> simp_all [Worker.holds]

theorem SendStep.Fits.congr {s s' : Saved} (h : s'.receipts = s.receipts) {t : SendStep} (ht : t.Fits s) : t.Fits s' := by
  cases t with
  | sending todo failedServers => exact ⟨ht.1, h ▸ ht.2⟩
  | _ => trivial

/-- What thread `a` leaves of the others, of the card and of the flag. -/
structure Moves (w w' : World) (a : Holder) : Prop where
  requests : ∀ i, .request i ≠ a → w'.requests i = w.requests i
  workers : ∀ j, .worker j ≠ a → w'.workers j = w.workers j
  busy : w'.busy = w.busy ∨ w.busy = none ∧ w'.busy = some a ∨ w.holds a = true ∧ w'.busy = none
  holds : w'.holds a = true → w'.busy = some a
  receipts : w.holds a = true ∨ w'.saved.receipts = w.saved.receipts
  flag : w'.charged a = w.charged a ∧ w'.saved.retrying = w.saved.retrying ∨
    w.saved.retrying = false ∧ w'.charged a = true ∧ w'.saved.retrying = true ∨
    w.charged a = true ∧ w'.charged a = false ∧ w'.saved.retrying = false

theorem Moves.charged (m : Moves w w' a) {b : Holder} (h : b ≠ a) : w'.charged b = w.charged b := by
  cases b with
  | request i => simp only [World.charged, m.requests i h]
  | worker j => simp only [World.charged, m.workers j h]

theorem Moves.round (m : Moves w w' a) {b : Holder} (h : b ≠ a) : w'.round b = w.round b := by
  cases b with
  | request i => simp only [World.round, m.requests i h]
  | worker j => simp only [World.round, m.workers j h]

theorem Moves.holds_other (m : Moves w w' a) {b : Holder} (h : b ≠ a) : w'.holds b = w.holds b := by
  cases b with
  | request i => simp only [World.holds, m.requests i h]
  | worker j => simp only [World.holds, m.workers j h]

theorem Inv.moves (h : Inv w) (m : Moves w w' a) (hn : w'.saved.Numbered) (hf : ∀ t, w'.round a = some t → t.Fits w'.saved)
    (hfresh : ∀ i, w'.workers i ≠ .none → w'.requests i = .done) : Inv w' where
  numbered := hn
  guard := by
    intro b hb
    by_cases hba : b = a
    · rw [hba] at hb ⊢
      exact m.holds hb
    · rw [m.holds_other hba] at hb
      have hheld := h.guard b hb
      rcases m.busy with hbusy | ⟨hfree, -⟩ | ⟨ha, -⟩
      · rw [hbusy, hheld]
      · rw [hfree] at hheld
        cases hheld
      · rw [h.guard a ha] at hheld
        exact absurd (Option.some.inj hheld).symm hba
  fits := by
    intro b t hb
    by_cases hba : b = a
    · exact hf t (hba ▸ hb)
    · rw [m.round hba] at hb
      rcases m.receipts with ha | hsame
      · -- the card has one holder
        have hheld := h.guard b (holds_of_round hb)
        rw [h.guard a ha] at hheld
        exact absurd (Option.some.inj hheld).symm hba
      · exact (h.fits b t hb).congr hsame
  one := by
    have hother : ∀ b, b ≠ a → w'.charged b = true → w.charged b = true := fun b hba hb => m.charged hba ▸ hb
    intro b c hb hc
    by_cases hba : b = a
    · by_cases hca : c = a
      · rw [hba, hca]
      · have hc' := hother c hca hc
        rcases m.flag with ⟨hsame, -⟩ | ⟨hdown, -⟩ | ⟨-, hno, -⟩
        · exact h.one b c (by rw [hba, ← hsame, ← hba]; exact hb) hc'
        · have := h.flag.mpr ⟨c, hc'⟩
          rw [hdown] at this
          cases this
        · rw [hba, hno] at hb
          cases hb
    · have hb' := hother b hba hb
      by_cases hca : c = a
      · rcases m.flag with ⟨hsame, -⟩ | ⟨hdown, -⟩ | ⟨-, hno, -⟩
        · exact h.one b c hb' (by rw [hca, ← hsame, ← hca]; exact hc)
        · have := h.flag.mpr ⟨b, hb'⟩
          rw [hdown] at this
          cases this
        · rw [hca, hno] at hc
          cases hc
      · exact h.one b c hb' (hother c hca hc)
  flag := by
    have hother : ∀ b, b ≠ a → w'.charged b = w.charged b := fun b hba => m.charged hba
    rcases m.flag with ⟨hsame, hflag⟩ | ⟨-, hup, hflag⟩ | ⟨hon, hoff, hflag⟩
    · have hall : ∀ b, w'.charged b = w.charged b := fun b => by
        by_cases hba : b = a
        · rw [hba, hsame]
        · exact hother b hba
      simp only [hflag, hall]
      exact h.flag
    · simp only [hflag, true_iff]
      exact ⟨a, hup⟩
    · simp only [hflag, Bool.false_eq_true, false_iff, not_exists]
      intro b hb
      by_cases hba : b = a
      · rw [hba, hoff] at hb
        cases hb
      · rw [hother b hba] at hb
        exact hba (h.one b a hb hon)
  fresh := hfresh

section

variable {u : World} {i j : Nat} {b r : Request} {d k : Worker}

@[simp] theorem requested_self (w : World) (i : Nat) (r : Request) : (w.requested i r).requests i = r := Function.update_self ..

@[simp] theorem worked_self (w : World) (j : Nat) (k : Worker) : (w.worked j k).workers j = k := Function.update_self ..

theorem requested_other {w : World} {k i : Nat} (h : k ≠ i) (r : Request) : (w.requested i r).requests k = w.requests k :=
  Function.update_of_ne h ..

theorem worked_other {w : World} {i j : Nat} (h : i ≠ j) (k : Worker) : (w.worked j k).workers i = w.workers i :=
  Function.update_of_ne h ..

theorem Inv.request (h : Inv w) (hb : w.requests i = b) (hnd : b ≠ .done) (hreq : u.requests = w.requests)
    (hwork : u.workers = w.workers)
    (hbusy : u.busy = w.busy ∨ w.busy = none ∧ u.busy = some (.request i) ∨ b.holds = true ∧ u.busy = none)
    (hholds : r.holds = true → u.busy = some (.request i))
    (hrec : b.holds = true ∨ u.saved.receipts = w.saved.receipts)
    (hflag : r.raising = b.raising ∧ u.saved.retrying = w.saved.retrying ∨
      w.saved.retrying = false ∧ r.raising = true ∧ u.saved.retrying = true ∨
      b.raising = true ∧ r.raising = false ∧ u.saved.retrying = false)
    (hn : u.saved.Numbered) (hf : ∀ t e, r = .sending t e → t.Fits u.saved) : Inv (u.requested i r) := by
  have hnone : w.workers i = .none := by
    by_contra hw
    exact hnd (hb ▸ h.fresh i hw)
  refine h.moves (a := .request i) ⟨?_, ?_, ?_, ?_, ?_, ?_⟩ hn ?_ ?_
  · intro k hk
    rw [requested_other fun e => hk (congrArg _ e), hreq]
  · intro k _
    exact congrFun hwork k
  · rw [World.holds, hb]; exact hbusy
  · rw [World.holds, requested_self]; exact hholds
  · rw [World.holds, hb]; exact hrec
  · rw [World.charged, World.charged, hb, requested_self]; exact hflag
  · intro t ht
    simp only [World.round, requested_self] at ht
    split at ht
    · cases ht
      exact hf t _ rfl
    · cases ht
  · intro k hk
    have hk' : w.workers k ≠ .none := by rw [← hwork]; exact hk
    have hki : k ≠ i := fun e => hk' (e ▸ hnone)
    rw [requested_other hki, hreq]
    exact h.fresh k hk'

theorem Inv.worker (h : Inv w) (hd : w.workers j = d) (hnn : d ≠ .none) (hreq : u.requests = w.requests)
    (hwork : u.workers = w.workers)
    (hbusy : u.busy = w.busy ∨ w.busy = none ∧ u.busy = some (.worker j) ∨ d.holds = true ∧ u.busy = none)
    (hholds : k.holds = true → u.busy = some (.worker j))
    (hrec : d.holds = true ∨ u.saved.receipts = w.saved.receipts)
    (hflag : k.live = d.live ∧ u.saved.retrying = w.saved.retrying ∨
      d.live = true ∧ k.live = false ∧ u.saved.retrying = false)
    (hn : u.saved.Numbered) (hf : ∀ n t, k = .sending n t → t.Fits u.saved) : Inv (u.worked j k) := by
  have hdone : w.requests j = .done := h.fresh j (hd ▸ hnn)
  refine h.moves (a := .worker j) ⟨?_, ?_, ?_, ?_, ?_, ?_⟩ hn ?_ ?_
  · intro i _
    exact congrFun hreq i
  · intro i hi
    rw [worked_other fun e => hi (congrArg _ e), hwork]
  · rw [World.holds, hd]; exact hbusy
  · rw [World.holds, worked_self]; exact hholds
  · rw [World.holds, hd]; exact hrec
  · rw [World.charged, World.charged, hd, worked_self]
    exact hflag.imp id .inr
  · intro t ht
    simp only [World.round, worked_self] at ht
    split at ht
    · cases ht
      exact hf _ t rfl
    · cases ht
  · intro i hi
    show u.requests i = .done
    rw [hreq]
    by_cases hij : i = j
    · rw [hij, hdone]
    · refine h.fresh i ?_
      rw [worked_other hij, hwork] at hi
      exact hi

end

end

/-! ## The steps keep it -/

section

variable {w : World} {i j : Nat} {x : Outside}

theorem Inv.asks (h : Inv w) {r : Request} (hr : r.raising = false) (hf : ∀ t e, r = .sending t e → t = .listing) :
    Inv (w.asks i x r) := by
  unfold World.asks
  split
  · rename_i hb
    split
    · rename_i hfree
      have hnone : w.busy = none := by
        simp only [World.free, Bool.and_eq_true, Option.isNone_iff_eq_none] at hfree
        exact hfree.1
      refine h.request hb nofun rfl rfl (.inr (.inl ⟨hnone, rfl⟩)) (fun _ => rfl) (.inr rfl) (.inl ⟨hr, rfl⟩) h.numbered ?_
      intro t e ht
      rw [hf t e ht]
      trivial
    · exact h.request hb nofun rfl rfl (.inl rfl) nofun (.inr rfl) (.inl ⟨rfl, rfl⟩) h.numbered nofun
  · exact h

/-- The started worker takes over from the thread that has raised the flag. -/
theorem Inv.spawns (h : Inv w) (hb : w.requests i = .spawning) (left : Nat) :
    Inv ((w.worked i (.sleeping left)).requested i .done) := by
  have hnone : w.workers i = .none := by
    by_contra hw
    have := h.fresh i hw
    rw [hb] at this
    cases this
  have hcharged : w.charged (.request i) = true := by simp only [World.charged, hb, Request.raising]
  have hon : w.saved.retrying = true := h.flag.mpr ⟨_, hcharged⟩
  -- every charge but the new worker's was there before
  have hold : ∀ a, ((w.worked i (.sleeping left)).requested i .done).charged a = true →
      a = .worker i ∨ w.charged a = true ∧ a ≠ .request i := by
    intro a ha
    cases a with
    | request k =>
      by_cases hk : k = i
      · rw [hk, World.charged, requested_self] at ha
        cases ha
      · rw [World.charged, requested_other hk] at ha
        exact .inr ⟨ha, fun e => hk (Holder.request.inj e)⟩
    | worker k =>
      by_cases hk : k = i
      · exact .inl (by rw [hk])
      · have hk' : ((w.worked i (.sleeping left)).requested i .done).workers k = w.workers k := worked_other hk _
        rw [World.charged, hk'] at ha
        exact .inr ⟨ha, nofun⟩
  have hquiet : ∀ a, a ≠ .request i → a ≠ .worker i →
      ((w.worked i (.sleeping left)).requested i .done).holds a = w.holds a ∧
        ((w.worked i (.sleeping left)).requested i .done).round a = w.round a := by
    intro a h1 h2
    cases a with
    | request k =>
      have hk : k ≠ i := fun e => h1 (by rw [e])
      have hk' : ((w.worked i (.sleeping left)).requested i .done).requests k = w.requests k := requested_other hk _
      simp only [World.holds, World.round, hk', and_self]
    | worker k =>
      have hk : k ≠ i := fun e => h2 (by rw [e])
      have hk' : ((w.worked i (.sleeping left)).requested i .done).workers k = w.workers k := worked_other hk _
      simp only [World.holds, World.round, hk', and_self]
  have hself : ((w.worked i (.sleeping left)).requested i .done).workers i = .sleeping left := worked_self w i _
  refine ⟨h.numbered, fun a ha => ?_, fun a t ha => ?_, fun a b ha hb' => ?_, ?_, fun k hk => ?_⟩
  · by_cases h1 : a = .request i
    · rw [h1, World.holds, requested_self] at ha
      cases ha
    · by_cases h2 : a = .worker i
      · rw [h2, World.holds, hself] at ha
        cases ha
      · rw [(hquiet a h1 h2).1] at ha
        exact h.guard a ha
  · by_cases h1 : a = .request i
    · rw [h1] at ha
      simp only [World.round, requested_self] at ha
      cases ha
    · by_cases h2 : a = .worker i
      · rw [h2] at ha
        simp only [World.round, hself] at ha
        cases ha
      · rw [(hquiet a h1 h2).2] at ha
        exact h.fits a t ha
  · rcases hold a ha with rfl | ⟨ha, hna⟩
    · rcases hold b hb' with rfl | ⟨hb', hnb⟩
      · rfl
      · exact absurd (h.one b _ hb' hcharged) hnb
    · exact absurd (h.one a _ ha hcharged) hna
  · refine ⟨fun _ => ⟨.worker i, ?_⟩, fun _ => hon⟩
    rw [World.charged, hself]
    rfl
  · by_cases hki : k = i
    · rw [hki, requested_self]
    · have hk' : ((w.worked i (.sleeping left)).requested i .done).workers k = w.workers k := worked_other hki _
      rw [hk'] at hk
      rw [requested_other hki]
      exact h.fresh k hk

theorem Inv.run (h : Inv w) : Inv (w.run i x) := by
  unfold World.run
  cases hb : w.requests i with
  | idle => exact h
  | done => exact h
  | listing =>
    dsimp only
    split
    · exact h.request hb nofun rfl rfl (.inr (.inr ⟨rfl, rfl⟩)) nofun (.inr rfl) (.inl ⟨rfl, rfl⟩) h.numbered nofun
    · exact h.request hb nofun rfl rfl (.inr (.inr ⟨rfl, rfl⟩)) nofun (.inl rfl) (.inl ⟨rfl, rfl⟩)
        (Saved.merge_numbered _ _ _) nofun
  | sending t ensures =>
    have hfit := h.fits (.request i) t (by simp only [World.round, hb])
    have hs := sendReceipts_sends h.numbered hfit x
    dsimp only
    split
    · rename_i t' ht'
      refine h.request hb nofun rfl rfl (.inl rfl) (fun _ => h.guard (.request i) ?_) (.inl rfl) (.inl ⟨rfl, hs.retrying⟩)
        hs.numbered ?_
      · simp only [World.holds, hb, Request.holds]
      · intro t e he
        cases he
        exact hs.fits _ ht'
    · refine h.request hb nofun rfl rfl (.inr (.inr ⟨rfl, rfl⟩)) ?_ (.inl rfl) (.inl ⟨?_, hs.retrying⟩) hs.numbered ?_
      · cases ensures <;> nofun
      · cases ensures <;> rfl
      · cases ensures <;> nofun
  | resetting =>
    exact h.request hb nofun rfl rfl (.inl rfl) (fun _ => h.guard (.request i) (by simp only [World.holds, hb, Request.holds]))
      (.inl rfl) (.inl ⟨rfl, rfl⟩) (Saved.reset_numbered h.numbered) nofun
  | starting =>
    dsimp only
    split
    · refine h.request hb nofun rfl rfl (.inl rfl) (fun _ => h.guard (.request i) ?_) (.inr rfl) (.inl ⟨rfl, rfl⟩) h.numbered ?_
      · simp only [World.holds, hb, Request.holds]
      · intro t e he
        cases he
        trivial
    · exact h.request hb nofun rfl rfl (.inr (.inr ⟨rfl, rfl⟩)) nofun (.inr rfl) (.inl ⟨rfl, rfl⟩) h.numbered nofun
  | ensuring =>
    dsimp only
    split
    · exact h.request hb nofun rfl rfl (.inl rfl) nofun (.inr rfl) (.inl ⟨rfl, rfl⟩) h.numbered nofun
    · rename_i hno
      have hdown : w.saved.retrying = false := by simp only [Bool.or_eq_true, not_or, Bool.not_eq_true] at hno; exact hno.1
      exact h.request hb nofun rfl rfl (.inl rfl) nofun (.inr rfl) (.inr (.inl ⟨hdown, rfl, rfl⟩)) h.numbered nofun
  | spawning =>
    dsimp only
    split
    · exact h.spawns hb _
    · exact h.request hb nofun rfl rfl (.inl rfl) nofun (.inr rfl) (.inl ⟨rfl, rfl⟩) h.numbered nofun
  | unspawned =>
    exact h.request hb nofun rfl rfl (.inl rfl) nofun (.inr rfl) (.inr (.inr ⟨rfl, rfl, rfl⟩)) h.numbered nofun

theorem Inv.work (h : Inv w) : Inv (w.work j x) := by
  unfold World.work
  cases hd : w.workers j with
  | none => exact h
  | done => exact h
  | sleeping left =>
    dsimp only
    split
    · rename_i hgo
      have hnone : w.busy = none := by
        simp only [World.free, Bool.and_eq_true, Option.isNone_iff_eq_none] at hgo
        exact hgo.2.1
      refine h.worker hd nofun rfl rfl (.inr (.inl ⟨hnone, rfl⟩)) (fun _ => rfl) (.inr rfl) (.inl ⟨rfl, rfl⟩) h.numbered ?_
      intro n t ht
      cases ht
      trivial
    · exact h.worker hd nofun rfl rfl (.inl rfl) nofun (.inr rfl) (.inl ⟨rfl, rfl⟩) h.numbered nofun
  | sending left t =>
    have hfit := h.fits (.worker j) t (by simp only [World.round, hd])
    have hs := sendReceipts_sends h.numbered hfit x
    dsimp only
    split
    · rename_i t' ht'
      refine h.worker hd nofun rfl rfl (.inl rfl) (fun _ => h.guard (.worker j) ?_) (.inl rfl) (.inl ⟨rfl, hs.retrying⟩)
        hs.numbered ?_
      · simp only [World.holds, hd, Worker.holds]
      · intro n t ht
        cases ht
        exact hs.fits _ ht'
    · exact h.worker hd nofun rfl rfl (.inr (.inr ⟨rfl, rfl⟩)) nofun (.inl rfl) (.inl ⟨rfl, hs.retrying⟩) hs.numbered nofun
  | checking left =>
    dsimp only
    split
    · exact h.worker hd nofun rfl rfl (.inl rfl) nofun (.inr rfl) (.inl ⟨rfl, rfl⟩) h.numbered nofun
    · split <;> exact h.worker hd nofun rfl rfl (.inl rfl) nofun (.inr rfl) (.inl ⟨rfl, rfl⟩) h.numbered nofun
  | stopping =>
    exact h.worker hd nofun rfl rfl (.inl rfl) nofun (.inr rfl) (.inr ⟨rfl, rfl, rfl⟩) h.numbered nofun

theorem Inv.step (h : Inv w) (e : Event) : Inv (w.step e) := by
  cases e with
  | list i x => exact h.asks rfl nofun
  | send i x => exact h.asks rfl fun _ _ he => by cases he; rfl
  | process i x =>
    show Inv (w.notificationsProcess i x)
    unfold World.notificationsProcess
    split
    · rename_i hb
      split
      · exact h.request hb nofun rfl rfl (.inl rfl) nofun (.inr rfl) (.inl ⟨rfl, rfl⟩) h.numbered nofun
      · exact h.asks rfl nofun
    · exact h
  | ensure i =>
    show Inv (w.ensureReceiptRetry i)
    unfold World.ensureReceiptRetry
    split
    · rename_i hb
      exact h.request hb nofun rfl rfl (.inl rfl) nofun (.inr rfl) (.inl ⟨rfl, rfl⟩) h.numbered nofun
    · exact h
  | run i x => exact h.run
  | work j x => exact h.work

theorem Inv.oneWorker (h : Inv w) : w.OneWorker := fun j k hj hk => Holder.worker.inj (h.one (.worker j) (.worker k) hj hk)

/-! ## Attempts -/

theorem counted_of_receipts (h : Inv w) {e : Event} (hatt : w.attempted e = none) (hres : w.resets e = false)
    (hs : (w.step e).saved.receipts = w.saved.receipts) : w.Counted e := by
  refine ⟨fun seq hq => ?_, ?_⟩
  · rw [hatt] at hq
    cases hq
  · rw [hatt, hres]
    exact Saved.counts_of_receipts h.numbered hs

theorem asks_receipts (w : World) (i : Nat) (x : Outside) (r : Request) : (w.asks i x r).saved = w.saved := by
  unfold World.asks
  split
  · split <;> rfl
  · rfl

theorem Inv.counted_run (h : Inv w) (i : Nat) (x : Outside) : w.Counted (.run i x) := by
  cases hb : w.requests i with
  | listing =>
    refine ⟨fun seq hq => ?_, ?_⟩
    · simp only [World.attempted, World.round, hb, Option.bind_none] at hq
      cases hq
    · simp only [World.attempted, World.round, World.resets, hb, Option.bind_none, World.step, World.run]
      split
      · exact Saved.counts_refl h.numbered
      · exact Saved.merge_counts h.numbered _ _
  | sending t ensures =>
    have hfit := h.fits (.request i) t (by simp only [World.round, hb])
    have hs := sendReceipts_sends h.numbered hfit x
    have hsaved : (w.step (.run i x)).saved = (sendReceipts w.saved x t).1 := by
      simp only [World.step, World.run, hb]
      split <;> rfl
    have hatt : w.attempted (.run i x) = t.attempted x := by simp only [World.attempted, World.round, hb, Option.bind_some]
    have hres : w.resets (.run i x) = false := by simp only [World.resets, hb]
    rw [World.Counted, hsaved, hatt, hres]
    exact ⟨hs.pending, hs.counts⟩
  | resetting =>
    refine ⟨fun seq hq => ?_, ?_⟩
    · simp only [World.attempted, World.round, hb, Option.bind_none] at hq
      cases hq
    · simp only [World.attempted, World.round, World.resets, hb, Option.bind_none, World.step, World.run]
      exact Saved.reset_counts h.numbered
  | _ =>
    refine counted_of_receipts h (by simp only [World.attempted, World.round, hb, Option.bind_none])
      (by simp only [World.resets, hb]) ?_
    simp only [World.step, World.run, hb]
    try split
    all_goals rfl

theorem Inv.counted_work (h : Inv w) (j : Nat) (x : Outside) : w.Counted (.work j x) := by
  cases hd : w.workers j with
  | sending left t =>
    have hfit := h.fits (.worker j) t (by simp only [World.round, hd])
    have hs := sendReceipts_sends h.numbered hfit x
    have hsaved : (w.step (.work j x)).saved = (sendReceipts w.saved x t).1 := by
      simp only [World.step, World.work, hd]
      split <;> rfl
    have hatt : w.attempted (.work j x) = t.attempted x := by simp only [World.attempted, World.round, hd, Option.bind_some]
    rw [World.Counted, hsaved, hatt]
    exact ⟨hs.pending, hs.counts⟩
  | checking left =>
    refine counted_of_receipts h (by simp only [World.attempted, World.round, hd, Option.bind_none]) rfl ?_
    simp only [World.step, World.work, hd]
    split
    · rfl
    · split <;> rfl
  | _ =>
    refine counted_of_receipts h (by simp only [World.attempted, World.round, hd, Option.bind_none]) rfl ?_
    simp only [World.step, World.work, hd]
    try split
    all_goals rfl

theorem Inv.counted (h : Inv w) (e : Event) : w.Counted e := by
  cases e with
  | list i x => exact counted_of_receipts h rfl rfl (congrArg _ (asks_receipts ..))
  | send i x => exact counted_of_receipts h rfl rfl (congrArg _ (asks_receipts ..))
  | process i x =>
    refine counted_of_receipts h rfl rfl (congrArg _ ?_)
    show (w.notificationsProcess i x).saved = _
    unfold World.notificationsProcess
    split
    · split
      · rfl
      · exact asks_receipts ..
    · rfl
  | ensure i =>
    refine counted_of_receipts h rfl rfl (congrArg _ ?_)
    show (w.ensureReceiptRetry i).saved = _
    unfold World.ensureReceiptRetry
    split <;> rfl
  | run i x => exact h.counted_run i x
  | work j x => exact h.counted_work j x

end

/-! ## A worker that still has a round to begin -/

section

variable {w : World} {j n left : Nat}

abbrev Tries (j n : Nat) (w : World) : Prop :=
  Inevitable World.step (Event.work j) (fun w' => n < w'.rounds j ∨ w'.saved.retryable = false) w

theorem work_sending {t : SendStep} (hd : w.workers j = .sending left t) (x : Outside) :
    (w.step (.work j x)).saved = (sendReceipts w.saved x t).1 ∧ (w.step (.work j x)).rounds = w.rounds ∧
      (w.step (.work j x)).workers j =
        match (sendReceipts w.saved x t).2 with
        | some t => .sending left t
        | none => .checking left := by
  simp only [World.step, World.work, hd]
  cases (sendReceipts w.saved x t).2 with
  | some t => exact ⟨rfl, rfl, worked_self ..⟩
  | none => exact ⟨rfl, rfl, worked_self ..⟩

theorem tries_sleeping (hd : w.workers j = .sleeping left) (hn : n ≤ w.rounds j) : Tries j n w := by
  refine .next fun x => .here (.inl ?_)
  simp only [World.step, World.work, hd]
  have hup : Function.update w.rounds j (w.rounds j + 1) j = w.rounds j + 1 := Function.update_self ..
  split <;> simp only [World.worked, hup] <;> omega

theorem tries_checking (hd : w.workers j = .checking (left + 1)) (hn : n ≤ w.rounds j) : Tries j n w := by
  by_cases hr : w.saved.retryable = true
  · refine .next fun x => ?_
    have hstep : w.step (.work j x) = w.worked j (.sleeping left) := by
      simp only [World.step, World.work, hd, hr, Bool.not_true, Bool.false_eq_true, if_false]
    rw [hstep]
    exact tries_sleeping (worked_self ..) hn
  · exact .here (.inr (Bool.not_eq_true _ ▸ hr))

theorem tries_relisting (hd : w.workers j = .sending (left + 1) .relisting) (hn : n ≤ w.rounds j) : Tries j n w := by
  refine .next fun x => ?_
  obtain ⟨-, hrounds, hw⟩ := work_sending hd x
  refine tries_checking (?_ : _ = Worker.checking (left + 1)) (hrounds ▸ hn)
  rw [hw]
  simp only [sendReceipts]
  cases x.listing <;> rfl

theorem tries_sending {todo : List (Nat × String)} {failedServers : List String}
    (hd : w.workers j = .sending (left + 1) (.sending todo failedServers)) (hn : n ≤ w.rounds j) : Tries j n w := by
  induction todo generalizing w failedServers with
  | nil =>
    refine .next fun x => ?_
    obtain ⟨-, hrounds, hw⟩ := work_sending hd x
    exact tries_relisting hw (hrounds ▸ hn)
  | cons p todo ih =>
    obtain ⟨seq, address⟩ := p
    refine .next fun x => ?_
    obtain ⟨-, hrounds, hw⟩ := work_sending hd x
    simp only [sendReceipts] at hw
    by_cases hf : address ∈ failedServers
    · rw [if_pos hf] at hw
      exact ih hw (hrounds ▸ hn)
    · rw [if_neg hf] at hw
      cases ha : x.answer with
      | ok =>
        simp only [ha] at hw
        exact ih hw (hrounds ▸ hn)
      | failed m =>
        simp only [ha] at hw
        exact ih hw (hrounds ▸ hn)
      | notStarted m =>
        simp only [ha] at hw
        exact tries_relisting hw (hrounds ▸ hn)

theorem tries_round {t : SendStep} (hd : w.workers j = .sending (left + 1) t) (hn : n ≤ w.rounds j) : Tries j n w := by
  have hpicking : ∀ {w : World}, w.workers j = .sending (left + 1) .picking → n ≤ w.rounds j → Tries j n w := by
    intro w hd hn
    refine .next fun x => ?_
    obtain ⟨-, hrounds, hw⟩ := work_sending hd x
    exact tries_sending hw (hrounds ▸ hn)
  cases t with
  | listing =>
    refine .next fun x => ?_
    obtain ⟨-, hrounds, hw⟩ := work_sending hd x
    simp only [sendReceipts] at hw
    cases hl : x.listing with
    | none =>
      simp only [hl] at hw
      exact tries_checking hw (hrounds ▸ hn)
    | some data =>
      simp only [hl] at hw
      exact hpicking hw (hrounds ▸ hn)
  | picking => exact hpicking hd hn
  | sending todo failedServers => exact tries_sending hd hn
  | relisting => exact tries_relisting hd hn

theorem willTry_of_live (hl : (w.workers j).live = true) (he : (w.workers j).ending = false) : w.WillTry j := by
  cases hd : w.workers j with
  | none => rw [hd] at hl; cases hl
  | done => rw [hd] at hl; cases hl
  | stopping => rw [hd] at he; cases he
  | sleeping left => exact tries_sleeping hd (Nat.le_refl _)
  | checking left =>
    cases left with
    | zero => rw [hd] at he; cases he
    | succ left => exact tries_checking hd (Nat.le_refl _)
  | sending left t =>
    cases left with
    | zero => rw [hd] at he; cases he
    | succ left => exact tries_round hd (Nat.le_refl _)

/-- What a round finds when nothing answers. -/
def nothing : Outside := { answer := .notStarted "" }

theorem sendReceipts_nothing (s : Saved) (t : SendStep) : (sendReceipts s nothing t).1.retryable = s.retryable := by
  cases t with
  | listing => rfl
  | picking => rfl
  | relisting => rfl
  | sending todo failedServers =>
    cases todo with
    | nil => rfl
    | cons p todo =>
      simp only [sendReceipts, nothing]
      split <;> rfl

/-- A worker on its way out, or none at all, need not begin a round. -/
theorem not_willTry (hr : w.saved.retryable = true) (he : (w.workers j).live = true → (w.workers j).ending = true) :
    ¬ w.WillTry j := by
  refine not_inevitable
    (T := fun w' => w'.rounds j = w.rounds j ∧ w'.saved.retryable = true ∧ ((w'.workers j).live = true → (w'.workers j).ending = true))
    ?_ ?_ ⟨rfl, hr, he⟩
  · rintro v ⟨hn, hr, he⟩
    refine ⟨nothing, ?_⟩
    cases hd : v.workers j with
    | none =>
      have hstep : v.step (.work j nothing) = v := by simp only [World.step, World.work, hd]
      rw [hstep]
      exact ⟨hn, hr, he⟩
    | done =>
      have hstep : v.step (.work j nothing) = v := by simp only [World.step, World.work, hd]
      rw [hstep]
      exact ⟨hn, hr, he⟩
    | sleeping left =>
      rw [hd] at he
      exact absurd (he rfl) nofun
    | sending left t =>
      rw [hd] at he
      obtain rfl : left = 0 := by
        cases left with
        | zero => rfl
        | succ left => exact absurd (he rfl) nofun
      obtain ⟨hsaved, hrounds, hw⟩ := work_sending hd nothing
      refine ⟨by rw [hrounds, hn], by rw [hsaved, sendReceipts_nothing, hr], fun _ => ?_⟩
      rw [hw]
      split <;> rfl
    | checking left =>
      rw [hd] at he
      obtain rfl : left = 0 := by
        cases left with
        | zero => rfl
        | succ left => exact absurd (he rfl) nofun
      have hstep : v.step (.work j nothing) = v.worked j .stopping := by
        simp only [World.step, World.work, hd, hr, Bool.not_true, Bool.false_eq_true, if_false]
      rw [hstep]
      exact ⟨hn, hr, fun _ => by rw [worked_self]; rfl⟩
    | stopping =>
      simp only [World.step, World.work, hd]
      exact ⟨hn, hr, fun h => by rw [worked_self] at h; cases h⟩
  · rintro v ⟨hn, hr, -⟩ (h | h)
    · omega
    · rw [hr] at h
      cases h

theorem willTry_iff (hr : w.saved.retryable = true) :
    w.WillTry j ↔ (w.workers j).live = true ∧ (w.workers j).ending = false := by
  refine ⟨fun h => ?_, fun h => willTry_of_live h.1 h.2⟩
  by_contra hno
  refine not_willTry hr (fun hl => ?_) h
  cases he : (w.workers j).ending with
  | true => rfl
  | false => exact absurd ⟨hl, he⟩ hno

theorem live_of_ending {k : Worker} (h : k.ending = true) : k.live = true := by
  unfold Worker.ending at h
  split at h <;> first | rfl | cases h

end

/-! ## Every call is served, or not -/

section

variable {w : World}

theorem Inv.served_iff (h : Inv w) (e : Event) : w.Served e ↔ w.Orderly e := by
  cases e with
  | run i x =>
    unfold World.Served World.Orderly
    cases hb : w.requests i with
    | ensuring =>
      simp only [World.returns, hb]
      constructor
      · intro hs hon hr
        have hstep : w.step (.run i x) = w.requested i .done := by simp [World.step, World.run, hb, hon]
        obtain ⟨j, hj⟩ := hs (by rw [hon]; rfl) (by rw [hstep]; exact hr)
        rw [hstep, willTry_iff (by exact hr)] at hj
        have hlive : w.charged (.worker j) = true := hj.1
        refine ⟨fun k => ?_, fun k => ?_⟩
        · cases hk : (w.requests k).raising with
          | false => rfl
          | true => exact absurd (h.one (.request k) _ hk hlive) nofun
        · cases hk : (w.workers k).ending with
          | false => rfl
          | true =>
            have hkj := Holder.worker.inj (h.one (.worker k) _ (live_of_ending hk) hlive)
            have hno : (w.workers j).ending = false := hj.2
            rw [hkj, hno] at hk
            cases hk
      · intro ho hret hr
        have hr' : w.saved.retryable = true := by
          simp only [World.step, World.run, hb] at hr
          split at hr <;> exact hr
        have hon : w.saved.retrying = true := by simpa [hr'] using hret
        have hstep : w.step (.run i x) = w.requested i .done := by simp [World.step, World.run, hb, hon]
        obtain ⟨hreq, hwork⟩ := ho hon hr'
        obtain ⟨a, ha⟩ := h.flag.mp hon
        cases a with
        | request k =>
          rw [World.charged, hreq k] at ha
          cases ha
        | worker j =>
          rw [hstep]
          exact ⟨j, willTry_of_live ha (hwork j)⟩
    | spawning =>
      simp only [World.returns, hb]
      refine ⟨fun _ => trivial, fun _ hsp _ => ?_⟩
      have hstep : w.step (.run i x) = (w.worked i (.sleeping (maxRounds - 1))).requested i .done := by
        simp [World.step, World.run, hb, hsp]
      rw [hstep]
      exact ⟨i, tries_sleeping (worked_self _ _ (.sleeping (maxRounds - 1))) (Nat.le_refl _)⟩
    | unspawned =>
      simp only [World.returns, hb]
      have hr : (w.step (.run i x)).saved.retryable = w.saved.retryable := by
        simp only [World.step, World.run, hb]
        rfl
      have hwork : (w.step (.run i x)).workers = w.workers := by
        simp only [World.step, World.run, hb]
        rfl
      rw [hr]
      refine ⟨fun hs => ?_, fun hno _ hyes => by rw [hno] at hyes; cases hyes⟩
      by_contra hyes
      rw [Bool.not_eq_false] at hyes
      obtain ⟨j, hj⟩ := hs trivial hyes
      rw [willTry_iff (by rw [hr]; exact hyes), hwork] at hj
      have hcharged : w.charged (.request i) = true := by simp only [World.charged, hb, Request.raising]
      exact absurd (h.one (.worker j) _ hj.1 hcharged) nofun
    | _ =>
      simp only [World.returns, hb]
      exact ⟨fun _ => trivial, fun _ => nofun⟩
  | _ => exact ⟨fun _ => trivial, fun _ => nofun⟩

/-- A run serves every call of `ensure_receipt_retry`, with at most one worker at a time and
    every attempt counted once, exactly if its steps are orderly. -/
theorem receipts_served_iff (es : List Event) : Along World.step World.Proper {} es ↔ Along World.step World.Orderly {} es := by
  refine along_iff (I := Inv) (fun _ e h => h.step e) (fun w e h => ?_) Inv.init
  refine ⟨fun hp => (h.served_iff e).mp hp.1, fun ho => ⟨(h.served_iff e).mpr ho, (h.step e).oneWorker, h.counted e⟩⟩

end

section

def installed : Notification := ⟨7, "install", "rsp.example", some "8963000000000000001"⟩
def removed : Notification := ⟨8, "delete", "rsp.example", some "8963000000000000002"⟩

def lists (n : Notification) : Outside := { listing := some ⟨[n], List.nodup_singleton _⟩ }
def listsNone : Outside := { listing := some ⟨[], List.nodup_nil⟩ }

/-- A worker sends the one receipt and decides to stop; the card then lists another. -/
def delivered : List Event :=
  [.list 0 {}, .run 0 (lists installed), .ensure 1, .run 1 {}, .run 1 {}, .work 1 {}, .work 1 (lists installed), .work 1 {},
    .work 1 {}, .work 1 {}, .work 1 listsNone, .work 1 {}, .list 2 {}, .run 2 (lists removed), .ensure 3]

/-- The call that lists it finds the flag still up, and the worker then lowers it. -/
theorem receipt_left_without_worker :
    ¬ Along World.step World.Proper {} (delivered ++ [.run 3 {}]) ∧
      let w := exec World.step {} (delivered ++ [.run 3 {}, .work 1 {}])
      w.saved.retryable = true ∧ w.saved.retrying = false := by
  refine ⟨fun h => ?_, by decide +kernel⟩
  have hinv : Inv (exec World.step {} delivered) := invariant (I := Inv) (fun _ e h => h.step e) Inv.init
  have hreq : (exec World.step {} delivered).requests 3 = .ensuring := rfl
  have hserved : (exec World.step {} delivered).Served (.run 3 {}) := (along_append.mp h).2.1.1
  have horderly := (hinv.served_iff _).mp hserved
  simp only [World.Orderly, hreq] at horderly
  have hno := (horderly (by decide +kernel) (by decide +kernel)).2 1
  revert hno
  decide +kernel

end

end OpenU60.Esim.Receipts
