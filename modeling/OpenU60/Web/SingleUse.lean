/-
  OpenU60.Web.SingleUse — a single-use form sends at most once.

  A token that is fresh is claimed by nobody and no work has disarmed a claim of it. Claiming
  it, giving it back and recording an outcome are accesses of its entry by the one post that
  holds the claim, so the entry carries that post's digest for as long as the work may call
  the device, and what it records afterwards.
  - `token_sends_once`: of each token at most one post's work ever disarms its claim, and only
    that work calls the device; it is a post of the session the token was issued to; a fresh
    token has been sent by nobody; and a replay is told what that post recorded.
  - `onceWork_disarms`: the work of an action is of this kind, its second try included.
-/

import OpenU60.Lib.Machine
import OpenU60.Web.Once

namespace OpenU60.Web

open OpenU60.Lib OpenU60.Lib.FirstMatch OpenU60.Lib.Machine
open OpenU60.Lib.Dialogue (Task Keeps Does keeps_bind keeps_pure keeps_put does_bind does_put_bind does_set_bind does_orStop_bind
  does_pure does_throw)

/-! ## The work of an action -/

theorem readAll_does (rs : List String) : Does note Allowed (readAll rs) false false fun s _ x => s = false ∧ x = false := by
  induction rs with
  | nil => exact ⟨rfl, rfl⟩
  | cons r rs ih =>
    refine does_put_bind trivial fun v => ?_
    refine does_orStop_bind (fun v _ => ?_) (fun _ _ => ⟨rfl, rfl⟩)
    refine does_bind.mpr (ih.mono fun s r x h => ?_)
    cases r with
    | ok cur => exact h
    | error e => exact h

theorem call_does (a : Action) (valid : List (String × String)) :
    Does note Allowed (call a valid) false false fun s _ x => x = s := by
  unfold call
  refine does_bind.mpr ((readAll_does a.reads).mono ?_)
  rintro s (e | cur) x ⟨rfl, rfl⟩
  · rfl
  · dsimp only
    cases a.body valid cur with
    | none => exact rfl
    | some body =>
      refine does_put_bind trivial fun _ => does_set_bind ?_
      refine does_put_bind rfl fun first => ?_
      cases first with
      | ok v => exact rfl
      | error e =>
        obtain ⟨status, e⟩ := e
        simp only
        split
        · refine does_put_bind rfl fun second => ?_
          cases second <;> exact rfl
        · exact rfl

theorem onceWork_disarms (a : Action) (valid : List (String × String)) :
    Keeps note Allowed (onceWork a valid) false fun _ _ => True := by
  unfold onceWork
  have hcall : Keeps note Allowed ((call a valid).run.run false) false fun s r => r.2 = s := call_does a valid
  refine keeps_bind.mpr (hcall.mono ?_)
  rintro s ⟨done, sent⟩ hsent
  obtain rfl : sent = s := hsent
  cases sent with
  | false => exact trivial
  | true => exact ⟨rfl, fun _ => trivial⟩

def Action.job (a : Action) (valid : List (String × String)) : OnceJob := ⟨onceWork a valid, onceWork_disarms a valid⟩

/-! ## The table -/

namespace Token

/-- The digest of the post that has claimed it. -/
def digest : Token → Option UInt64
  | .fresh => none
  | .sending d => some d
  | .sent d => some d
  | .failed d _ _ => some d

def outcome : Token → Option (Except (Nat × String) Unit)
  | .sent _ => some (.ok ())
  | .failed _ status message => some (.error (status, message))
  | _ => none

end Token

namespace Table

variable {t : Table} {k : Key} {f : Token → Token}

theorem prune_sublist (t : Table) (now : Nat) : (t.prune now).Sublist t := List.filter_sublist

theorem get_some {v : Token} (h : t.get k = some v) : ∃ e ∈ t, e.key = k ∧ e.value = v := by
  obtain ⟨e, he, rfl⟩ := Option.map_eq_some_iff.mp h
  exact ⟨e, List.mem_of_find?_eq_some he, by simpa using List.find?_some he, rfl⟩

theorem map_key_update : (t.update k f).map Entry.key = t.map Entry.key := by
  unfold update
  refine map_updateFirst ?_ t
  intro e _
  rfl

/-- An updated table has one entry changed, the one of the key. -/
theorem mem_update (hn : (t.map Entry.key).Nodup) {x : Entry} (hx : x ∈ t.update k f) :
    (x ∈ t ∧ x.key ≠ k) ∨ ∃ e ∈ t, e.key = k ∧ x = { e with value := f e.value } := by
  unfold update at hx
  rw [updateFirst_eq_map hn] at hx
  obtain ⟨e, he, rfl⟩ := List.mem_map.mp hx
  by_cases hk : e.key = k
  · rw [if_pos hk]
    exact .inr ⟨e, he, hk, rfl⟩
  · rw [if_neg hk]
    exact .inl ⟨he, hk⟩

/-- A new token's entry comes last; of the others some go. -/
theorem issue_eq (t : Table) (id : String) (owner now : Nat) :
    ∃ s : Table, s.Sublist t ∧ t.issue id owner now = s ++ [⟨id, owner, now, .fresh⟩] := by
  refine ⟨_, ?_, rfl⟩
  split
  · cases evicted (t.prune now) owner with
    | none => exact prune_sublist t now
    | some n => exact (List.eraseIdx_sublist ..).trans (prune_sublist t now)
  · exact prune_sublist t now

end Table

/-! ## The invariant -/

namespace Phase

/-- The post whose claim it holds. -/
def claims : Phase → Option Post
  | .waiting p => some p
  | .working p _ _ => some p
  | .givingBack p _ => some p
  | _ => none

/-- The post whose work may have disarmed its claim. -/
def mayHaveSent : Phase → Option Post
  | .working p _ true => some p
  | .done p .ran => some p
  | _ => none

def post : Phase → Option Post
  | .idle => none
  | .looking p => some p
  | .taking p _ => some p
  | .settling p _ => some p
  | .sleeping p _ => some p
  | .waiting p => some p
  | .working p _ _ => some p
  | .givingBack p _ => some p
  | .done p _ => some p
  | .gone p => some p

theorem post_of_mayHaveSent {ph : Phase} {p : Post} (h : ph.mayHaveSent = some p) : ph.post = some p := by
  cases ph with
  | working q rest sent =>
    cases sent with
    | false => cases h
    | true => exact h
  | done q r =>
    cases r with
    | ran => exact h
    | _ => cases h
  | _ => cases h

end Phase

namespace World

variable (digest : List String → UInt64)

/-- The token's entry, if there is one, is claimed with the post's digest. -/
def Marked (t : Table) (p : Post) : Prop := ∀ e ∈ t, e.id = p.token → e.value.digest = some (digest p.contents)

/-- What was recorded by the post that sent it. -/
def Recorded (w : World) (key : Key) (d : UInt64) (r : Except (Nat × String) Unit) : Prop :=
  ∃ i ∈ w.disarmed, ∃ p, (w.posts i).mayHaveSent = some p ∧ p.key = key ∧ digest p.contents = d ∧ (i, r) ∈ w.recorded

structure Inv (w : World) : Prop where
  keys : (w.items.map Entry.key).Nodup
  listed : ∀ e ∈ w.items, e.key ∈ w.issued
  owners : ∀ k ∈ w.issued, ∀ k' ∈ w.issued, k.id = k'.id → k = k'
  claim : ∀ i p, (w.posts i).claims = some p → p.key ∈ w.issued ∧ Marked digest w.items p
  alone : ∀ i j p q, (w.posts i).claims = some p → (w.posts j).claims = some q → p.token = q.token → i = j
  spent : ∀ i ∈ w.disarmed, ∃ p, (w.posts i).mayHaveSent = some p ∧ p.key ∈ w.issued ∧ Marked digest w.items p ∧
    ∀ j q, (w.posts j).claims = some q → q.token = p.token → j = i
  once : ∀ i ∈ w.disarmed, ∀ j ∈ w.disarmed, ∀ p q, (w.posts i).mayHaveSent = some p → (w.posts j).mayHaveSent = some q →
    p.token = q.token → i = j
  works : ∀ i p rest sent, w.posts i = .working p rest sent →
    Keeps note Allowed rest sent (fun _ _ => True) ∧ (sent = true → i ∈ w.disarmed)
  called : ∀ i ∈ w.called, i ∈ w.disarmed
  recorded : ∀ e ∈ w.items, ∀ d r, e.value.digest = some d → e.value.outcome = some r → w.Recorded digest e.key d r
  told : ∀ j q r, w.posts j = .done q (.done r) → w.Recorded digest q.key (digest q.contents) r

/-- Token ids are never drawn twice. -/
def Drawn (w : World) : Event → Prop
  | .issue id _ => ∀ k ∈ w.issued, k.id ≠ id
  | _ => True

instance decidableDrawn (w : World) : ∀ e, Decidable (w.Drawn e)
  | .issue _ _ => inferInstanceAs (Decidable (∀ _ ∈ _, _))
  | .tick _ => .isTrue trivial
  | .post _ _ => .isTrue trivial
  | .run _ _ => .isTrue trivial
  | .drop _ => .isTrue trivial
  | .panic _ => .isTrue trivial

@[simp] theorem moved_self (w : World) (i : Nat) (p : Phase) : (w.moved i p).posts i = p := Function.update_self ..

theorem moved_other (w : World) {i j : Nat} (p : Phase) (h : j ≠ i) : (w.moved i p).posts j = w.posts j :=
  Function.update_of_ne h ..

variable {digest} {w : World} {i : Nat}

/-- What holds of the moved post and of every other. -/
theorem moved_all {ph : Phase} (R : Nat → Phase → Prop) (hself : R i ph) (hother : ∀ j, j ≠ i → R j (w.posts j)) (j : Nat) :
    R j ((w.moved i ph).posts j) := (Function.forall_update_iff w.posts R).mpr ⟨hself, hother⟩ j

theorem claims_moved {ph : Phase} (h : ∀ p, ph.claims = some p → (w.posts i).claims = some p) :
    ∀ j p, ((w.moved i ph).posts j).claims = some p → (w.posts j).claims = some p :=
  moved_all (fun j q => ∀ p, q.claims = some p → (w.posts j).claims = some p) h fun _ _ _ hp => hp

theorem mayHaveSent_moved {ph : Phase} (h : ∀ p, (w.posts i).mayHaveSent = some p → ph.mayHaveSent = some p) :
    ∀ j p, (w.posts j).mayHaveSent = some p → ((w.moved i ph).posts j).mayHaveSent = some p :=
  moved_all (fun j q => ∀ p, (w.posts j).mayHaveSent = some p → q.mayHaveSent = some p) h fun _ _ _ hp => hp

theorem Recorded.mono {w' : World} {k : Key} {d : UInt64} {r : Except (Nat × String) Unit}
    (h : w.Recorded digest k d r) (hdisarmed : ∀ j ∈ w.disarmed, j ∈ w'.disarmed)
    (hsent : ∀ j p, (w.posts j).mayHaveSent = some p → (w'.posts j).mayHaveSent = some p)
    (hrecorded : ∀ x ∈ w.recorded, x ∈ w'.recorded) : w'.Recorded digest k d r := by
  obtain ⟨j, hj, p, hp, hk, hd, hr⟩ := h
  exact ⟨j, hdisarmed j hj, p, hsent j p hp, hk, hd, hrecorded _ hr⟩

theorem Marked.mono {t t' : Table} {p : Post} (h : Marked digest t p) (hsub : ∀ e ∈ t', e ∈ t) : Marked digest t' p :=
  fun e he hid => h e (hsub e he) hid

theorem works_moved (h : Inv digest w) {ph : Phase} (hworks : ∀ p rest sent, ph = .working p rest sent →
      Keeps note Allowed rest sent (fun _ _ => True) ∧ (sent = true → i ∈ w.disarmed)) :
    ∀ j p rest sent, (w.moved i ph).posts j = .working p rest sent →
      Keeps note Allowed rest sent (fun _ _ => True) ∧ (sent = true → j ∈ w.disarmed) :=
  moved_all (fun j s => ∀ p rest sent, s = .working p rest sent →
    Keeps note Allowed rest sent (fun _ _ => True) ∧ (sent = true → j ∈ w.disarmed)) hworks fun j _ => h.works j

/-- What a post's step leaves where it moves one post, keeps what that post has claimed or
    sent, and at most drops entries. -/
theorem Inv.moves (h : Inv digest w) {ph : Phase} {t : Table} (ht : t.Sublist w.items)
    (hclaims : ∀ p, ph.claims = some p → (w.posts i).claims = some p)
    (hsent : ∀ p, (w.posts i).mayHaveSent = some p → ph.mayHaveSent = some p)
    (hworks : ∀ p rest sent, ph = .working p rest sent →
      Keeps note Allowed rest sent (fun _ _ => True) ∧ (sent = true → i ∈ w.disarmed))
    (htold : ∀ q r, ph = .done q (.done r) → w.Recorded digest q.key (digest q.contents) r) :
    Inv digest { w.moved i ph with items := t } := by
  have hclaims' := claims_moved hclaims
  have hsent' := mayHaveSent_moved hsent
  have hmono : ∀ {k d r}, w.Recorded digest k d r →
      ({ w.moved i ph with items := t } : World).Recorded digest k d r :=
    fun hr => hr.mono (fun _ hj => hj) hsent' fun _ hx => hx
  refine ⟨h.keys.sublist (ht.map _), fun e he => h.listed e (ht.subset he), h.owners, fun j p hj => ?_, fun j k p q hj hk => ?_,
    fun j hj => ?_, fun j hj k hk p q hp hq heq => ?_, fun j p rest sent hj => ?_, h.called, fun e he d r hd hr => ?_,
    fun j q r hj => ?_⟩
  · obtain ⟨hkey, hm⟩ := h.claim j p (hclaims' j p hj)
    exact ⟨hkey, hm.mono fun e he => ht.subset he⟩
  · exact h.alone j k p q (hclaims' j p hj) (hclaims' k q hk)
  · obtain ⟨p, hp, hkey, hm, halone⟩ := h.spent j hj
    exact ⟨p, hsent' j p hp, hkey, hm.mono fun e he => ht.subset he, fun k q hk => halone k q (hclaims' k q hk)⟩
  · obtain ⟨p', hp', -⟩ := h.spent j hj
    obtain ⟨q', hq', -⟩ := h.spent k hk
    have hpp : p' = p := Option.some.inj ((hsent' j p' hp').symm.trans hp)
    have hqq : q' = q := Option.some.inj ((hsent' k q' hq').symm.trans hq)
    subst hpp hqq
    exact h.once j hj k hk p' q' hp' hq' heq
  · exact works_moved h hworks j p rest sent hj
  · exact hmono (h.recorded e (ht.subset he) d r hd hr)
  · exact hmono (moved_all (fun _ s => ∀ q r, s = .done q (.done r) → w.Recorded digest q.key (digest q.contents) r) htold
      (fun j _ => h.told j) j q r hj)

/-! ## Accesses that change the token's entry -/

/-- The same, where the post holds the token alone: the step changes its entry, if there is one. -/
theorem Inv.changes (h : Inv digest w) {p : Post} {ph : Phase} {t : Table} {v : Token} (ht : t.Sublist w.items)
    (hkey : p.key ∈ w.issued) (hself : ∀ q, ph.claims = some q → q = p) (hmarked : ph.claims = some p → v.digest = some (digest p.contents))
    (hsent : ∀ q, (w.posts i).mayHaveSent = some q → ph.mayHaveSent = some q)
    (hothers : ∀ j q, (w.posts j).claims = some q → q.token = p.token → j = i)
    (hspent : ∀ j ∈ w.disarmed, ∀ q, (w.posts j).mayHaveSent = some q → q.token = p.token →
      v.digest = some (digest q.contents) ∧ (∀ q, ph.claims = some q → j = i))
    (hworks : ∀ p rest sent, ph = .working p rest sent →
      Keeps note Allowed rest sent (fun _ _ => True) ∧ (sent = true → i ∈ w.disarmed))
    (htold : ∀ q r, ph ≠ .done q (.done r))
    {recorded : List (Nat × Except (Nat × String) Unit)} (hmore : ∀ x ∈ w.recorded, x ∈ recorded)
    (hrecorded : ∀ d r, v.digest = some d → v.outcome = some r →
      i ∈ w.disarmed ∧ (w.posts i).mayHaveSent = some p ∧ digest p.contents = d ∧ (i, r) ∈ recorded) :
    Inv digest { w.moved i ph with items := t.update p.key fun _ => v, recorded := recorded } := by
  have hself' : (w.moved i ph).posts i = ph := moved_self ..
  have hother' : ∀ {j}, j ≠ i → (w.moved i ph).posts j = w.posts j := fun hji => moved_other _ _ hji
  have hkeys : (t.map Entry.key).Nodup := h.keys.sublist (ht.map _)
  have hmem : ∀ {x : Entry}, x ∈ t.update p.key (fun _ => v) → (x ∈ w.items ∧ x.key ≠ p.key) ∨ (x.key = p.key ∧ x.value = v) := by
    intro x hx
    rcases Table.mem_update hkeys hx with ⟨hx, hne⟩ | ⟨e, he, hk, rfl⟩
    · exact .inl ⟨ht.subset hx, hne⟩
    · exact .inr ⟨hk, rfl⟩
  have hsent' := mayHaveSent_moved hsent
  have hold : ∀ {j q}, j ∈ w.disarmed → ((w.moved i ph).posts j).mayHaveSent = some q → (w.posts j).mayHaveSent = some q := by
    intro j q hj hq
    obtain ⟨q', hq', -⟩ := h.spent j hj
    rw [hq', ← hq, hsent' j q' hq']
  have hmarks : ∀ {q : Post}, q.key ∈ w.issued → Marked digest w.items q →
      (q.token = p.token → v.digest = some (digest q.contents)) → Marked digest (t.update p.key fun _ => v) q := by
    intro q hq hm hv x hx hid
    rcases hmem hx with ⟨hx, -⟩ | ⟨hk, hval⟩
    · exact hm x hx hid
    · rw [hval]
      exact hv (hid.symm.trans (congrArg Key.id hk))
  have hmono : ∀ {k d r}, w.Recorded digest k d r → World.Recorded digest
      { w.moved i ph with items := t.update p.key fun _ => v, recorded := recorded } k d r :=
    fun hr => hr.mono (fun _ hj => hj) hsent' hmore
  refine ⟨?_, fun e he => ?_, h.owners, fun j q hj => ?_, fun j k q q' hj hk heq => ?_, fun j hj => ?_,
    fun j hj k hk q q' hq hq' heq => ?_, fun j q rest sent hj => ?_, h.called, fun e he d r hd hr => ?_, fun j q r hj => ?_⟩
  · show ((t.update p.key fun _ => v).map Entry.key).Nodup
    rw [Table.map_key_update]
    exact hkeys
  · rcases hmem he with ⟨he, -⟩ | ⟨hk, -⟩
    · exact h.listed e he
    · rw [hk]
      exact hkey
  · by_cases hji : j = i
    · subst hji
      rw [show ({ w.moved j ph with items := t.update p.key fun _ => v, recorded := recorded } : World).posts j = ph from hself']
        at hj
      obtain rfl := hself q hj
      refine ⟨hkey, fun x hx hid => ?_⟩
      rcases hmem hx with ⟨hx, hne⟩ | ⟨-, hval⟩
      · exact absurd (h.owners _ (h.listed x hx) _ hkey hid) hne
      · rw [hval]
        exact hmarked hj
    · rw [show ({ w.moved i ph with items := t.update p.key fun _ => v, recorded := recorded } : World).posts j = w.posts j
        from hother' hji] at hj
      obtain ⟨hq, hm⟩ := h.claim j q hj
      exact ⟨hq, hmarks hq hm fun heq => absurd (hothers j q hj heq) hji⟩
  · have hback : ∀ {j q}, ((w.moved i ph).posts j).claims = some q → (j = i ∧ q = p) ∨ (j ≠ i ∧ (w.posts j).claims = some q) := by
      intro j q hj
      by_cases hji : j = i
      · subst hji
        rw [hself'] at hj
        exact .inl ⟨rfl, hself q hj⟩
      · rw [hother' hji] at hj
        exact .inr ⟨hji, hj⟩
    rcases hback hj with ⟨rfl, rfl⟩ | ⟨-, hwas⟩
    · rcases hback hk with ⟨rfl, -⟩ | ⟨-, hwas'⟩
      · rfl
      · exact (hothers k q' hwas' heq.symm).symm
    · rcases hback hk with ⟨rfl, rfl⟩ | ⟨-, hwas'⟩
      · exact hothers j q hwas heq
      · exact h.alone j k q q' hwas hwas' heq
  · obtain ⟨q, hq, hqk, hm, halone⟩ := h.spent j hj
    refine ⟨q, hsent' j q hq, hqk, hmarks hqk hm fun heq => (hspent j hj q hq heq).1, fun k q' hk heq => ?_⟩
    by_cases hki : k = i
    · subst hki
      rw [show ({ w.moved k ph with items := t.update p.key fun _ => v, recorded := recorded } : World).posts k = ph from hself']
        at hk
      obtain rfl := hself q' hk
      exact ((hspent j hj q hq heq.symm).2 q' hk).symm
    · rw [show ({ w.moved i ph with items := t.update p.key fun _ => v, recorded := recorded } : World).posts k = w.posts k
        from hother' hki] at hk
      exact halone k q' hk heq
  · exact h.once j hj k hk q q' (hold hj hq) (hold hk hq') heq
  · exact works_moved h hworks j q rest sent hj
  · rcases hmem he with ⟨he, -⟩ | ⟨hk, hval⟩
    · exact hmono (h.recorded e he d r hd hr)
    · rw [hval] at hd hr
      obtain ⟨hi, hp, hpd, hin⟩ := hrecorded d r hd hr
      exact ⟨i, hi, p, hsent' i p hp, hk.symm, hpd, hin⟩
  · by_cases hji : j = i
    · subst hji
      exact absurd (hself'.symm.trans hj) (htold q r)
    · exact hmono (h.told j q r ((hother' hji).symm.trans hj))

/-! ## The steps -/

/-- What holds of a post that holds no claim and comes to hold none. -/
theorem Inv.idles (h : Inv digest w) {ph : Phase} {t : Table} (ht : t.Sublist w.items) (hclaims : ph.claims = none)
    (hsent : (w.posts i).mayHaveSent = none)
    (htold : ∀ q r, ph = .done q (.done r) → w.Recorded digest q.key (digest q.contents) r) :
    Inv digest { w.moved i ph with items := t } := by
  refine h.moves ht (fun p hp => ?_) (fun p hp => ?_) (fun p rest sent hp => ?_) htold
  · rw [hclaims] at hp
    cases hp
  · rw [hsent] at hp
    cases hp
  · rw [hp] at hclaims
    cases hclaims

theorem Inv.disarms (h : Inv digest w) {p : Post} {rest rest' : Work} {sent : Bool} (hp : w.posts i = .working p rest sent)
    (hrest : Keeps note Allowed rest' true fun _ _ => True) :
    Inv digest ({ w with disarmed := i :: w.disarmed }.moved i (.working p rest' true)) := by
  obtain ⟨hkey, hmarked⟩ := h.claim i p (by rw [hp]; rfl)
  have hback : ∀ {j q}, ((w.moved i (.working p rest' true)).posts j).claims = some q → (w.posts j).claims = some q :=
    claims_moved (fun q hq => by rw [hp]; exact hq) _ _
  have hsent' : ∀ j q, (w.posts j).mayHaveSent = some q → ((w.moved i (.working p rest' true)).posts j).mayHaveSent = some q := by
    refine mayHaveSent_moved fun q hq => ?_
    rw [hp] at hq
    cases sent with
    | false => cases hq
    | true => exact hq
  have hself : ((w.moved i (.working p rest' true)).posts i).mayHaveSent = some p := by
    rw [moved_self]
    rfl
  have hmore : ∀ j ∈ w.disarmed, j ∈ i :: w.disarmed := fun j hj => List.mem_cons_of_mem _ hj
  have hmono : ∀ {k d r}, w.Recorded digest k d r → World.Recorded digest
      ({ w with disarmed := i :: w.disarmed }.moved i (.working p rest' true)) k d r :=
    fun hr => hr.mono hmore hsent' fun _ hx => hx
  -- of the token no other post is spent
  have hfirst : ∀ k ∈ i :: w.disarmed, ∀ q, ((w.moved i (.working p rest' true)).posts k).mayHaveSent = some q →
      p.token = q.token → i = k := by
    intro k hk q hq heq
    by_cases hki : k = i
    · exact hki.symm
    · obtain ⟨q', hq', -, -, halone⟩ := h.spent k ((List.mem_cons.mp hk).resolve_left hki)
      obtain rfl : q' = q := Option.some.inj ((hsent' k q' hq').symm.trans hq)
      exact halone i p (by rw [hp]; rfl) heq
  refine ⟨h.keys, h.listed, h.owners, fun j q hj => h.claim j q (hback hj), fun j k q q' hj hk => h.alone j k q q' (hback hj) (hback hk),
    fun j hj => ?_, fun j hj k hk q q' hq hq' heq => ?_, fun j q r b hj => ?_, fun j hj => hmore j (h.called j hj),
    fun e he d r hd hr => hmono (h.recorded e he d r hd hr), fun j q r hj => ?_⟩
  · by_cases hji : j = i
    · subst hji
      exact ⟨p, hself, hkey, hmarked, fun k q hk heq => h.alone k j q p (hback hk) (by rw [hp]; rfl) heq⟩
    · obtain ⟨q, hq, hqk, hm, halone⟩ := h.spent j ((List.mem_cons.mp hj).resolve_left hji)
      exact ⟨q, hsent' j q hq, hqk, hm, fun k q' hk => halone k q' (hback hk)⟩
  · by_cases hji : j = i
    · subst hji
      obtain rfl : p = q := Option.some.inj (hself.symm.trans hq)
      exact hfirst k hk q' hq' heq
    · by_cases hki : k = i
      · subst hki
        obtain rfl : p = q' := Option.some.inj (hself.symm.trans hq')
        exact (hfirst j hj q hq heq.symm).symm
      · have hjd := (List.mem_cons.mp hj).resolve_left hji
        have hkd := (List.mem_cons.mp hk).resolve_left hki
        refine h.once j hjd k hkd q q' ?_ ?_ heq
        · exact (congrArg Phase.mayHaveSent (moved_other w _ hji)).symm.trans hq
        · exact (congrArg Phase.mayHaveSent (moved_other w _ hki)).symm.trans hq'
  · by_cases hji : j = i
    · subst hji
      rw [moved_self] at hj
      cases hj
      exact ⟨hrest, fun _ => List.mem_cons_self ..⟩
    · rw [moved_other _ _ hji] at hj
      exact ⟨(h.works j q r b hj).1, fun hb => hmore j ((h.works j q r b hj).2 hb)⟩
  · by_cases hji : j = i
    · subst hji
      rw [moved_self] at hj
      cases hj
    · rw [moved_other _ _ hji] at hj
      exact hmono (h.told j q r hj)

theorem Inv.calls (h : Inv digest w) (hi : i ∈ w.disarmed) : Inv digest { w with called := i :: w.called } := by
  refine { h with called := fun j hj => ?_ }
  rcases List.mem_cons.mp hj with rfl | hj
  · exact hi
  · exact h.called j hj

/-- What a post has claimed and may have sent, it keeps from `old` to `ph`. -/
theorem Inv.turns (h : Inv digest w) {old ph : Phase} (hold : w.posts i = old) (hclaims : ∀ p, ph.claims = some p → old.claims = some p)
    (hsent : ∀ p, old.mayHaveSent = some p → ph.mayHaveSent = some p)
    (hworks : ∀ p rest sent, ph = .working p rest sent →
      Keeps note Allowed rest sent (fun _ _ => True) ∧ (sent = true → i ∈ w.disarmed))
    (htold : ∀ q r, ph ≠ .done q (.done r)) : Inv digest (w.moved i ph) :=
  h.moves (List.Sublist.refl _) (hold ▸ hclaims) (hold ▸ hsent) hworks fun q r hq => absurd hq (htold q r)

/-- The work goes on to its next exchange, or its claim is dropped. -/
theorem Inv.goesOn (h : Inv digest w) {p : Post} {rest rest' : Work} {sent : Bool} (hp : w.posts i = .working p rest sent)
    (hrest : Keeps note Allowed rest' sent fun _ _ => True) : Inv digest (w.moved i (.working p rest' sent)) := by
  refine h.turns hp (fun q hq => hq) (fun q hq => ?_) (fun q r b hq => ?_) nofun
  · cases sent with
    | false => cases hq
    | true => exact hq
  · cases hq
    exact ⟨hrest, (h.works i p rest sent hp).2⟩

theorem Inv.dropClaim (h : Inv digest w) {p : Post} {rest : Work} {sent : Bool} (hp : w.posts i = .working p rest sent) :
    Inv digest (w.dropClaim i p sent) := by
  unfold World.dropClaim
  cases sent with
  | false => exact h.turns hp (fun q hq => hq) nofun nofun nofun
  | true => exact h.turns hp nofun (fun q hq => hq) nofun nofun

theorem Inv.exchanges (h : Inv digest w) {p : Post} {q : Ask} {k : q.Answer → Work} {sent : Bool}
    (hp : w.posts i = .working p (.ask q k) sent) (a : q.Answer) :
    Inv digest ((w.exchange digest i p q).moved i (.working p (k a) (note sent ⟨q, a⟩))) := by
  obtain ⟨hkeeps, hdisarmed⟩ := h.works i p _ sent hp
  have hok : Allowed sent q := hkeeps.1
  have hrest := hkeeps.step a
  have hclaim : (w.posts i).claims = some p := by rw [hp]; rfl
  cases q with
  | read path => exact h.goesOn hp hrest
  | disarm => exact h.disarms hp hrest
  | call method path body => exact (h.calls (hdisarmed hok)).goesOn hp hrest
  | record r =>
    obtain rfl : sent = true := hok
    have hsent : (w.posts i).mayHaveSent = some p := by rw [hp]; rfl
    have hi := hdisarmed rfl
    refine h.changes (Table.prune_sublist ..) (h.claim i p hclaim).1 (fun q hq => ?_) (fun _ => ?_) (fun q hq => ?_)
      (fun j q hq heq => h.alone j i q p hq hclaim heq) (fun j hj q hq heq => ?_) (fun q r b hq => ?_) (fun q r hq => (by cases hq))
      (fun x hx => List.mem_cons_of_mem _ hx) (fun d o hd ho => ?_)
    · exact (Option.some.inj hq).symm
    · cases r <;> rfl
    · rw [hp] at hq
      exact hq
    · obtain rfl := h.once j hj i hi q p hq hsent heq
      obtain rfl : q = p := Option.some.inj (hq.symm.trans hsent)
      refine ⟨?_, fun _ _ => rfl⟩
      cases r <;> rfl
    · cases hq
      exact ⟨hrest, fun _ => hi⟩
    · refine ⟨hi, hsent, ?_, ?_⟩
      · cases r <;> exact Option.some.inj hd
      · cases r with
        | ok u => exact Option.some.inj ho ▸ List.mem_cons_self ..
        | error e => exact Option.some.inj ho ▸ List.mem_cons_self ..

theorem Inv.run (h : Inv digest w) (x : Outcome) : Inv digest (w.run digest i x) := by
  have hlock : (w.items.prune w.now).Sublist w.items := Table.prune_sublist ..
  unfold World.run
  cases hp : w.posts i with
  | idle => exact h
  | done p r => exact h
  | gone p => exact h
  | looking p =>
    have hsent : (w.posts i).mayHaveSent = none := by rw [hp]; rfl
    dsimp only
    split
    · exact h.idles hlock rfl hsent nofun
    · exact h.idles hlock rfl hsent nofun
    · exact h.idles hlock rfl hsent nofun
  | taking p settled =>
    have hsent : (w.posts i).mayHaveSent = none := by rw [hp]; rfl
    dsimp only
    split
    · rename_i hget
      obtain ⟨e, he, hkey, hfresh⟩ := Table.get_some hget
      have he' : e ∈ w.items := hlock.subset he
      -- a fresh token is nobody's
      have hnone : ∀ q : Post, Marked digest w.items q → q.token ≠ p.token := by
        intro q hm heq
        have hmark := hm e he' ((congrArg Key.id hkey).trans heq.symm)
        rw [hfresh] at hmark
        cases hmark
      refine h.changes hlock (hkey ▸ h.listed e he') (fun q hq => ?_) (fun _ => rfl) (fun q hq => ?_)
        (fun j q hq heq => absurd heq (hnone q (h.claim j q hq).2)) (fun j hj q hq heq => ?_) (fun q r b hq => (by cases hq))
        (fun q r hq => (by cases hq)) (fun _ hx => hx) nofun
      · exact (Option.some.inj hq).symm
      · rw [hsent] at hq
        cases hq
      · obtain ⟨q', hq', -, hm, -⟩ := h.spent j hj
        obtain rfl : q' = q := Option.some.inj (hq'.symm.trans hq)
        exact absurd heq (hnone q' hm)
    · cases settled with
      | false => exact h.idles hlock rfl hsent nofun
      | true => exact h.idles hlock rfl hsent nofun
  | settling p polls =>
    have hsent : (w.posts i).mayHaveSent = none := by rw [hp]; rfl
    have htold : ∀ {v r}, w.lock.items.get p.key = some v → v.digest = some (digest p.contents) → v.outcome = some r →
        w.Recorded digest p.key (digest p.contents) r := by
      intro v r hget hd hr
      obtain ⟨e, he, hkey, rfl⟩ := Table.get_some hget
      rw [← hkey]
      exact h.recorded e (hlock.subset he) _ r hd hr
    cases polls with
    | zero => exact h.idles (List.Sublist.refl _) rfl hsent nofun
    | succ polls =>
      dsimp only
      split
      · exact h.idles hlock rfl hsent nofun
      · exact h.idles hlock rfl hsent nofun
      · split
        · exact h.idles hlock rfl hsent nofun
        · exact h.idles hlock rfl hsent nofun
      · rename_i d hget
        split
        · exact h.idles hlock rfl hsent nofun
        · rename_i hd
          refine h.idles hlock rfl hsent fun q r hq => ?_
          cases hq
          exact htold hget (congrArg some (not_not.mp hd)) rfl
      · rename_i d status message hget
        split
        · exact h.idles hlock rfl hsent nofun
        · rename_i hd
          refine h.idles hlock rfl hsent fun q r hq => ?_
          cases hq
          exact htold hget (congrArg some (not_not.mp hd)) rfl
  | sleeping p polls =>
    exact h.idles (List.Sublist.refl _) rfl (by rw [hp]; rfl) nofun
  | waiting p =>
    dsimp only
    split
    · refine h.turns hp (fun q hq => hq) nofun (fun q r b hq => ?_) nofun
      cases hq
      exact ⟨p.job.disarms, nofun⟩
    · exact h.turns hp (fun q hq => hq) nofun nofun nofun
  | working p rest sent =>
    cases rest with
    | done u => exact h.dropClaim hp
    | ask q k => exact h.exchanges hp (x.answer q)
  | givingBack p b =>
    have hclaim : (w.posts i).claims = some p := by rw [hp]; rfl
    have hsent : (w.posts i).mayHaveSent = none := by rw [hp]; rfl
    have hb : (b.answer p).claims = none := by cases b <;> rfl
    refine h.changes hlock (h.claim i p hclaim).1 (fun q hq => ?_) (fun hq => ?_) (fun q hq => ?_)
      (fun j q hq heq => h.alone j i q p hq hclaim heq) (fun j hj q hq heq => ?_) (fun q r s hq => ?_) (fun q r hq => ?_)
      (fun _ hx => hx) nofun
    · rw [hb] at hq
      cases hq
    · rw [hb] at hq
      cases hq
    · rw [hsent] at hq
      cases hq
    · -- a spent post of the token would be this one
      obtain ⟨q', hq', -, -, halone⟩ := h.spent j hj
      obtain rfl : q' = q := Option.some.inj (hq'.symm.trans hq)
      obtain rfl := halone i p hclaim heq.symm
      rw [hsent] at hq'
      cases hq'
    · rw [hq] at hb
      cases hb
    · cases b <;> cases hq

theorem Inv.issue (h : Inv digest w) {id : String} {owner : Nat} (hnew : ∀ k ∈ w.issued, k.id ≠ id) :
    Inv digest { w with items := w.items.issue id owner w.now, issued := ⟨id, owner⟩ :: w.issued } := by
  obtain ⟨s, hs, heq⟩ := Table.issue_eq w.items id owner w.now
  have hmem : ∀ e ∈ w.items.issue id owner w.now, e ∈ w.items ∨ e = ⟨id, owner, w.now, .fresh⟩ := by
    intro e he
    rw [heq] at he
    rcases List.mem_append.mp he with he | he
    · exact .inl (hs.subset he)
    · exact .inr (List.mem_singleton.mp he)
  have hmarks : ∀ {q : Post}, q.key ∈ w.issued → Marked digest w.items q → Marked digest (w.items.issue id owner w.now) q := by
    intro q hq hm e he hid
    rcases hmem e he with he | rfl
    · exact hm e he hid
    · exact absurd hid.symm (hnew _ hq)
  have hmore : ∀ {k}, k ∈ w.issued → k ∈ (⟨id, owner⟩ : Key) :: w.issued := fun hk => List.mem_cons_of_mem _ hk
  refine ⟨?_, fun e he => ?_, fun k hk k' hk' hid => ?_, fun j p hj => ?_, h.alone, fun j hj => ?_, h.once, h.works, h.called,
    fun e he d r hd hr => ?_, h.told⟩
  · show ((w.items.issue id owner w.now).map Entry.key).Nodup
    rw [heq, List.map_append, List.nodup_append]
    refine ⟨h.keys.sublist (hs.map _), List.pairwise_singleton _ _, fun k hk k' hk' => ?_⟩
    obtain ⟨e, he, rfl⟩ := List.mem_map.mp hk
    rw [List.mem_singleton.mp hk']
    intro hkey
    exact hnew _ (h.listed e (hs.subset he)) (congrArg Key.id hkey)
  · rcases hmem e he with he | rfl
    · exact hmore (h.listed e he)
    · exact List.mem_cons_self ..
  · rcases List.mem_cons.mp hk with rfl | hk
    · rcases List.mem_cons.mp hk' with rfl | hk'
      · rfl
      · exact absurd hid.symm (hnew k' hk')
    · rcases List.mem_cons.mp hk' with rfl | hk'
      · exact absurd hid (hnew k hk)
      · exact h.owners k hk k' hk' hid
  · obtain ⟨hk, hm⟩ := h.claim j p hj
    exact ⟨hmore hk, hmarks hk hm⟩
  · obtain ⟨p, hp, hk, hm, halone⟩ := h.spent j hj
    exact ⟨p, hp, hmore hk, hmarks hk hm, halone⟩
  · rcases hmem e he with he | rfl
    · exact h.recorded e he d r hd hr
    · cases hr

theorem Inv.step (h : Inv digest w) {e : Event} (he : w.Drawn e) : Inv digest (w.step digest e) := by
  cases e with
  | issue id owner => exact h.issue he
  | tick n => exact { h with }
  | post i p =>
    cases hp : w.posts i with
    | idle =>
      simp only [World.step, hp]
      exact h.idles (List.Sublist.refl _) rfl (by rw [hp]; rfl) nofun
    | _ => simpa only [World.step, hp] using h
  | run i x => exact h.run x
  | drop i =>
    cases hp : w.posts i with
    | sleeping p polls =>
      simp only [World.step, hp]
      exact h.idles (List.Sublist.refl _) rfl (by rw [hp]; rfl) nofun
    | waiting p =>
      simp only [World.step, hp]
      exact h.turns hp (fun q hq => hq) nofun nofun nofun
    | _ => simpa only [World.step, hp] using h
  | panic i =>
    cases hp : w.posts i with
    | working p rest sent =>
      simp only [World.step, hp]
      exact h.dropClaim hp
    | _ => simpa only [World.step, hp] using h

theorem Inv.init : Inv digest {} := by
  refine ⟨List.nodup_nil, fun e he => ?_, fun k hk => ?_, fun i p hp => ?_, fun i j p q hp => ?_, fun i hi => ?_, fun i hi => ?_,
    fun i p rest sent hp => ?_, fun i hi => ?_, fun e he => ?_, fun i q r hp => ?_⟩
  · cases he
  · cases hk
  · cases hp
  · cases hp
  · cases hi
  · cases hi
  · cases hp
  · cases hi
  · cases he
  · cases hp

variable (digest) in
structure SendsOnce (w : World) : Prop where
  /-- Of a token at most one post's work disarms its claim. -/
  once : ∀ i ∈ w.disarmed, ∀ j ∈ w.disarmed, ∀ p q, (w.posts i).post = some p → (w.posts j).post = some q →
    p.token = q.token → i = j
  /-- It is a post of the session the token was issued to. -/
  session : ∀ i ∈ w.disarmed, ∀ p, (w.posts i).post = some p → p.key ∈ w.issued
  called : ∀ i ∈ w.called, i ∈ w.disarmed
  /-- A post that is told anything but its own work's answer has sent nothing. -/
  answered : ∀ i ∈ w.disarmed, ∀ p r, w.posts i = .done p r → r = .ran
  stays : ∀ i ∈ w.disarmed, ∀ p, w.posts i ≠ .gone p
  fresh : ∀ e ∈ w.items, e.value = .fresh → ∀ i ∈ w.disarmed, ∀ p, (w.posts i).post = some p → p.token ≠ e.id
  /-- What a replay is told was recorded by the post that sent. -/
  told : ∀ j q r, w.posts j = .done q (.done r) → ∃ i ∈ w.disarmed, ∃ p, (w.posts i).post = some p ∧ p.key = q.key ∧
    digest p.contents = digest q.contents ∧ (i, r) ∈ w.recorded

theorem Inv.sendsOnce (h : Inv digest w) : w.SendsOnce digest := by
  have hsent : ∀ {i p}, i ∈ w.disarmed → (w.posts i).post = some p → (w.posts i).mayHaveSent = some p := by
    intro i p hi hp
    obtain ⟨q, hq, -⟩ := h.spent i hi
    rw [hq, ← hp, Phase.post_of_mayHaveSent hq]
  refine ⟨fun i hi j hj p q hp hq => h.once i hi j hj p q (hsent hi hp) (hsent hj hq), fun i hi p hp => ?_, h.called,
    fun i hi p r hp => ?_, fun i hi p hp => ?_, fun e he hfresh i hi p hp heq => ?_, fun j q r hj => ?_⟩
  · obtain ⟨q, hq, hkey, -⟩ := h.spent i hi
    obtain rfl : q = p := Option.some.inj (hq.symm.trans (hsent hi hp))
    exact hkey
  · obtain ⟨q, hq, -⟩ := h.spent i hi
    rw [hp] at hq
    cases r with
    | ran => rfl
    | _ => cases hq
  · obtain ⟨q, hq, -⟩ := h.spent i hi
    rw [hp] at hq
    cases hq
  · obtain ⟨q, hq, -, hm, -⟩ := h.spent i hi
    obtain rfl : q = p := Option.some.inj (hq.symm.trans (hsent hi hp))
    have := hm e he heq.symm
    rw [hfresh] at this
    cases this
  · obtain ⟨i, hi, p, hp, hkey, hd, hr⟩ := h.told j q r hj
    exact ⟨i, hi, p, Phase.post_of_mayHaveSent hp, hkey, hd, hr⟩

end World

open World

/-- In every run in which no token id is drawn twice, each token sends at most once. -/
theorem token_sends_once (digest : List String → UInt64) (es : List Event) (h : Along (World.step digest) Drawn {} es) :
    (exec (World.step digest) {} es).SendsOnce digest :=
  Inv.sendsOnce (invariant_along (fun _ _ hi he => hi.step he) Inv.init h)

section

def sendSms : Action := { method := "POST", path := "/api/sms/send", reads := [], body := fun _ _ => some .null, again := none }

def sms : Post := { owner := 1, token := "5f0c", contents := ["+31 6", "hello"], job := sendSms.job [], polls := 200 }

def runs (i n : Nat) : List Event := List.replicate n (.run i {})

/-- A double click: the first post gets no permit, the second sends, a reload is told so. -/
def doubleClick : List Event :=
  [.issue "5f0c" 1, .post 0 sms, .post 1 sms] ++ runs 0 2 ++ runs 1 2 ++ [.run 0 { permit := false }] ++ runs 0 1 ++ runs 1 8 ++
    [.post 2 sms] ++ runs 2 2

def byLength (contents : List String) : UInt64 := .ofNat contents.length

theorem double_click_sent_once :
    let w := exec (World.step byLength) {} doubleClick
    w.called = [1] ∧ (match w.posts 2 with | .done _ (.done (.ok ())) => true | _ => false) = true ∧ w.SendsOnce byLength :=
  ⟨by decide +kernel, by decide +kernel, token_sends_once byLength doubleClick (by decide +kernel)⟩

end

end OpenU60.Web
