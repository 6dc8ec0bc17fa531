/-
  OpenU60.Auth.Table — what the operations of the session table do to it.

  `Books hooked ids`: every id issued is in the table, was given to the revoke hook or was
  written down as expired, and only one of these. Each operation keeps the books
  (`Books.prune`, `Books.remove`, `Books.insert`, …), and up to the order of the entries it is a
  filter, a map or an addition.
-/

import OpenU60.Auth.Sessions
import OpenU60.Lib.BigEndian

namespace OpenU60.Auth

open OpenU60.Lib OpenU60.Lib.FirstMatch

/-! ## Hexadecimal -/

/-- A digit and what it stands for, and a byte and its halves. -/
theorem nibble_byte (c : UInt8) :
    ((nibble c).all fun d => d < 16 ∧ hexDigit d = c) = true ∧ (c < 16 → nibble (hexDigit c) = some c) ∧
      c >>> 4 < 16 ∧ c &&& 15 < 16 ∧ (c >>> 4) <<< 4 ||| (c &&& 15) = c := by
  revert c
  exact BigEndian.forall_byte (by decide +kernel)

theorem nibble_some {c d : UInt8} (h : nibble c = some d) : d < 16 ∧ hexDigit d = c := by
  simpa [h] using (nibble_byte c).1

theorem nibble_hexDigit {d : UInt8} (h : d < 16) : nibble (hexDigit d) = some d := (nibble_byte d).2.1 h

theorem byte_halves (c : UInt8) : c >>> 4 < 16 ∧ c &&& 15 < 16 ∧ (c >>> 4) <<< 4 ||| (c &&& 15) = c := (nibble_byte c).2.2

theorem halves_byte {hi lo : UInt8} (hhi : hi < 16) (hlo : lo < 16) :
    (hi <<< 4 ||| lo) >>> 4 = hi ∧ (hi <<< 4 ||| lo) &&& 15 = lo := by
  have hall : ∀ hi lo : Fin 16, (UInt8.ofNat hi <<< 4 ||| UInt8.ofNat lo) >>> 4 = UInt8.ofNat hi ∧
    (UInt8.ofNat hi <<< 4 ||| UInt8.ofNat lo) &&& 15 = UInt8.ofNat lo := by decide +kernel
  simpa using hall ⟨hi.toNat, hhi⟩ ⟨lo.toNat, hlo⟩
/-- Exactly the texts that `hex` writes are read. -/
theorem parsePairs_iff {s : Text} {b : List UInt8} {n : Nat} (hlen : s.length = 2 * n) : parsePairs s = some b ↔ s = hex b := by
  constructor
  · intro h
    induction n generalizing s b with
    | zero =>
      obtain rfl := List.eq_nil_of_length_eq_zero hlen
      cases h
      rfl
    | succ n ih =>
      obtain ⟨hi, lo, s, rfl⟩ : ∃ hi lo s', s = hi :: lo :: s' := by
        rcases s with _ | ⟨hi, _ | ⟨lo, s⟩⟩
        · cases hlen
        · simp at hlen
          omega
        · exact ⟨hi, lo, s, rfl⟩
      simp only [parsePairs, Option.bind_eq_bind, Option.bind_eq_some_iff, Option.some.injEq] at h
      obtain ⟨x, hx, y, hy, out, hout, rfl⟩ := h
      obtain ⟨hxlt, hxd⟩ := nibble_some hx
      obtain ⟨hylt, hyd⟩ := nibble_some hy
      obtain ⟨hhi, hlo⟩ := halves_byte hxlt hylt
      have hrest := ih (by simp at hlen; omega) hout
      simp [hex, hhi, hlo, hxd, hyd, hrest]
  · rintro rfl
    clear hlen
    induction b with
    | nil => rfl
    | cons c b ih =>
      obtain ⟨hhi, hlo, hc⟩ := byte_halves c
      show (do
        let hi ← nibble (hexDigit (c >>> 4))
        let lo ← nibble (hexDigit (c &&& 15))
        let out ← parsePairs (hex b)
        some ((hi <<< 4 ||| lo) :: out)) = _
      rw [nibble_hexDigit hhi, nibble_hexDigit hlo, ih]
      simp [hc]

theorem length_hex (b : List UInt8) : (hex b).length = 2 * b.length := by
  induction b with
  | nil => rfl
  | cons c b ih =>
    show (hex b).length + 2 = _
    rw [ih, List.length_cons]
    omega

theorem parseHex_iff {n : Nat} {s : Text} {b : Bytes n} : parseHex n s = some b ↔ s = hex b.val := by
  unfold parseHex
  by_cases hlen : s.length = 2 * n
  · rw [if_neg (not_not_intro hlen)]
    simp only [Option.bind_eq_bind, Option.bind_eq_some_iff]
    constructor
    · rintro ⟨out, hout, hif⟩
      split at hif
      · cases hif
        exact (parsePairs_iff hlen).mp hout
      · cases hif
    · intro h
      exact ⟨b.val, (parsePairs_iff hlen).mpr h, dif_pos b.property⟩
  · rw [if_pos hlen]
    refine ⟨nofun, ?_⟩
    rintro rfl
    rw [length_hex, b.property] at hlen
    exact absurd rfl hlen

/-! ## Entries that go -/

variable {D : Type} {cfg : AuthConfig} {now : Nat}

def Entry.unexpired (cfg : AuthConfig) (now : Nat) (e : Entry D) : Bool := now < e.deadline cfg

/-- What a token is looked up by. -/
def Entry.key (e : Entry D) : Kind × D := (e.kind, e.digest)

theorem Entry.has_iff [DecidableEq D] {kind : Kind} {digest : D} {e : Entry D} :
    e.has kind digest = true ↔ e.digest = digest ∧ e.kind = kind := by
  rw [Entry.has, Bool.and_eq_true, decide_eq_true_eq, decide_eq_true_eq]

theorem Entry.has_eq [DecidableEq D] (kind : Kind) (digest : D) :
    Entry.has kind digest = fun e => decide (e.key = (kind, digest)) := by
  funext e
  rw [Bool.eq_iff_iff]
  rw [Entry.has_iff, decide_eq_true_eq, Entry.key, Prod.mk.injEq, and_comm]

namespace SessionTable

variable {t t' : SessionTable D}

/-- `t'` is `t` with some entries reported as expired. -/
structure Pruned (t t' : SessionTable D) : Prop where
  gone : ∃ gone, t'.expired = t.expired ++ gone ∧ (t'.entries.map Entry.id ++ gone).Perm (t.entries.map Entry.id)
  nextId : t'.nextId = t.nextId
  ring : ∀ n, t.recentExpired.Follows n t.expired → t'.recentExpired.Follows n t'.expired

theorem Pruned.refl (t : SessionTable D) : Pruned t t :=
  ⟨⟨[], (List.append_nil _).symm, by rw [List.append_nil]⟩, rfl, fun _ h => h⟩

theorem Pruned.trans {t'' : SessionTable D} (h : Pruned t t') (h' : Pruned t' t'') : Pruned t t'' := by
  obtain ⟨gone, hgone, hperm⟩ := h.gone
  obtain ⟨gone', hgone', hperm'⟩ := h'.gone
  refine ⟨⟨gone ++ gone', by rw [hgone', hgone, List.append_assoc], ?_⟩, h'.nextId.trans h.nextId, fun n hn => h'.ring n (h.ring n hn)⟩
  calc t''.entries.map Entry.id ++ (gone ++ gone')
      |>.Perm (t''.entries.map Entry.id ++ (gone' ++ gone)) := List.Perm.append_left _ List.perm_append_comm
    _ |>.Perm (t''.entries.map Entry.id ++ gone' ++ gone) := by rw [List.append_assoc]
    _ |>.Perm (t'.entries.map Entry.id ++ gone) := hperm'.append_right _
    _ |>.Perm (t.entries.map Entry.id) := hperm

theorem pruned_expire {before after : List (Entry D)} {e : Entry D} (h : t.entries = before ++ e :: after) :
    Pruned t (t.expire before.length e.id) := by
  obtain ⟨after', hswap, hperm⟩ := Vec.swapRemove_append before e after
  refine ⟨⟨[e.id], rfl, ?_⟩, rfl, fun n hn => hn.record e.id⟩
  show ((Vec.swapRemove t.entries before.length).map Entry.id ++ [e.id]).Perm _
  rw [h, hswap, ← List.map_singleton (f := Entry.id), ← List.map_append, List.append_assoc]
  refine List.Perm.map _ (List.Perm.append_left _ ?_)
  exact (List.perm_append_singleton e after').trans (hperm.cons e)

/-- The loop from the entry after `before` on. -/
theorem pruneFrom_spec (before : List (Entry D)) {after : List (Entry D)} (h : t.entries = before ++ after) :
    Pruned t (t.pruneFrom cfg now after.length before.length) ∧
      (t.pruneFrom cfg now after.length before.length).entries.Perm (before ++ after.filter (·.unexpired cfg now)) := by
  generalize hleft : after.length = left
  induction left generalizing t before after with
  | zero =>
    obtain rfl : after = [] := List.eq_nil_of_length_eq_zero hleft
    exact ⟨.refl t, by rw [show t.pruneFrom cfg now 0 before.length = t from rfl, h]; exact List.Perm.refl _⟩
  | succ left ih =>
    obtain ⟨e, after, rfl⟩ := List.exists_cons_of_length_eq_add_one hleft
    have hget : t.entries[before.length]? = some e := by rw [h]; simp
    have hlen : after.length = left := Nat.succ.inj hleft
    unfold pruneFrom
    rw [hget]
    dsimp only
    split
    · rename_i hdead
      obtain ⟨after', hswap, hperm⟩ := Vec.swapRemove_append before e after
      have hentries : (t.expire before.length e.id).entries = before ++ after' := by
        show Vec.swapRemove t.entries before.length = _
        rw [h, hswap]
      obtain ⟨hpruned, hkept⟩ := ih before hentries (hperm.length_eq.trans hlen)
      refine ⟨(pruned_expire h).trans hpruned, hkept.trans (List.Perm.append_left _ ?_)⟩
      rw [List.filter_cons_of_neg (by simpa [Entry.unexpired] using hdead)]
      exact hperm.filter _
    · rename_i hlive
      have hentries : t.entries = (before ++ [e]) ++ after := by rw [h, List.append_assoc]; rfl
      obtain ⟨hpruned, hkept⟩ := ih (before ++ [e]) hentries hlen
      rw [List.length_append, List.length_singleton] at hpruned hkept
      refine ⟨hpruned, hkept.trans ?_⟩
      rw [List.filter_cons_of_pos (by simpa [Entry.unexpired] using hlive), List.append_assoc]
      exact List.Perm.refl _

theorem pruned_prune (t : SessionTable D) : Pruned t (t.prune cfg now) := (pruneFrom_spec [] rfl).1

theorem prune_entries (t : SessionTable D) : (t.prune cfg now).entries.Perm (t.entries.filter (·.unexpired cfg now)) :=
  (pruneFrom_spec [] rfl).2

theorem remove_fst (found : Entry D → Bool) : (t.remove found).1 = (t.entries.find? found).map Entry.id := by
  unfold remove
  cases h : t.entries.findIdx? found with
  | none =>
    have hnone : t.entries.find? found = none := by
      rw [List.findIdx?_eq_none_iff] at h
      exact List.find?_eq_none.mpr fun e he => by simp [h e he]
    rw [hnone]
    rfl
  | some i =>
    rw [List.findIdx?_eq_some_iff_getElem] at h
    obtain ⟨hi, hp, hno⟩ := h
    have hfind : t.entries.find? found = some t.entries[i] := by
      refine List.find?_eq_some_iff_getElem.mpr ⟨hp, i, hi, rfl, fun j hj => ?_⟩
      simpa using hno j hj
    rw [hfind]
    dsimp only
    rw [List.getElem?_eq_getElem hi]

theorem remove_entries (found : Entry D → Bool) : (t.remove found).2.entries.Perm (t.entries.eraseP found) := by
  unfold remove
  rw [List.eraseP_eq_eraseIdx]
  cases h : t.entries.findIdx? found with
  | none => exact List.Perm.refl _
  | some i =>
    rw [List.findIdx?_eq_some_iff_getElem] at h
    exact Vec.swapRemove_perm h.choose

/-- Everything else is as it was. -/
theorem remove_rest (found : Entry D → Bool) :
    (t.remove found).2.nextId = t.nextId ∧ (t.remove found).2.recentExpired = t.recentExpired ∧
      (t.remove found).2.expired = t.expired := by
  unfold remove
  split <;> exact ⟨rfl, rfl, rfl⟩


/-! ## An entry that comes -/

theorem lru_some {kind : Kind} {i : Nat} {x : Entry D} (h : t.lru kind = some (i, x)) :
    t.entries[i]? = some x ∧ x.kind = kind ∧ ∀ y ∈ t.entries, y.kind = kind → x.lastUsed ≤ y.lastUsed := by
  unfold lru at h
  obtain ⟨⟨j, y, k⟩, hmin, heq⟩ := Option.map_eq_some_iff.mp h
  cases heq
  obtain ⟨hget, hle⟩ := Vec.firstMin_some hmin
  have hmem := List.mem_filter.mp (List.mem_of_getElem? hget)
  refine ⟨List.mem_zipIdx_iff_getElem?.mp hmem.1, by simpa using hmem.2, fun z hz hk => ?_⟩
  obtain ⟨m, hm⟩ := List.mem_iff_getElem?.mp hz
  exact hle (z, m) (List.mem_filter.mpr ⟨List.mem_zipIdx_iff_getElem?.mpr hm, by simpa using hk⟩)

theorem lru_none {kind : Kind} (h : t.lru kind = none) : t.entries.countP (·.kind = kind) = 0 := by
  refine List.countP_eq_zero.mpr fun e he hk => ?_
  obtain ⟨m, hm⟩ := List.mem_iff_getElem?.mp he
  have hmem : (e, m) ∈ t.entries.zipIdx.filter (·.1.kind = kind) :=
    List.mem_filter.mpr ⟨List.mem_zipIdx_iff_getElem?.mpr hm, hk⟩
  have hsome := Vec.firstMin_isSome (fun p => p.1.lastUsed) (List.ne_nil_of_mem hmem)
  rw [lru, Option.map_eq_none_iff] at h
  rw [h] at hsome
  cases hsome

/-- What `insert` evicts before it adds `e`. -/
inductive Evicts (cfg : AuthConfig) (t : SessionTable D) (kind : Kind) : Option Nat → List (Entry D) → Prop
  | room : t.entries.countP (·.kind = kind) < (cfg.policy kind).cap ∨ t.entries.countP (·.kind = kind) = 0 →
      Evicts cfg t kind none t.entries
  | full (i : Nat) (x : Entry D) : t.entries[i]? = some x → x.kind = kind → (cfg.policy kind).cap ≤ t.entries.countP (·.kind = kind) →
      (∀ y ∈ t.entries, y.kind = kind → x.lastUsed ≤ y.lastUsed) → Evicts cfg t kind (some x.id) (Vec.swapRemove t.entries i)

theorem insert_cases (cfg : AuthConfig) (t : SessionTable D) (e : Entry D) :
    ∃ entries, Evicts cfg t e.kind (t.insert cfg e).1 entries ∧ (t.insert cfg e).2 = { t with entries := entries ++ [e] } := by
  unfold insert
  dsimp only
  by_cases hfull : (cfg.policy e.kind).cap ≤ t.entries.countP (·.kind = e.kind)
  · rw [if_pos hfull]
    cases hlru : t.lru e.kind with
    | none => exact ⟨_, .room (.inr (lru_none hlru)), rfl⟩
    | some p =>
      obtain ⟨hget, hk, hle⟩ := lru_some hlru
      exact ⟨_, .full p.1 p.2 hget hk hfull hle, rfl⟩
  · rw [if_neg hfull]
    exact ⟨_, .room (.inl (Nat.not_le.mp hfull)), rfl⟩

/-! ## The books -/

theorem eraseP_perm {found : Entry D → Bool} {e : Entry D} (h : t.entries.find? found = some e) :
    (e :: t.entries.eraseP found).Perm t.entries := by
  obtain ⟨hp, before, after, hsplit, hno⟩ := List.find?_eq_some_iff_append.mp h
  rw [hsplit, List.eraseP_append_right _ fun b hb => by simpa using hno b hb, List.eraseP_cons_of_pos hp]
  exact List.perm_middle.symm

structure Books (cfg : AuthConfig) (t : SessionTable D) (hooked ids : List Nat) : Prop where
  accounted : (t.entries.map Entry.id ++ hooked ++ t.expired).Perm ids
  nodup : ids.Nodup
  fresh : ∀ id ∈ ids, id < t.nextId
  ring : t.recentExpired.Follows (max (cfg.bearer.cap + cfg.browser.cap) 1) t.expired
  room : ∀ kind, 0 < (cfg.policy kind).cap → t.entries.countP (·.kind = kind) ≤ (cfg.policy kind).cap

variable {hooked ids : List Nat}

theorem books_new : Books cfg (new cfg : SessionTable D) [] [] where
  accounted := List.Perm.refl _
  nodup := List.nodup_nil
  fresh := nofun
  ring := Lib.Ring.follows_empty (Nat.lt_of_lt_of_le Nat.zero_lt_one (Nat.le_max_right _ _))
  room := fun _ _ => Nat.zero_le _

theorem Books.ids_nodup (h : Books cfg t hooked ids) : (t.entries.map Entry.id).Nodup := by
  have hn := h.accounted.nodup_iff.mpr h.nodup
  rw [List.append_assoc] at hn
  exact (List.nodup_append.mp hn).1

theorem Books.prune (h : Books cfg t hooked ids) : Books cfg (t.prune cfg now) hooked ids where
  accounted := by
    have hpruned : Pruned t (t.prune cfg now) := pruned_prune t
    obtain ⟨gone, hgone, hperm⟩ := hpruned.gone
    rw [hgone]
    calc (t.prune cfg now).entries.map Entry.id ++ hooked ++ (t.expired ++ gone)
        |>.Perm (gone ++ ((t.prune cfg now).entries.map Entry.id ++ hooked ++ t.expired)) := by
          rw [← List.append_assoc]
          exact List.perm_append_comm
      _ |>.Perm ((t.prune cfg now).entries.map Entry.id ++ gone ++ hooked ++ t.expired) := by
          rw [← List.append_assoc, ← List.append_assoc]
          exact (List.perm_append_comm.append_right _).append_right _
      _ |>.Perm (t.entries.map Entry.id ++ hooked ++ t.expired) := (hperm.append_right _).append_right _
      _ |>.Perm ids := h.accounted
  nodup := h.nodup
  fresh := by
    rw [(pruned_prune t).nextId]
    exact h.fresh
  ring := (pruned_prune t).ring _ h.ring
  room := fun kind hpos => by
    rw [(prune_entries t).countP_eq]
    exact Nat.le_trans List.filter_sublist.countP_le (h.room kind hpos)

/-- An entry taken out is given to the hook. -/
theorem Books.hook (h : Books cfg t hooked ids) {e : Entry D} {entries : List (Entry D)} (hperm : (e :: entries).Perm t.entries) :
    Books cfg { t with entries } (hooked ++ [e.id]) ids := { h with
  accounted := by
    refine List.Perm.trans ?_ h.accounted
    rw [← List.append_assoc]
    refine List.Perm.append_right _ ?_
    refine List.Perm.trans (List.perm_append_singleton e.id _) ?_
    exact (hperm.map Entry.id).append_right hooked
  room := fun kind hpos => by
    have hle := h.room kind hpos
    rw [← hperm.countP_eq, List.countP_cons] at hle
    exact Nat.le_of_add_right_le hle }

theorem Books.remove (h : Books cfg t hooked ids) (found : Entry D → Bool) :
    Books cfg (t.remove found).2 (hooked ++ (t.remove found).1.toList) ids := by
  obtain ⟨hnext, hring, hexp⟩ := remove_rest (t := t) found
  have heq : (t.remove found).2 = { t with entries := (t.remove found).2.entries } := by
    rw [← hnext, ← hring, ← hexp]
  rw [heq, remove_fst]
  cases hf : t.entries.find? found with
  | none =>
    have hno : t.entries.eraseP found = t.entries := List.eraseP_of_forall_not fun e he => by simpa using List.find?_eq_none.mp hf e he
    have hperm := remove_entries (t := t) found
    rw [hno] at hperm
    rw [Option.map_none, Option.toList_none, List.append_nil]
    refine ⟨List.Perm.trans (((hperm.map _).append_right _).append_right _) h.accounted, h.nodup, h.fresh, h.ring, fun kind hpos => ?_⟩
    rw [hperm.countP_eq]
    exact h.room kind hpos
  | some e => exact h.hook (((remove_entries found).cons e).trans (eraseP_perm hf))

theorem Books.use (h : Books cfg t hooked ids) (found : Entry D → Bool) : Books cfg (t.use found now) hooked ids := { h with
  accounted := by
    show ((updateFirst found _ t.entries).map Entry.id ++ hooked ++ t.expired).Perm ids
    rw [map_updateFirst (f := fun e : Entry D => { e with lastUsed := now }) fun _ _ => rfl]
    exact h.accounted
  room := fun kind hpos => by
    show (updateFirst found _ t.entries).countP (·.kind = kind) ≤ _
    rw [countP_updateFirst_eq (f := fun e : Entry D => { e with lastUsed := now }) fun _ _ => rfl]
    exact h.room kind hpos }

theorem Books.clear (h : Books cfg t hooked ids) : Books cfg t.clear.2 (hooked ++ t.clear.1) ids := { h with
  accounted := by
    show ([] ++ (hooked ++ t.entries.map Entry.id) ++ t.expired).Perm ids
    rw [List.nil_append]
    exact (List.perm_append_comm.append_right _).trans h.accounted
  room := fun _ _ => Nat.zero_le _ }

/-- A new entry, under the id just allocated. -/
theorem Books.insert (h : Books cfg t hooked ids) {e : Entry D} (hid : e.id = t.nextId) :
    Books cfg (t.allocId.2.insert cfg e).2 (hooked ++ (t.allocId.2.insert cfg e).1.toList) (ids ++ [t.nextId]) := by
  obtain ⟨entries, hevicts, heq⟩ := insert_cases cfg t.allocId.2 e
  rw [heq]
  generalize (t.allocId.2.insert cfg e).1 = evicted at *
  have hkept : Books cfg { t with entries } (hooked ++ evicted.toList) ids ∧
      (0 < (cfg.policy e.kind).cap → entries.countP (·.kind = e.kind) < (cfg.policy e.kind).cap) := by
    cases hevicts with
    | room hroom =>
      rw [Option.toList_none, List.append_nil]
      refine ⟨h, fun hpos => ?_⟩
      rcases hroom with hroom | hroom
      · exact hroom
      · rw [hroom]
        exact hpos
    | full i x hget hk hfull hle =>
      have hperm : (x :: Vec.swapRemove t.entries i).Perm t.entries := by
        obtain ⟨hi, rfl⟩ := List.getElem?_eq_some_iff.mp hget
        exact ((Vec.swapRemove_perm hi).cons _).trans (List.getElem_cons_eraseIdx_perm hi)
      refine ⟨h.hook hperm, fun hpos => ?_⟩
      have hroom := h.room e.kind hpos
      rw [← hperm.countP_eq, List.countP_cons_of_pos (by simpa using hk)] at hroom
      exact hroom
  obtain ⟨hbooks, hroom⟩ := hkept
  refine ⟨?_, ?_, ?_, hbooks.ring, ?_⟩
  · show ((entries ++ [e]).map Entry.id ++ _ ++ t.expired).Perm _
    rw [List.map_append, List.map_singleton, hid]
    refine List.Perm.trans ?_ (hbooks.accounted.append_right _)
    show (entries.map Entry.id ++ [t.nextId] ++ (hooked ++ evicted.toList) ++ t.expired).Perm
      (entries.map Entry.id ++ (hooked ++ evicted.toList) ++ t.expired ++ [t.nextId])
    generalize hooked ++ evicted.toList = given
    simp only [List.append_assoc]
    refine List.Perm.append_left _ ?_
    rw [← List.append_assoc given]
    exact List.perm_append_comm
  · exact List.nodup_append.mpr ⟨h.nodup, List.nodup_singleton _, fun id hid' id' hid'' => by
      rw [List.mem_singleton.mp hid'']
      exact Nat.ne_of_lt (h.fresh id hid')⟩
  · intro id hmem
    rcases List.mem_append.mp hmem with hmem | hmem
    · exact Nat.lt_succ_of_lt (h.fresh id hmem)
    · rw [List.mem_singleton.mp hmem]
      exact Nat.lt_succ_self _
  · intro kind hpos
    show (entries ++ [e]).countP (·.kind = kind) ≤ _
    rw [List.countP_append, List.countP_singleton]
    by_cases hk : e.kind = kind
    · subst hk
      simpa using Nat.succ_le_of_lt (hroom hpos)
    · simpa [hk] using hbooks.room kind hpos

/-- The digests go in turn, and each entry that has one of them goes. -/
theorem removeDigests_spec [DecidableEq D] (kind : Kind) (h : Books cfg t hooked ids)
    (hkeys : (t.entries.map Entry.key).Nodup) (ds : List D) :
    Books cfg (t.removeDigests kind ds).2 (hooked ++ (t.removeDigests kind ds).1) ids ∧
      (t.removeDigests kind ds).2.nextId = t.nextId ∧
      (t.removeDigests kind ds).2.entries.Perm (t.entries.filter fun e => !(e.kind = kind ∧ e.digest ∈ ds)) := by
  induction ds generalizing t hooked with
  | nil =>
    refine ⟨by simpa [removeDigests] using h, rfl, ?_⟩
    rw [List.filter_eq_self.mpr fun e _ => by simp]
    exact List.Perm.refl _
  | cons d ds ih =>
    have hperm : (t.removeDigest kind d).2.entries.Perm (t.entries.filter fun e => e.key ≠ (kind, d)) := by
      rw [← eraseP_eq_filter hkeys]
      refine (remove_entries (Entry.has kind d)).trans ?_
      rw [Entry.has_eq]
      exact List.Perm.refl _
    have hkeys' : ((t.removeDigest kind d).2.entries.map Entry.key).Nodup :=
      (hperm.map _).nodup_iff.mpr (hkeys.sublist (List.filter_sublist.map _))
    obtain ⟨hbooks, hnext, hentries⟩ := ih (h.remove (·.has kind d)) hkeys'
    refine ⟨by rw [List.append_assoc] at hbooks; exact hbooks, hnext.trans (remove_rest _).1, hentries.trans ?_⟩
    refine (hperm.filter _).trans ?_
    rw [List.filter_filter]
    refine List.Perm.of_eq (List.filter_congr fun e _ => ?_)
    by_cases hk : e.kind = kind <;> by_cases hd : e.digest = d <;> simp [Entry.key, hk, hd]

end SessionTable

end OpenU60.Auth
