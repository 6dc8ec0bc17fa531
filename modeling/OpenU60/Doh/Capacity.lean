/-
  OpenU60.Doh.Capacity — what the cache of the DNS proxy promises over a run of calls
  (`zte-agent/src/doh/cache.rs`).

  A step of a run is a call at an instant, with the order the map is gone through in while the call runs.
  Room is made before the call knows what it is for (`makeRoom`): an answer that is not stored, or that
  takes the place of one under its own key, costs another entry all the same.
  - `length_run`: there is never more than the cache is for, unless that is nothing.
  - `served_run`: what `get` gives is within its lifetime, 60 s for a negative answer.
  - `cache_law_iff`: with the other entries left alone, that is the law of a run exactly where calls that
    need no room find some, or their own entry closest to expiry (`OwnRoom`).
  - `replaced_at_anothers_cost` is a run that breaks it.
-/

import OpenU60.Doh.Cache
import OpenU60.Lib.Machine

namespace OpenU60.Doh

open OpenU60.Lib

/-- The order a map is gone through in: nothing says which. -/
structure Iteration (β : Type) where
  order : List β → List β
  perm : ∀ l, (order l).Perm l

inductive CacheCall
  | get (qname : Bytes) (qtype clientId : Nat)
  | insert (qname : Bytes) (qtype : Nat) (response : Bytes) (ttl : Nat)
  | clear

structure CacheStep where
  now : Nat
  call : CacheCall
  iteration : Iteration ((Bytes × Nat) × CacheEntry Unit)

namespace DnsCache

variable {α : Type}

def inOrder (cache : DnsCache α) (iteration : Iteration ((Bytes × Nat) × CacheEntry α)) : DnsCache α :=
  { cache with entries := iteration.order cache.entries }

/-- What `insert` does first. -/
def makeRoom (cache : DnsCache α) (now : Nat) : DnsCache α :=
  let cache := if cache.maxEntries ≤ cache.entries.length then cache.prune now else cache
  if cache.maxEntries ≤ cache.entries.length then cache.evict else cache

theorem insert_eq (cache : DnsCache α) (qname : Bytes) (qtype : Nat) (response : Bytes) (ttl now : Nat) (origin : α) :
    cache.insert qname qtype response ttl now origin =
      if effectiveTtl response ttl = 0 then cache.makeRoom now
      else
        let entry := ⟨rewriteId response 0, now + effectiveTtl response ttl * 1000000000, origin⟩
        { cache.makeRoom now with entries := ((qname, qtype), entry) :: ((cache.makeRoom now).remove (qname, qtype)).entries } := rfl

def step (cache : DnsCache Unit) (s : CacheStep) : DnsCache Unit :=
  match s.call with
  | .get .. => cache
  | .insert qname qtype response ttl => (cache.inOrder s.iteration).insert qname qtype response ttl s.now ()
  | .clear => cache.clear

/-- `DnsCache::new`, and the calls. -/
def run (maxEntries : Nat) (steps : List CacheStep) : DnsCache Unit := Machine.exec step { maxEntries } steps

/-! ## What making room costs -/

section

variable {cache : DnsCache α} {now : Nat} {e : (Bytes × Nat) × CacheEntry α}

theorem evict_maxEntries (cache : DnsCache α) : cache.evict.maxEntries = cache.maxEntries := by
  unfold evict
  split <;> rfl

theorem prune_length_le (cache : DnsCache α) (now : Nat) : (cache.prune now).entries.length ≤ cache.entries.length :=
  List.length_filter_le ..

theorem makeRoom_eq (cache : DnsCache α) (now : Nat) : cache.makeRoom now =
    if cache.maxEntries ≤ (cache.prune now).entries.length then (cache.prune now).evict
    else if cache.maxEntries ≤ cache.entries.length then cache.prune now else cache := by
  have hle := prune_length_le cache now
  unfold makeRoom
  by_cases hfull : cache.maxEntries ≤ cache.entries.length
  · simp only [if_pos hfull]
    rfl
  · have hroom : ¬ cache.maxEntries ≤ (cache.prune now).entries.length := by omega
    simp only [if_neg hfull, if_neg hroom]

theorem makeRoom_maxEntries (cache : DnsCache α) (now : Nat) : (cache.makeRoom now).maxEntries = cache.maxEntries := by
  rw [makeRoom_eq]
  split
  · exact evict_maxEntries _
  · split
    all_goals rfl

theorem mem_prune_of (he : e ∈ cache.entries) (hlive : now < e.2.expires) : e ∈ (cache.prune now).entries :=
  List.mem_filter.mpr ⟨he, by simpa using hlive⟩

/-- An entry that is not expired is there after room was made, unless it is the one that makes way. -/
theorem mem_makeRoom_iff (he : e ∈ cache.entries) (hlive : now < e.2.expires) : e ∈ (cache.makeRoom now).entries ↔
    (cache.maxEntries ≤ (cache.prune now).entries.length → ∀ x ∈ (cache.prune now).entries.argmin (·.2.expires), e.1 ≠ x.1) := by
  have hpruned := mem_prune_of he hlive
  rw [makeRoom_eq]
  by_cases hfull : cache.maxEntries ≤ (cache.prune now).entries.length
  · rw [if_pos hfull]
    unfold evict
    cases hmin : (cache.prune now).entries.argmin (·.2.expires) with
    | none => simp [hpruned]
    | some x => simp [remove, hpruned, hfull]
  · rw [if_neg hfull]
    refine iff_of_true ?_ fun h => absurd h hfull
    split
    · exact hpruned
    · exact he

theorem mem_of_mem_makeRoom (he : e ∈ (cache.makeRoom now).entries) : e ∈ cache.entries := by
  rw [makeRoom_eq] at he
  split at he
  · exact mem_prune (mem_evict he)
  · split at he
    · exact mem_prune he
    · exact he

theorem evict_length_lt (hne : cache.entries ≠ []) : cache.evict.entries.length < cache.entries.length := by
  unfold evict
  cases hmin : cache.entries.argmin (·.2.expires) with
  | none => exact absurd (List.argmin_eq_none.mp hmin) hne
  | some x =>
    have hx := List.argmin_mem hmin
    refine lt_of_le_of_ne (List.length_filter_le ..) fun heq => ?_
    have hall := List.length_filter_eq_length_iff.mp heq x hx
    simp at hall

theorem makeRoom_length_lt (hmax : 1 ≤ cache.maxEntries) (hle : cache.entries.length ≤ cache.maxEntries) :
    (cache.makeRoom now).entries.length < cache.maxEntries := by
  have hpruned := prune_length_le cache now
  rw [makeRoom_eq]
  by_cases hfull : cache.maxEntries ≤ (cache.prune now).entries.length
  · rw [if_pos hfull]
    have hne : (cache.prune now).entries ≠ [] := by
      intro hnil
      rw [hnil, List.length_nil] at hfull
      omega
    have := evict_length_lt hne
    omega
  · rw [if_neg hfull]
    split <;> omega

end

/-! ## The law of a run -/

def Stores (call : CacheCall) : Prop :=
  match call with
  | .insert _ _ response ttl => effectiveTtl response ttl ≠ 0
  | _ => False

/-- What `get` gives was stored under its key by an earlier step, whose lifetime is not up: 60 s at most for
    a negative answer. -/
def Served (maxEntries : Nat) (before : List CacheStep) (s : CacheStep) : Prop :=
  match s.call with
  | .get qname qtype clientId => ∀ reply origin, (run maxEntries before).get qname qtype clientId s.now = some (reply, origin) →
      ∃ stored ∈ before, ∃ response ttl, stored.call = .insert qname qtype response ttl ∧
        reply = rewriteId (rewriteId response 0) clientId ∧ s.now < stored.now + ttl * 1000000000 ∧
        (4 ≤ response.length → response.getD 3 0 &&& 0x0F = 2 ∨ response.getD 3 0 &&& 0x0F = 3 → s.now < stored.now + 60 * 1000000000)
  | _ => True

/-- The call stores nothing, or in the place of an entry. -/
def NeedsNone (cache : DnsCache Unit) (qname : Bytes) (qtype : Nat) (response : Bytes) (ttl : Nat) : Prop :=
  effectiveTtl response ttl = 0 ∨ ∃ e ∈ cache.entries, e.1 = (qname, qtype)

/-- Then the other entries stay, the expired ones apart. -/
def Spares (cache : DnsCache Unit) (s : CacheStep) : Prop :=
  match s.call with
  | .insert qname qtype response ttl => cache.NeedsNone qname qtype response ttl →
      ∀ e ∈ cache.entries, e.1 ≠ (qname, qtype) → s.now < e.2.expires → e ∈ (cache.step s).entries
  | _ => True

def Law (maxEntries : Nat) (steps : List CacheStep) : Prop :=
  (∀ before after, steps = before ++ after → (run maxEntries before).entries.length ≤ maxEntries) ∧
    ∀ before s after, steps = before ++ s :: after → Served maxEntries before s ∧ (run maxEntries before).Spares s

/-- There is room once the expired entries are gone, or the entry closest to expiry is the call's own. -/
def OwnRoom (cache : DnsCache Unit) (s : CacheStep) : Prop :=
  let live := ((cache.inOrder s.iteration).prune s.now).entries
  match s.call with
  | .insert qname qtype response ttl => cache.NeedsNone qname qtype response ttl →
      live.length < cache.maxEntries ∨ ∀ e ∈ live.argmin (·.2.expires), e.1 = (qname, qtype)
  | _ => True

/-! ## Sizes -/

theorem step_maxEntries (cache : DnsCache Unit) (s : CacheStep) : (cache.step s).maxEntries = cache.maxEntries := by
  unfold step
  split
  · rfl
  · rw [insert_eq]
    split
    all_goals exact makeRoom_maxEntries ..
  · rfl

theorem inOrder_length (cache : DnsCache α) (iteration : Iteration ((Bytes × Nat) × CacheEntry α)) :
    (cache.inOrder iteration).entries.length = cache.entries.length := (iteration.perm _).length_eq

theorem mem_inOrder {cache : DnsCache α} {iteration : Iteration ((Bytes × Nat) × CacheEntry α)} {e : (Bytes × Nat) × CacheEntry α} :
    e ∈ (cache.inOrder iteration).entries ↔ e ∈ cache.entries := (iteration.perm _).mem_iff

theorem step_length {cache : DnsCache Unit} (s : CacheStep) (hmax : 1 ≤ cache.maxEntries) (hle : cache.entries.length ≤ cache.maxEntries) :
    (cache.step s).entries.length ≤ cache.maxEntries := by
  unfold step
  split
  · exact hle
  · have hroom : ((cache.inOrder s.iteration).makeRoom s.now).entries.length < cache.maxEntries :=
      makeRoom_length_lt hmax (by rwa [inOrder_length])
    rw [insert_eq]
    split
    · omega
    · rename_i qname qtype response ttl _ _
      have : (((cache.inOrder s.iteration).makeRoom s.now).remove (qname, qtype)).entries.length
          ≤ ((cache.inOrder s.iteration).makeRoom s.now).entries.length := List.length_filter_le ..
      simp only [List.length_cons]
      omega
  · exact Nat.zero_le _

/-- A call that does not store leaves an empty cache empty. -/
theorem step_nil {cache : DnsCache Unit} {s : CacheStep} (hs : ¬ Stores s.call) (hnil : cache.entries = []) : (cache.step s).entries = [] := by
  unfold step
  split
  · exact hnil
  · rename_i response ttl hcall
    rw [hcall] at hs
    rw [insert_eq, if_pos (not_not.mp hs)]
    refine List.eq_nil_iff_forall_not_mem.mpr fun e he => ?_
    have hsub := mem_of_mem_makeRoom he
    rw [mem_inOrder, hnil] at hsub
    cases hsub
  · rfl

theorem length_run {maxEntries : Nat} {steps : List CacheStep} (h : 1 ≤ maxEntries ∨ ∀ s ∈ steps, ¬ Stores s.call) :
    (run maxEntries steps).entries.length ≤ maxEntries := by
  rcases h with hmax | hnone
  · refine (Machine.invariant (I := fun c : DnsCache Unit => c.maxEntries = maxEntries ∧ c.entries.length ≤ maxEntries) ?_ ⟨rfl, Nat.zero_le _⟩).2
    rintro c s ⟨rfl, hle⟩
    exact ⟨step_maxEntries c s, step_length s hmax hle⟩
  · have halong : Machine.Along step (fun _ s => ¬ Stores s.call) { maxEntries } steps := Machine.along_of_forall hnone
    have hnil : (run maxEntries steps).entries = [] :=
      Machine.invariant_along (I := fun c : DnsCache Unit => c.entries = []) (fun c s hc hs => step_nil hs hc) rfl halong
    rw [hnil]
    exact Nat.zero_le _

/-- A call that stores leaves an entry. -/
theorem step_stored {cache : DnsCache Unit} {s : CacheStep} (hs : Stores s.call) : 1 ≤ (cache.step s).entries.length := by
  unfold step
  cases hcall : s.call with
  | insert qname qtype response ttl =>
    rw [hcall] at hs
    dsimp only
    rw [insert_eq, if_neg hs]
    simp
  | get | clear =>
    rw [hcall] at hs
    cases hs

/-! ## The others -/

/-- An entry with another key is there after an insertion if it outlasted the room made. -/
theorem mem_insert_iff {cache : DnsCache α} {qname response : Bytes} {qtype ttl now : Nat} {origin : α} {e : (Bytes × Nat) × CacheEntry α}
    (hkey : e.1 ≠ (qname, qtype)) :
    e ∈ (cache.insert qname qtype response ttl now origin).entries ↔ e ∈ (cache.makeRoom now).entries := by
  rw [insert_eq]
  split
  · rfl
  · simp only [List.mem_cons, remove, List.mem_filter, ne_eq, hkey, not_false_eq_true, decide_true, and_true]
    refine or_iff_right fun heq => hkey ?_
    rw [heq]

theorem spares_iff (cache : DnsCache Unit) (s : CacheStep) : cache.Spares s ↔ cache.OwnRoom s := by
  unfold Spares OwnRoom step
  cases s.call with
  | get | clear => rfl
  | insert qname qtype response ttl =>
    dsimp only
    refine imp_congr_right fun _ => ?_
    constructor
    · intro hspares
      by_cases hfull : cache.maxEntries ≤ ((cache.inOrder s.iteration).prune s.now).entries.length
      · refine .inr fun x hx => ?_
        by_contra hother
        have hlive := List.mem_filter.mp (List.argmin_mem hx)
        have hexpires : s.now < x.2.expires := by simpa using hlive.2
        have hkept := (mem_insert_iff hother).mp (hspares x (mem_inOrder.mp hlive.1) hother hexpires)
        exact (mem_makeRoom_iff hlive.1 hexpires).mp hkept hfull x hx rfl
      · exact .inl (by omega)
    · intro hroom e he hother hexpires
      refine (mem_insert_iff hother).mpr ((mem_makeRoom_iff (mem_inOrder.mpr he) hexpires).mpr fun hfull x hx => ?_)
      rcases hroom with hroom | hown
      · exact absurd hfull (Nat.not_le.mpr hroom)
      · rw [hown x hx]
        exact hother

/-! ## Lifetimes -/

/-- What an entry was stored by. -/
def StoredBy (steps : List CacheStep) (e : (Bytes × Nat) × CacheEntry Unit) : Prop :=
  ∃ stored ∈ steps, ∃ response ttl, stored.call = .insert e.1.1 e.1.2 response ttl ∧ e.2.response = rewriteId response 0 ∧
    e.2.expires = stored.now + effectiveTtl response ttl * 1000000000

theorem mem_step {cache : DnsCache Unit} {s : CacheStep} {e : (Bytes × Nat) × CacheEntry Unit} (he : e ∈ (cache.step s).entries) :
    e ∈ cache.entries ∨ StoredBy [s] e := by
  unfold step at he
  split at he
  · exact .inl he
  · rename_i qname qtype response ttl hcall
    rw [insert_eq] at he
    split at he
    · exact .inl (mem_inOrder.mp (mem_of_mem_makeRoom he))
    · rcases List.mem_cons.mp he with rfl | he
      · exact .inr ⟨s, List.mem_singleton_self s, response, ttl, hcall, rfl, rfl⟩
      · exact .inl (mem_inOrder.mp (mem_of_mem_makeRoom (mem_remove he)))
  · cases he

theorem storedBy_run {maxEntries : Nat} {steps : List CacheStep} {e : (Bytes × Nat) × CacheEntry Unit}
    (he : e ∈ (run maxEntries steps).entries) : StoredBy steps e := by
  induction steps using List.reverseRecOn with
  | nil => cases he
  | append_singleton steps s ih =>
    rw [run, Machine.exec_snoc] at he
    rcases mem_step he with he | ⟨stored, hmem, h⟩
    · obtain ⟨stored, hmem, h⟩ := ih he
      exact ⟨stored, List.mem_append_left _ hmem, h⟩
    · exact ⟨stored, List.mem_append_right _ hmem, h⟩

theorem effectiveTtl_le (response : Bytes) (ttl : Nat) : effectiveTtl response ttl ≤ ttl := by
  unfold effectiveTtl
  dsimp only
  split
  · split
    · exact Nat.min_le_left ..
    · exact le_rfl
  · exact le_rfl

theorem effectiveTtl_negative {response : Bytes} {ttl : Nat} (hlong : 4 ≤ response.length)
    (hcode : response.getD 3 0 &&& 0x0F = 2 ∨ response.getD 3 0 &&& 0x0F = 3) : effectiveTtl response ttl ≤ 60 := by
  unfold effectiveTtl
  rw [if_pos hlong]
  dsimp only
  rw [if_pos hcode]
  exact Nat.min_le_right ..

theorem served_run (maxEntries : Nat) (before : List CacheStep) (s : CacheStep) : Served maxEntries before s := by
  unfold Served
  split
  · rename_i qname qtype clientId _
    intro reply origin hget
    obtain ⟨entry, hlookup, hentry⟩ := Option.bind_eq_some_iff.mp hget
    split at hentry
    · cases hentry
    · rename_i hlive
      obtain ⟨rfl, -⟩ := Prod.mk.inj (Option.some.inj hentry)
      obtain ⟨l₁, l₂, hentries, -⟩ := List.lookup_eq_some_iff.mp hlookup
      have hmem : ((qname, qtype), entry) ∈ (run maxEntries before).entries := hentries ▸ List.mem_append_right l₁ List.mem_cons_self
      obtain ⟨stored, hstored, response, ttl, hcall, hresponse, hexpires⟩ := storedBy_run hmem
      dsimp only at hcall hresponse hexpires
      have hle := effectiveTtl_le response ttl
      refine ⟨stored, hstored, response, ttl, hcall, by rw [hresponse], by omega, fun hlong hcode => ?_⟩
      have : effectiveTtl response ttl ≤ 60 := effectiveTtl_negative hlong hcode
      omega
  · trivial

/-! ## The law -/

theorem cache_law_iff (maxEntries : Nat) (steps : List CacheStep) : Law maxEntries steps ↔
    (1 ≤ maxEntries ∨ ∀ s ∈ steps, ¬ Stores s.call) ∧
      ∀ before s after, steps = before ++ s :: after → (run maxEntries before).OwnRoom s := by
  constructor
  · rintro ⟨hlength, hsteps⟩
    refine ⟨?_, fun before s after h => (spares_iff ..).mp (hsteps before s after h).2⟩
    by_contra hnone
    obtain ⟨hmax, s, hs, hstores⟩ : ¬ 1 ≤ maxEntries ∧ ∃ s ∈ steps, Stores s.call := by
      push Not at hnone
      exact ⟨by omega, hnone.2⟩
    obtain ⟨before, after, rfl⟩ := List.append_of_mem hs
    have hone := hlength (before ++ [s]) after (by simp)
    have hstored : 1 ≤ ((run maxEntries before).step s).entries.length := step_stored hstores
    rw [run, Machine.exec_snoc] at hone
    exact hmax (hstored.trans hone)
  · rintro ⟨hmax, hroom⟩
    constructor
    · rintro before after rfl
      exact length_run (hmax.imp_right fun hnone s hs => hnone s (List.mem_append_left _ hs))
    · intro before s after h
      exact ⟨served_run maxEntries before s, (spares_iff ..).mpr (hroom before s after h)⟩

/-- A short-lived `a`, and `b` twice, in a cache for two. -/
def replacing : List CacheStep :=
  [⟨0, .insert [0x61] 1 [] 10, ⟨id, fun l => .refl l⟩⟩, ⟨1, .insert [0x62] 1 [] 300, ⟨id, fun l => .refl l⟩⟩,
   ⟨2, .insert [0x62] 1 [] 300, ⟨id, fun l => .refl l⟩⟩]

theorem replaced_at_anothers_cost : ¬ Law 2 replacing := by
  intro h
  have hspares := (h.2 (replacing.take 2) _ [] rfl).2
  have hkept := hspares (.inr ⟨(([0x62], 1), ⟨[], 300000000001, ()⟩), by decide +kernel, rfl⟩) (([0x61], 1), ⟨[], 10000000000, ()⟩)
    (by decide +kernel) (by decide +kernel) (by decide +kernel)
  revert hkept
  decide +kernel

end DnsCache

end OpenU60.Doh
