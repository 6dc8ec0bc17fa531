/-
  OpenU60.Doh.Cache — the answers the DNS proxy keeps (`zte-agent/src/doh/cache.rs`).

  An entry also carries where its answer is from, which nothing reads. Entries stand in the order
  of the map's iteration. Instants are nanoseconds.
  - `mem_insert`: an insertion brings at most the one entry it is asked to.
-/

import Mathlib
import OpenU60.Doh.Packet

namespace OpenU60.Doh

structure CacheEntry (α : Type) where
  /-- With transaction id 0. -/
  response : Bytes
  expires : Nat
  origin : α
  deriving DecidableEq

structure DnsCache (α : Type) where
  entries : List ((Bytes × Nat) × CacheEntry α) := []
  maxEntries : Nat

namespace DnsCache

variable {α : Type}

def get (cache : DnsCache α) (qname : Bytes) (qtype clientId now : Nat) : Option (Bytes × α) :=
  (cache.entries.lookup (qname, qtype)).bind fun entry =>
    if entry.expires ≤ now then none else some (rewriteId entry.response clientId, entry.origin)

def remove (cache : DnsCache α) (key : Bytes × Nat) : DnsCache α := { cache with entries := cache.entries.filter (·.1 ≠ key) }

def prune (cache : DnsCache α) (now : Nat) : DnsCache α := { cache with entries := cache.entries.filter (now < ·.2.expires) }

def clear (cache : DnsCache α) : DnsCache α := { cache with entries := [] }

/-- The entry closest to expiry makes way. -/
def evict (cache : DnsCache α) : DnsCache α :=
  match cache.entries.argmin (·.2.expires) with
  | some (key, _) => cache.remove key
  | none => cache

/-- Negative responses (NXDOMAIN = 3, SERVFAIL = 2) stay for 60 s at most. -/
def effectiveTtl (response : Bytes) (ttl : Nat) : Nat :=
  if 4 ≤ response.length then
    let rcode := response.getD 3 0 &&& 0x0F
    if rcode = 2 ∨ rcode = 3 then min ttl 60 else ttl
  else ttl

def insert (cache : DnsCache α) (qname : Bytes) (qtype : Nat) (response : Bytes) (ttl now : Nat) (origin : α) : DnsCache α :=
  let cache := if cache.maxEntries ≤ cache.entries.length then cache.prune now else cache
  let cache := if cache.maxEntries ≤ cache.entries.length then cache.evict else cache
  if effectiveTtl response ttl = 0 then cache
  else
    let entry := ⟨rewriteId response 0, now + effectiveTtl response ttl * 1000000000, origin⟩
    { cache with entries := ((qname, qtype), entry) :: (cache.remove (qname, qtype)).entries }

/-! ## Entries -/

variable {cache : DnsCache α} {e : (Bytes × Nat) × CacheEntry α}

theorem mem_remove {key : Bytes × Nat} (h : e ∈ (cache.remove key).entries) : e ∈ cache.entries := List.mem_of_mem_filter h

theorem mem_prune {now : Nat} (h : e ∈ (cache.prune now).entries) : e ∈ cache.entries := List.mem_of_mem_filter h

theorem mem_evict (h : e ∈ cache.evict.entries) : e ∈ cache.entries := by
  unfold evict at h
  split at h
  · exact mem_remove h
  · exact h

/-- What an insertion leaves: entries of before, and its own if that has a lifetime. -/
theorem mem_insert {qname response : Bytes} {qtype ttl now : Nat} {origin : α}
    (h : e ∈ (cache.insert qname qtype response ttl now origin).entries) :
    e ∈ cache.entries ∨ effectiveTtl response ttl ≠ 0 ∧ e.1 = (qname, qtype) ∧ e.2.response = rewriteId response 0 ∧ e.2.origin = origin := by
  have hroom : ∀ {cache' : DnsCache α}, (∀ e ∈ cache'.entries, e ∈ cache.entries) → ∀ e ∈
      (if cache'.maxEntries ≤ cache'.entries.length then cache'.evict else cache').entries, e ∈ cache.entries := by
    intro cache' hsub e he
    split at he
    · exact hsub e (mem_evict he)
    · exact hsub e he
  have hpruned : ∀ e ∈ (if cache.maxEntries ≤ cache.entries.length then cache.prune now else cache).entries, e ∈ cache.entries := by
    intro e he
    split at he
    · exact mem_prune he
    · exact he
  unfold insert at h
  dsimp only at h
  split at h
  · exact .inl (hroom hpruned e h)
  · rename_i httl
    rcases List.mem_cons.mp h with rfl | h
    · exact .inr ⟨httl, rfl, rfl, rfl⟩
    · exact .inl (hroom hpruned e (mem_remove h))

/-- A served answer is the one of an entry of the key. -/
theorem get_some {qname reply : Bytes} {qtype clientId now : Nat} {origin : α} (h : cache.get qname qtype clientId now = some (reply, origin)) :
    ∃ entry, ((qname, qtype), entry) ∈ cache.entries ∧ entry.origin = origin ∧ reply = rewriteId entry.response clientId := by
  obtain ⟨entry, hlookup, hentry⟩ := Option.bind_eq_some_iff.mp h
  split at hentry
  · cases hentry
  · cases hentry
    obtain ⟨l₁, l₂, hentries, -⟩ := List.lookup_eq_some_iff.mp hlookup
    exact ⟨entry, hentries ▸ List.mem_append_right l₁ List.mem_cons_self, rfl, rfl⟩

/-- Right after an insertion the answer is served. -/
theorem get_insert {qname response : Bytes} {qtype ttl now clientId : Nat} {origin : α} (httl : effectiveTtl response ttl ≠ 0) :
    (cache.insert qname qtype response ttl now origin).get qname qtype clientId now
      = some (rewriteId (rewriteId response 0) clientId, origin) := by
  unfold insert get
  dsimp only
  rw [if_neg httl, List.lookup_cons_self, Option.bind_some]
  have hlater : ¬ now + effectiveTtl response ttl * 1000000000 ≤ now := by omega
  exact if_neg hlater

end DnsCache

end OpenU60.Doh
