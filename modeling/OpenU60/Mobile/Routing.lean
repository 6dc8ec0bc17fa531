/-
  OpenU60.Mobile.Routing — which peers a table admits (`zte-agent/src/httpd/mobile.rs`: `admits`).

  The kernel answers a peer through the interface with the longest prefix that holds it; `Nearest` says
  that one is not on the mobile side, without the maximum that finds it.
  - `contains_mask`: the subnets are those of the code's masks, at no bit, some or all of them.
  - `admits_iff`: a peer is served as loopback, as an address of the router, by its scope or by `Nearest`.
  - `scope_iff`: the scope is looked up in the first entry that has it; when a scope is one interface's,
    any entry says the same (`OneName`).
  - `admission_routes` is all of it with what follows for two tables: their order, an entry of the mobile
    side more, another entry more.

  A scope that two interfaces share goes by the first: `shared_scope_goes_by_the_first`.
-/

import Mathlib
import OpenU60.Lib.Prefix
import OpenU60.Mobile.Guard

namespace OpenU60.Mobile

open OpenU60.Lib.Prefix

/-! ## Subnets -/

/-- `MAX.checked_shl(w - len).unwrap_or(0)`: the bits that count. -/
def keepMask (w len : Nat) : BitVec w := if w - len < w then BitVec.allOnes w <<< (w - len) else 0

theorem and_keepMask {w : Nat} (len : Nat) (n a : BitVec w) :
    n &&& keepMask w len = a &&& keepMask w len ↔ n >>> (w - len) = a >>> (w - len) := by
  rw [← BitVec.toNat_inj, ← BitVec.toNat_inj, BitVec.toNat_ushiftRight, BitVec.toNat_ushiftRight,
    Nat.shiftRight_eq_div_pow, Nat.shiftRight_eq_div_pow]
  unfold keepMask
  by_cases hsome : w - len < w
  · rw [if_pos hsome, toNat_and_high, toNat_and_high]
    exact Nat.mul_left_inj (Nat.ne_of_gt (Nat.two_pow_pos _))
  · -- no bit counts
    have hall : w - len = w := by omega
    rw [if_neg hsome, hall, Nat.div_eq_of_lt n.isLt, Nat.div_eq_of_lt a.isLt]
    simp

theorem contains_mask (i : IfAddr) (ip : IpAddr) : contains i ip = true ↔
    (∃ n a, i.addr = .v4 n ∧ ip = .v4 a ∧ n &&& keepMask 32 (bits i) = a &&& keepMask 32 (bits i)) ∨
    (∃ n a, i.addr = .v6 n ∧ ip = .v6 a ∧ n &&& keepMask 128 (bits i) = a &&& keepMask 128 (bits i)) := by
  unfold contains
  cases haddr : i.addr with
  | v4 n =>
    cases ip with
    | v4 a =>
      rw [decide_eq_true_eq, ← and_keepMask]
      simp
    | v6 a => simp
  | v6 n =>
    cases ip with
    | v4 a => simp
    | v6 a =>
      rw [decide_eq_true_eq, ← and_keepMask]
      simp

/-! ## The nearest subnet -/

variable {table : Table}

theorem maxByKey_spec {key : IfAddr → Nat} {i : IfAddr} (h : maxByKey key table = some i) :
    i ∈ table ∧ ∀ j ∈ table, key j ≤ key i := by
  induction table generalizing i with
  | nil => cases h
  | cons first rest ih =>
    unfold maxByKey at h
    cases hrest : maxByKey key rest with
    | none =>
      rw [hrest] at h
      cases h
      cases rest with
      | nil => exact ⟨List.mem_cons_self, fun j hj => by cases List.mem_singleton.mp hj; exact Nat.le_refl _⟩
      | cons second rest =>
        unfold maxByKey at hrest
        split at hrest
        · split at hrest <;> cases hrest
        · cases hrest
    | some k =>
      obtain ⟨hmem, hmax⟩ := ih hrest
      rw [hrest] at h
      dsimp only at h
      split at h
      · cases h
        refine ⟨List.mem_cons_of_mem _ hmem, ?_⟩
        intro j hj
        cases List.mem_cons.mp hj with
        | inl hfirst =>
          subst hfirst
          assumption
        | inr hlater => exact hmax j hlater
      · cases h
        refine ⟨List.mem_cons_self, ?_⟩
        intro j hj
        cases List.mem_cons.mp hj with
        | inl hfirst =>
          subst hfirst
          exact Nat.le_refl _
        | inr hlater =>
          have hle := hmax j hlater
          omega

theorem maxByKey_some (key : IfAddr → Nat) {i : IfAddr} (h : i ∈ table) : ∃ j, maxByKey key table = some j := by
  cases table with
  | nil => cases h
  | cons first rest =>
    unfold maxByKey
    split
    · split <;> exact ⟨_, rfl⟩
    · exact ⟨_, rfl⟩

/-- A subnet that is not on the mobile side holds the address, and those that are only do with shorter
    prefixes. -/
def Nearer (table : Table) (ip : IpAddr) : Prop :=
  ∃ i ∈ table, mobileSide i.name = false ∧ contains i ip = true ∧
    ∀ j ∈ table, mobileSide j.name = true → contains j ip = true → bits j < bits i

/-- The same of the longest prefix of such a subnet. -/
def Nearest (table : Table) (ip : IpAddr) : Prop :=
  ∃ i ∈ table, mobileSide i.name = false ∧ contains i ip = true ∧
    (∀ j ∈ table, mobileSide j.name = false → contains j ip = true → bits j ≤ bits i) ∧
    ∀ j ∈ table, mobileSide j.name = true → contains j ip = true → bits j < bits i

variable {ip : IpAddr}

theorem nearest_of_subnetOf (h : (subnetOf table ip).any (!mobileSide ·.name) = true) :
    Nearest table ip := by
  unfold subnetOf at h
  cases hmost : maxByKey (fun i => 2 * bits i + if mobileSide i.name then 1 else 0) (table.filter (contains · ip)) with
  | none =>
    rw [hmost] at h
    cases h
  | some i =>
    rw [hmost] at h
    have hside : mobileSide i.name = false := (Bool.not_eq_true' _).mp h
    obtain ⟨hmem, hmax⟩ := maxByKey_spec hmost
    obtain ⟨hi, hholds⟩ := List.mem_filter.mp hmem
    refine ⟨i, hi, hside, hholds, ?_, ?_⟩
    · intro j hj hother hcontains
      have hle := hmax j (List.mem_filter.mpr ⟨hj, hcontains⟩)
      rw [hside, hother] at hle
      simp only [Bool.false_eq_true, if_false] at hle
      omega
    · intro j hj hmobile hcontains
      have hle := hmax j (List.mem_filter.mpr ⟨hj, hcontains⟩)
      rw [hside, hmobile] at hle
      simp only [Bool.false_eq_true, if_false, if_true] at hle
      omega

theorem subnetOf_of_nearer (h : Nearer table ip) :
    (subnetOf table ip).any (!mobileSide ·.name) = true := by
  obtain ⟨i, hi, hside, hholds, hshort⟩ := h
  have hmem : i ∈ table.filter (contains · ip) := List.mem_filter.mpr ⟨hi, hholds⟩
  obtain ⟨most, hmost⟩ := maxByKey_some (fun i => 2 * bits i + if mobileSide i.name then 1 else 0) hmem
  obtain ⟨hmem', hmax⟩ := maxByKey_spec hmost
  obtain ⟨hmost', hcontains⟩ := List.mem_filter.mp hmem'
  unfold subnetOf
  rw [hmost]
  refine (Bool.not_eq_true' _).mpr ?_
  cases hmobile : mobileSide most.name with
  | false => rfl
  | true =>
    -- its prefix would be the shorter one
    have hless := hshort most hmost' hmobile hcontains
    have hle := hmax i hmem
    rw [hside, hmobile] at hle
    simp only [Bool.false_eq_true, if_false, if_true] at hle
    omega

theorem Nearest.nearer (h : Nearest table ip) : Nearer table ip := by
  obtain ⟨i, hi, hside, hholds, -, hshort⟩ := h
  exact ⟨i, hi, hside, hholds, hshort⟩

theorem nearest_iff (table : Table) (ip : IpAddr) : (subnetOf table ip).any (!mobileSide ·.name) = true ↔ Nearest table ip :=
  ⟨nearest_of_subnetOf, fun h => subnetOf_of_nearer h.nearer⟩

theorem nearer_iff (table : Table) (ip : IpAddr) : Nearest table ip ↔ Nearer table ip :=
  ⟨Nearest.nearer, fun h => nearest_of_subnetOf (subnetOf_of_nearer h)⟩

/-! ## Scopes -/

/-- The first entry with the scope is not on the mobile side's. -/
def FirstOfScope (table : Table) (scope : Nat) : Prop :=
  ∃ before i after, table = before ++ i :: after ∧ (∀ j ∈ before, j.scope ≠ scope) ∧ i.scope = scope ∧ mobileSide i.name = false

def SomeOfScope (table : Table) (scope : Nat) : Prop :=
  ∃ i ∈ table, i.scope = scope ∧ mobileSide i.name = false

/-- A scope is one interface's. -/
def OneName (table : Table) : Prop :=
  ∀ i ∈ table, ∀ j ∈ table, i.scope = j.scope → i.scope ≠ 0 → i.name = j.name

instance : DecidablePred OneName := fun table =>
  inferInstanceAs (Decidable (∀ i ∈ table, ∀ j ∈ table, i.scope = j.scope → i.scope ≠ 0 → i.name = j.name))

theorem scope_iff {scope : Nat} (h : OneName table) (hscope : scope ≠ 0) :
    FirstOfScope table scope ↔ SomeOfScope table scope := by
  constructor
  · intro hfirst
    obtain ⟨before, i, after, rfl, -, hsame, hside⟩ := hfirst
    exact ⟨i, List.mem_append_right _ List.mem_cons_self, hsame, hside⟩
  · intro hsome
    obtain ⟨i, hi, hsame, hside⟩ := hsome
    have hfound : (table.find? (·.scope == scope)).isSome = true :=
      List.find?_isSome.mpr ⟨i, hi, beq_iff_eq.mpr hsame⟩
    obtain ⟨first, hfirst⟩ := Option.isSome_iff_exists.mp hfound
    obtain ⟨hone, before, after, htable, hbefore⟩ := List.find?_eq_some_iff_append.mp hfirst
    have hone' : first.scope = scope := beq_iff_eq.mp hone
    have hmem := List.mem_of_find?_eq_some hfirst
    have hname : first.name = i.name := h first hmem i hi (hone'.trans hsame.symm) (hone' ▸ hscope)
    refine ⟨before, first, after, htable, ?_, hone', hname ▸ hside⟩
    intro j hj hscope'
    have hno := hbefore j hj
    rw [hscope', beq_self_eq_true] at hno
    cases hno

theorem find_iff {scope : Nat} :
    (table.find? (·.scope == scope)).any (!mobileSide ·.name) = true ↔ FirstOfScope table scope := by
  constructor
  · intro h
    cases hfound : table.find? (·.scope == scope) with
    | none =>
      rw [hfound] at h
      cases h
    | some i =>
      rw [hfound] at h
      obtain ⟨hscope, before, after, htable, hbefore⟩ := List.find?_eq_some_iff_append.mp hfound
      refine ⟨before, i, after, htable, ?_, beq_iff_eq.mp hscope, (Bool.not_eq_true' _).mp h⟩
      intro j hj hsame
      have hno := hbefore j hj
      rw [hsame, beq_self_eq_true] at hno
      cases hno
  · intro h
    obtain ⟨before, i, after, htable, hbefore, hsame, hside⟩ := h
    have hfound : table.find? (·.scope == scope) = some i := by
      refine List.find?_eq_some_iff_append.mpr ⟨beq_iff_eq.mpr hsame, before, after, htable, ?_⟩
      intro j hj
      have hno := hbefore j hj
      rw [Bool.not_eq_true', beq_eq_false_iff_ne]
      exact hno
    rw [hfound]
    exact (Bool.not_eq_true' _).mpr hside

theorem arrivedOn_iff {peer : SocketAddr} (h : peer.ip.canonical.linkLocal = true) :
    (arrivedOn table peer).any (!mobileSide ·.name) = true ↔ peer.scopeId ≠ 0 ∧ FirstOfScope table peer.scopeId := by
  unfold arrivedOn
  cases hip : peer.ip with
  | v4 a =>
    rw [hip] at h
    cases h
  | v6 a =>
    dsimp only
    by_cases hzero : peer.scopeId = 0
    · rw [if_neg (not_not_intro hzero)]
      exact ⟨fun hno => (by cases hno), fun hno => absurd hzero hno.1⟩
    · rw [if_pos hzero, find_iff]
      exact ⟨fun hfirst => ⟨hzero, hfirst⟩, And.right⟩

/-! ## Admission -/

/-- How a peer is admitted, its scope judged by `byScope`. -/
def Routed (byScope : Table → Nat → Prop) (table : Table) (peer : SocketAddr) : Prop :=
  let ip := peer.ip.canonical
  ip.loopback = true ∨
  (ip.linkLocal = true ∧ peer.scopeId ≠ 0 ∧ byScope table peer.scopeId) ∨
  (ip.linkLocal = false ∧ ∃ i ∈ table, i.addr = ip) ∨
  (ip.linkLocal = false ∧ Nearest table ip)

theorem admits_iff (table : Table) (peer : SocketAddr) : admits table peer = true ↔ Routed FirstOfScope table peer := by
  unfold admits Routed
  dsimp only
  cases hlocal : peer.ip.canonical.linkLocal with
  | true =>
    have hloop : peer.ip.canonical.loopback = true ↔ False := by
      refine iff_false_intro fun hloop => ?_
      rw [IpAddr.loopback_linkLocal hloop] at hlocal
      cases hlocal
    rw [if_pos rfl, arrivedOn_iff hlocal, hloop]
    simp
  | false =>
    rw [if_neg Bool.false_ne_true, Bool.or_eq_true, Bool.or_eq_true, nearest_iff, List.any_eq_true, or_assoc]
    simp

theorem admits_oneName (h : OneName table) (peer : SocketAddr) :
    admits table peer = true ↔ Routed SomeOfScope table peer := by
  have hscope : (peer.scopeId ≠ 0 ∧ FirstOfScope table peer.scopeId) ↔ (peer.scopeId ≠ 0 ∧ SomeOfScope table peer.scopeId) :=
    and_congr_right fun hne => scope_iff h hne
  rw [admits_iff]
  unfold Routed
  dsimp only
  rw [hscope]

theorem nearest_congr {table table' : Table} (h : ∀ i, i ∈ table ↔ i ∈ table') :
    Nearest table ip ↔ Nearest table' ip := by
  unfold Nearest
  simp only [h]

/-- An answer depends on what is in the table only. -/
theorem admits_congr {table table' : Table} (h : ∀ i, i ∈ table ↔ i ∈ table') (hone : OneName table) (peer : SocketAddr) :
    admits table peer = admits table' peer := by
  have hone' : OneName table' := fun i hi j hj => hone i ((h i).mpr hi) j ((h j).mpr hj)
  rw [Bool.eq_iff_iff, admits_oneName hone, admits_oneName hone']
  unfold Routed SomeOfScope
  dsimp only
  rw [nearest_congr h]
  simp only [h]

theorem OneName.tail {new : IfAddr} (h : OneName (new :: table)) : OneName table :=
  fun i hi j hj => h i (List.mem_cons_of_mem _ hi) j (List.mem_cons_of_mem _ hj)

/-- An entry of the mobile side lets in its own address at most. -/
theorem admits_mobile {new : IfAddr} (hone : OneName (new :: table)) (hside : mobileSide new.name = true)
    {peer : SocketAddr} (h : admits (new :: table) peer = true) :
    admits table peer = true ∨ peer.ip.canonical.linkLocal = false ∧ peer.ip.canonical = new.addr := by
  rw [admits_oneName hone] at h
  rw [admits_oneName hone.tail]
  obtain hloop | ⟨hlocal, hne, i, hi, hsame, hother⟩ | ⟨hfar, i, hi, hown⟩ | ⟨hfar, hnearest⟩ := h
  · exact Or.inl (Or.inl hloop)
  · cases List.mem_cons.mp hi with
    | inl hnew =>
      subst hnew
      rw [hside] at hother
      cases hother
    | inr hold => exact Or.inl (Or.inr (Or.inl ⟨hlocal, hne, i, hold, hsame, hother⟩))
  · cases List.mem_cons.mp hi with
    | inl hnew =>
      subst hnew
      exact Or.inr ⟨hfar, hown.symm⟩
    | inr hold => exact Or.inl (Or.inr (Or.inr (Or.inl ⟨hfar, i, hold, hown⟩)))
  · obtain ⟨i, hi, hother, hholds, hlong, hshort⟩ := hnearest
    cases List.mem_cons.mp hi with
    | inl hnew =>
      subst hnew
      rw [hside] at hother
      cases hother
    | inr hold =>
      exact Or.inl (Or.inr (Or.inr (Or.inr ⟨hfar, i, hold, hother, hholds,
        fun j hj => hlong j (List.mem_cons_of_mem _ hj), fun j hj => hshort j (List.mem_cons_of_mem _ hj)⟩)))

/-- Another entry refuses nobody. -/
theorem admits_other {new : IfAddr} (hone : OneName (new :: table)) (hside : mobileSide new.name = false)
    {peer : SocketAddr} (h : admits table peer = true) : admits (new :: table) peer = true := by
  rw [admits_oneName hone.tail] at h
  rw [admits_oneName hone]
  obtain hloop | ⟨hlocal, hne, i, hi, hscope⟩ | ⟨hfar, i, hi, hown⟩ | ⟨hfar, hnearest⟩ := h
  · exact Or.inl hloop
  · exact Or.inr (Or.inl ⟨hlocal, hne, i, List.mem_cons_of_mem _ hi, hscope⟩)
  · exact Or.inr (Or.inr (Or.inl ⟨hfar, i, List.mem_cons_of_mem _ hi, hown⟩))
  · refine Or.inr (Or.inr (Or.inr ⟨hfar, ?_⟩))
    rw [nearer_iff] at hnearest ⊢
    obtain ⟨i, hi, hother, hholds, hshort⟩ := hnearest
    refine ⟨i, List.mem_cons_of_mem _ hi, hother, hholds, ?_⟩
    intro j hj hmobile
    cases List.mem_cons.mp hj with
    | inl hnew =>
      subst hnew
      rw [hside] at hmobile
      cases hmobile
    | inr hold => exact hshort j hold hmobile

theorem admission_routes (peer : SocketAddr) :
    (∀ table, admits table peer = true ↔ Routed FirstOfScope table peer) ∧
    (∀ table, OneName table → (admits table peer = true ↔ Routed SomeOfScope table peer)) ∧
    (∀ table table', OneName table → table.Perm table' → admits table peer = admits table' peer) ∧
    (∀ table new table', OneName table' → table'.Perm (new :: table) →
      (mobileSide new.name = true → admits table' peer = true →
        admits table peer = true ∨ peer.ip.canonical.linkLocal = false ∧ peer.ip.canonical = new.addr) ∧
      (mobileSide new.name = false → admits table peer = true → admits table' peer = true)) := by
  refine ⟨fun table => admits_iff table peer, fun table hone => admits_oneName hone peer, ?_, ?_⟩
  · intro table table' hone hperm
    exact admits_congr (fun i => hperm.mem_iff) hone peer
  · intro table new table' hone hperm
    have hsame : admits table' peer = admits (new :: table) peer := admits_congr (fun i => hperm.mem_iff) hone peer
    have hone' : OneName (new :: table) := fun i hi j hj => hone i (hperm.mem_iff.mpr hi) j (hperm.mem_iff.mpr hj)
    rw [hsame]
    exact ⟨fun hside => admits_mobile hone' hside, fun hside => admits_other hone' hside⟩

/-- The carrier's block inside of a wider LAN stays out in any order. -/
theorem admission_routes_carrier :
    admits [⟨"br-lan", .v4 0x0a000001#32, 8, 0⟩, ⟨"rmnet_data0", .v4 0x0a2f0301#32, 30, 0⟩] { ip := .v4 0x0a2f0302#32, port := 40000 } =
      admits [⟨"rmnet_data0", .v4 0x0a2f0301#32, 30, 0⟩, ⟨"br-lan", .v4 0x0a000001#32, 8, 0⟩] { ip := .v4 0x0a2f0302#32, port := 40000 } :=
  (admission_routes _).2.2.1 _ _ (by decide) (List.Perm.swap _ _ _)

/-- fe80::1 on the bridge. -/
def bridgeLocal : IfAddr := ⟨"br-lan", .v6 0xfe800000000000000000000000000001#128, 64, 5⟩

/-- The data call's, with the bridge's scope. -/
def carrierLocal : IfAddr := ⟨"rmnet_data0", .v6 0xfe800000000000000000000000000002#128, 64, 5⟩

def neighbour : SocketAddr := { ip := .v6 0xfe800000000000000000000000000023#128, port := 40000, scopeId := 5 }

/-- Of two interfaces with one scope the first in the table decides. -/
theorem shared_scope_goes_by_the_first :
    ¬ ∀ table peer, admits table peer = true ↔ Routed SomeOfScope table peer := by
  intro h
  have hrouted : Routed SomeOfScope [carrierLocal, bridgeLocal] neighbour :=
    Or.inr (Or.inl ⟨by decide, by decide, bridgeLocal, by decide, rfl, by decide⟩)
  exact absurd ((h [carrierLocal, bridgeLocal] neighbour).mpr hrouted) (by decide)

end OpenU60.Mobile
