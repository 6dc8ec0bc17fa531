/-
  OpenU60.Euicc.AccessRules — the access rules of a profile's metadata (`euicc/src/es8p.rs`:
  `parse_access_rules`).

  - `readRef_iff`: a REF-DO gives a rule if and only if it has one certificate hash and at most one
    package name; these are the rule's.
  - `parse_rules`: the rules are those of the E2 objects, in order, and one that is none fails all.
-/

import Mathlib
import OpenU60.Euicc.Iccid
import OpenU60.Lib.ByteLines

namespace OpenU60.Euicc.AccessRules

open OpenU60.Lib OpenU60.Euicc.Der

/-! ## The code -/

structure AccessRule where
  certificateHash : Option (List Char) := none
  packageName : Option (List Char) := none
  deriving DecidableEq

/-- One element of a REF-DO. -/
def readField (rule : AccessRule) (t : Tlv) : Except Error AccessRule :=
  if t.tag = 0xC1 then
    if rule.certificateHash.isSome then .error (.malformed "access rule with several certificate hashes")
    else .ok { rule with certificateHash := some (hexEncode t.value) }
  else if t.tag = 0xCA then
    if rule.packageName.isSome then .error (.malformed "access rule with several package names")
    else .ok { rule with packageName := some (ByteLines.lossy t.value) }
  else .ok rule

def readFields : AccessRule → List Tlv → Except Error AccessRule
  | rule, [] => .ok rule
  | rule, t :: ts => (readField rule t).bind fun rule => readFields rule ts

def readRef (refDo : Bytes) : Except Error AccessRule :=
  (readFields {} (iter refDo)).bind fun rule =>
    if rule.certificateHash.isNone then .error (.malformed "access rule without certificate hash") else .ok rule

def readEntry (entry : Bytes) : Except Error AccessRule :=
  match tagged 0xE1 (iter entry) with
  | [] => .error (.malformed "access rule without REF-DO")
  | [refDo] => readRef refDo.value
  | _ :: _ :: _ => .error (.malformed "access rule with several REF-DOs")

def readEntries : List AccessRule → List Tlv → Except Error (List AccessRule)
  | rules, [] => .ok rules
  | rules, entry :: entries => (readEntry entry.value).bind fun rule => readEntries (rules ++ [rule]) entries

def parseAccessRules (value : Bytes) : Except Error (List AccessRule) := readEntries [] (tagged 0xE2 (iter value))

/-! ## Objects -/

/-- One certificate hash and at most one package name, and the rule of these. -/
def RefOf (ts : List Tlv) (rule : AccessRule) : Prop :=
  ∃ hash, tagged 0xC1 ts = [hash] ∧ (tagged 0xCA ts).length ≤ 1 ∧
    rule = ⟨some (hexEncode hash.value), ((tagged 0xCA ts).head?).map fun package => ByteLines.lossy package.value⟩

/-- One REF-DO, and its rule. -/
def EntryOf (entry : Tlv) (rule : AccessRule) : Prop :=
  ∃ refDo, tagged 0xE1 (iter entry.value) = [refDo] ∧ RefOf (iter refDo.value) rule

def WellFormed (entry : Tlv) : Prop :=
  ∃ refDo, tagged 0xE1 (iter entry.value) = [refDo] ∧ (tagged 0xC1 (iter refDo.value)).length = 1 ∧ (tagged 0xCA (iter refDo.value)).length ≤ 1

variable {entry : Tlv} {ts : List Tlv} {rule out : AccessRule} {rules : List AccessRule}

theorem wellFormed_iff : WellFormed entry ↔ ∃ rule, EntryOf entry rule := by
  constructor
  · intro h
    obtain ⟨refDo, hone, hhash, hpackage⟩ := h
    obtain ⟨hash, hhash⟩ := List.length_eq_one_iff.mp hhash
    exact ⟨_, refDo, hone, hash, hhash, hpackage, rfl⟩
  · intro h
    obtain ⟨rule, refDo, hone, hash, hhash, hpackage, -⟩ := h
    exact ⟨refDo, hone, by rw [hhash]; rfl, hpackage⟩

/-! ## A REF-DO -/

theorem toList_inj {α : Type} {a b : Option α} (h : a.toList = b.toList) : a = b := by
  cases a with
  | none =>
    cases b with
    | none => rfl
    | some b => cases h
  | some a =>
    cases b with
    | none => cases h
    | some b =>
      cases h
      rfl

/-- A value there and another one do not make one. -/
theorem not_toList {α : Type} (o : Option α) (a b : α) (rest : List α) : o.toList ≠ a :: b :: rest := by
  intro h
  cases o with
  | none => cases h
  | some c => cases h

/-- The fields are read if and only if those there and the new ones are at most one of each kind. -/
theorem readFields_iff : readFields rule ts = .ok out ↔
    out.certificateHash.toList = rule.certificateHash.toList ++ (tagged 0xC1 ts).map (fun t => hexEncode t.value) ∧
    out.packageName.toList = rule.packageName.toList ++ (tagged 0xCA ts).map fun t => ByteLines.lossy t.value := by
  induction ts generalizing rule with
  | nil =>
    show Except.ok rule = .ok out ↔ out.certificateHash.toList = rule.certificateHash.toList ++ [] ∧ out.packageName.toList = rule.packageName.toList ++ []
    rw [List.append_nil, List.append_nil]
    constructor
    · intro h
      cases h
      exact ⟨rfl, rfl⟩
    · intro h
      have hhash := toList_inj h.1
      have hpackage := toList_inj h.2
      cases rule
      cases out
      cases hhash
      cases hpackage
      rfl
  | cons t ts ih =>
    rw [readFields, readField]
    by_cases hhash : t.tag = 0xC1
    · have hnot : t.tag ≠ 0xCA := by
        rw [hhash]
        decide
      rw [if_pos hhash, tagged_cons_pos hhash, tagged_cons_neg hnot, List.map_cons]
      cases hold : rule.certificateHash with
      | some old =>
        constructor
        · intro h
          cases h
        · intro h
          exact absurd h.1 (not_toList _ _ _ _)
      | none =>
        show readFields { rule with certificateHash := some (hexEncode t.value) } ts = .ok out ↔ _
        rw [ih]
        rfl
    · rw [if_neg hhash, tagged_cons_neg hhash]
      by_cases hpackage : t.tag = 0xCA
      · rw [if_pos hpackage, tagged_cons_pos hpackage, List.map_cons]
        cases hold : rule.packageName with
        | some old =>
          constructor
          · intro h
            cases h
          · intro h
            exact absurd h.2 (not_toList _ _ _ _)
        | none =>
          show readFields { rule with packageName := some (ByteLines.lossy t.value) } ts = .ok out ↔ _
          rw [ih]
          rfl
      · rw [if_neg hpackage, tagged_cons_neg hpackage]
        exact ih

theorem readRef_iff {refDo : Bytes} : readRef refDo = .ok out ↔ RefOf (iter refDo) out := by
  have hfields : readFields {} (iter refDo) = .ok out ↔ out.certificateHash.toList = (tagged 0xC1 (iter refDo)).map (fun t => hexEncode t.value) ∧
      out.packageName.toList = (tagged 0xCA (iter refDo)).map fun t => ByteLines.lossy t.value := readFields_iff
  have hread : readRef refDo = .ok out ↔ readFields {} (iter refDo) = .ok out ∧ out.certificateHash.isSome = true := by
    unfold readRef
    cases readFields {} (iter refDo) with
    | error e =>
      constructor
      · intro h
        cases h
      · intro h
        cases h.1
    | ok rule =>
      show (if rule.certificateHash.isNone then _ else _) = _ ↔ _
      cases hhash : rule.certificateHash with
      | none =>
        constructor
        · intro h
          cases h
        · intro h
          cases h.1
          rw [hhash] at h
          cases h.2
      | some hash =>
        constructor
        · intro h
          cases h
          exact ⟨rfl, by rw [hhash]; rfl⟩
        · intro h
          exact h.1
  rw [hread, hfields]
  constructor
  · intro h
    obtain ⟨⟨hhash, hpackage⟩, hsome⟩ := h
    obtain ⟨v, hv⟩ := Option.isSome_iff_exists.mp hsome
    rw [hv] at hhash
    obtain ⟨hash, hone, heq⟩ := List.map_eq_singleton_iff.mp hhash.symm
    have hlen := congrArg List.length hpackage
    have hhead := congrArg List.head? hpackage
    rw [List.length_map] at hlen
    rw [List.head?_map] at hhead
    refine ⟨hash, hone, ?_, ?_⟩
    · rw [← hlen]
      exact Option.length_toList_le
    · cases out
      cases hv
      rw [heq, ← hhead]
      exact congrArg (AccessRule.mk (some v)) Option.head?_toList.symm
  · intro h
    obtain ⟨hash, hone, hpackage, rfl⟩ := h
    rw [hone]
    refine ⟨⟨rfl, ?_⟩, rfl⟩
    cases hpackages : tagged 0xCA (iter refDo) with
    | nil => rfl
    | cons package packages =>
      rw [hpackages] at hpackage
      cases packages with
      | nil => rfl
      | cons other packages => exact absurd hpackage (by simp)

/-! ## The objects of the data -/

theorem readEntry_iff : readEntry entry.value = .ok out ↔ EntryOf entry out := by
  unfold readEntry EntryOf
  cases hrefs : tagged 0xE1 (iter entry.value) with
  | nil =>
    constructor
    · intro h
      cases h
    · intro h
      obtain ⟨refDo, hone, -⟩ := h
      cases hone
  | cons refDo others =>
    cases others with
    | nil =>
      constructor
      · intro h
        exact ⟨refDo, rfl, readRef_iff.mp h⟩
      · intro h
        obtain ⟨refDo', hone, h⟩ := h
        cases hone
        exact readRef_iff.mpr h
    | cons other others =>
      constructor
      · intro h
        cases h
      · intro h
        obtain ⟨refDo', hone, -⟩ := h
        cases hone

theorem readEntries_iff {entries : List Tlv} {before out : List AccessRule} : readEntries before entries = .ok out ↔
    ∃ rules, out = before ++ rules ∧ List.Forall₂ EntryOf entries rules := by
  induction entries generalizing before with
  | nil =>
    constructor
    · intro h
      cases h
      exact ⟨[], (List.append_nil _).symm, .nil⟩
    · intro h
      obtain ⟨rules, rfl, hall⟩ := h
      cases hall
      rw [List.append_nil]
      rfl
  | cons entry entries ih =>
    have hbind : readEntries before (entry :: entries) = .ok out ↔ ∃ rule, EntryOf entry rule ∧ readEntries (before ++ [rule]) entries = .ok out := by
      rw [readEntries]
      cases hentry : readEntry entry.value with
      | error e =>
        constructor
        · intro h
          cases h
        · intro h
          obtain ⟨rule, hrule, -⟩ := h
          rw [readEntry_iff.mpr hrule] at hentry
          cases hentry
      | ok rule =>
        constructor
        · intro h
          exact ⟨rule, readEntry_iff.mp hentry, h⟩
        · intro h
          obtain ⟨rule', hrule, h⟩ := h
          rw [readEntry_iff.mpr hrule] at hentry
          cases hentry
          exact h
    rw [hbind]
    constructor
    · intro h
      obtain ⟨rule, hrule, h⟩ := h
      obtain ⟨rules, rfl, hall⟩ := ih.mp h
      exact ⟨rule :: rules, by rw [List.append_assoc]; rfl, .cons hrule hall⟩
    · intro h
      obtain ⟨rules, rfl, hall⟩ := h
      cases hall with
      | cons hrule hall => exact ⟨_, hrule, ih.mpr ⟨_, by rw [List.append_assoc]; rfl, hall⟩⟩

/-- The rules are those of the E2 objects, in order. -/
theorem parse_iff {value : Bytes} : parseAccessRules value = .ok rules ↔ List.Forall₂ EntryOf (tagged 0xE2 (iter value)) rules := by
  unfold parseAccessRules
  rw [readEntries_iff]
  constructor
  · intro h
    obtain ⟨rules', rfl, h⟩ := h
    exact h
  · intro h
    exact ⟨rules, rfl, h⟩

theorem forall₂_exists {es : List Tlv} (h : ∀ e ∈ es, WellFormed e) : ∃ rules, List.Forall₂ EntryOf es rules := by
  induction es with
  | nil => exact ⟨[], .nil⟩
  | cons e es ih =>
    obtain ⟨he, hes⟩ := List.forall_mem_cons.mp h
    obtain ⟨rule, hrule⟩ := wellFormed_iff.mp he
    obtain ⟨rules, hrules⟩ := ih hes
    exact ⟨rule :: rules, .cons hrule hrules⟩

theorem wellFormed_of_forall₂ {es : List Tlv} (h : List.Forall₂ EntryOf es rules) : ∀ e ∈ es, WellFormed e := by
  induction h with
  | nil => exact fun e he => absurd he List.not_mem_nil
  | cons hrule _ ih => exact List.forall_mem_cons.mpr ⟨wellFormed_iff.mpr ⟨_, hrule⟩, ih⟩

/-- The elements stand one after another at the start of the data. -/
theorem iter_prefix (buf : Bytes) : (iter buf).flatMap (·.raw) <+: buf := by
  have hupto : ∀ (n : Nat) (buf : Bytes), (iterUpTo n buf).flatMap (·.raw) <+: buf := by
    intro n
    induction n with
    | zero => exact fun buf => List.nil_prefix
    | succ n ih =>
      intro buf
      rw [iterUpTo]
      cases hparse : parse buf with
      | none => exact List.nil_prefix
      | some t =>
        obtain ⟨-, rest, hbuf, -⟩ := parse_some hparse
        have hrest := ih rest
        rw [List.flatMap_cons, hbuf, List.drop_left]
        exact (List.prefix_append_right_inj t.raw).mpr hrest
  exact hupto _ buf

example : parseAccessRules [0xE2, 5, 0xE1, 3, 0xC1, 1, 0xAB, 0xE2, 8, 0xE1, 6, 0xCA, 1, 0x61, 0xC1, 1, 0xCD] =
    .ok [⟨some ['a', 'b'], none⟩, ⟨some ['c', 'd'], some ['a']⟩] := by rfl

end OpenU60.Euicc.AccessRules
