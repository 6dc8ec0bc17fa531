/-
  OpenU60.Lib.Prefix — networks of addresses of `w` bits: an address with the length of its prefix.

  An address is in a network when it begins with the same bits (`a ∈ n`); the address a network was
  written with may have other bits set after them, `network` is the one without. Two networks are
  apart or one lies in the other:
  - `meets_iff`: a network whose first address is outside of a block meets the block exactly when it is
    wider and holds the block's address.
-/

import Mathlib

namespace OpenU60.Lib.Prefix

variable {w : Nat}

structure Net (w : Nat) where
  addr : BitVec w
  prefixLen : Nat
  fits : prefixLen ≤ w
  deriving DecidableEq

/-- The bits of an address that count. -/
def Net.bits (n : Net w) (a : BitVec w) : Nat := a.toNat / 2 ^ (w - n.prefixLen)

instance : Membership (BitVec w) (Net w) := ⟨fun n a => n.bits a = n.bits n.addr⟩

instance (n : Net w) (a : BitVec w) : Decidable (a ∈ n) := inferInstanceAs (Decidable (n.bits a = n.bits n.addr))

/-- Its address without the host bits. -/
def Net.network (n : Net w) : BitVec w := BitVec.ofNat w (n.bits n.addr * 2 ^ (w - n.prefixLen))

def Net.trunc (n : Net w) : Net w := { n with addr := n.network }

variable {n m : Net w} {a b : BitVec w}

theorem mem_iff : a ∈ n ↔ n.bits a = n.bits n.addr := Iff.rfl

theorem addr_mem (n : Net w) : n.addr ∈ n := rfl

theorem toNat_network (n : Net w) : n.network.toNat = n.bits n.addr * 2 ^ (w - n.prefixLen) := by
  have hle : n.bits n.addr * 2 ^ (w - n.prefixLen) ≤ n.addr.toNat := Nat.div_mul_le_self _ _
  rw [Net.network, BitVec.toNat_ofNat]
  exact Nat.mod_eq_of_lt (Nat.lt_of_le_of_lt hle n.addr.isLt)

theorem network_mem (n : Net w) : n.network ∈ n := by
  rw [mem_iff]
  conv => lhs; rw [Net.bits, toNat_network]
  exact Nat.mul_div_cancel _ (Nat.two_pow_pos _)

/-- Addresses with the same prefix have the same shorter one. -/
theorem bits_of_le (h : m.prefixLen ≤ n.prefixLen) (hab : n.bits a = n.bits b) : m.bits a = m.bits b := by
  have hfits := n.fits
  have hpow : 2 ^ (w - m.prefixLen) = 2 ^ (w - n.prefixLen) * 2 ^ (n.prefixLen - m.prefixLen) := by
    rw [← Nat.pow_add]
    congr 1
    omega
  unfold Net.bits at *
  rw [hpow, ← Nat.div_div_eq_div_mul, ← Nat.div_div_eq_div_mul, hab]

theorem meets_iff {block : Net w} (h : n.network ∉ block) :
    (∃ a, a ∈ n ∧ a ∈ block) ↔ n.prefixLen < block.prefixLen ∧ block.addr ∈ n := by
  constructor
  · intro hmeets
    obtain ⟨a, ha, hblock⟩ := hmeets
    have hwider : n.prefixLen < block.prefixLen := by
      by_contra hle
      have hsame : n.bits n.network = n.bits a := (network_mem n).trans ha.symm
      exact h ((bits_of_le (Nat.le_of_not_lt hle) hsame).trans hblock)
    refine ⟨hwider, ?_⟩
    rw [mem_iff, ← bits_of_le (Nat.le_of_lt hwider) hblock]
    exact ha
  · intro hwider
    exact ⟨block.addr, hwider.2, addr_mem block⟩

/-! ## Masks -/

theorem and_high (a : BitVec w) (k : Nat) : a &&& BitVec.allOnes w <<< k = (a >>> k) <<< k := by
  ext i hi
  by_cases hlow : i < k
  · simp [hlow]
  · have hback : k + (i - k) = i := by omega
    simp [hlow, hback, BitVec.getLsbD_eq_getElem hi]

/-- What a mask leaves of an address. -/
theorem toNat_and_high (a : BitVec w) (k : Nat) : (a &&& BitVec.allOnes w <<< k).toNat = a.toNat / 2 ^ k * 2 ^ k := by
  have hlt : a.toNat / 2 ^ k * 2 ^ k < 2 ^ w := Nat.lt_of_le_of_lt (Nat.div_mul_le_self _ _) a.isLt
  rw [and_high, BitVec.toNat_shiftLeft, BitVec.toNat_ushiftRight, Nat.shiftLeft_eq, Nat.shiftRight_eq_div_pow]
  exact Nat.mod_eq_of_lt hlt

end OpenU60.Lib.Prefix
