/-
  OpenU60.Lib.Counter — wrapping 64-bit counters that date copies of a state.

  A counter goes up by one at each change; a copy is told from a later state by the count it
  was taken at. The count says so unless the counter has gone all the way round in between.
-/

import Mathlib

namespace OpenU60.Lib.Counter

/-- From `n` to `m` a 64-bit counter goes round, once or more, and back to where it was. -/
def Lapped (n m : Nat) : Prop := n < m ∧ 2 ^ 64 ∣ m - n

instance (n m : Nat) : Decidable (Lapped n m) := inferInstanceAs (Decidable (_ ∧ _))

theorem ofNat_succ (n : Nat) : UInt64.ofNat (n + 1) = UInt64.ofNat n + 1 := by
  rw [UInt64.ofNat_add]
  rfl

/-- Two counts are told apart unless the counter has gone round. -/
theorem eq_of_ofNat_eq {n m : Nat} (hle : n ≤ m) (hlap : ¬ Lapped n m) (h : UInt64.ofNat n = UInt64.ofNat m) : n = m := by
  by_contra hne
  refine hlap ⟨by omega, ?_⟩
  have hmod : n % 2 ^ 64 = m % 2 ^ 64 := by simpa using congrArg UInt64.toNat h
  exact Nat.dvd_of_mod_eq_zero (Nat.sub_mod_eq_zero_of_mod_eq hmod.symm)

/-- A counter that has gone up and stands where it stood has gone round. -/
theorem eq_zero_of_add_ofNat {g : UInt64} {n : Nat} (hlap : ¬ Lapped 0 n) (h : g + UInt64.ofNat n = g) : n = 0 := by
  have h0 : UInt64.ofNat n = UInt64.ofNat 0 := (UInt64.add_right_inj g).mp (h.trans (UInt64.add_zero g).symm)
  exact (eq_of_ofNat_eq (Nat.zero_le n) hlap h0.symm).symm

end OpenU60.Lib.Counter
