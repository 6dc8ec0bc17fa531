/-
  OpenU60.Lib.BigEndian — numbers as big-endian bytes.

  `toBytes k n` is what `to_be_bytes` gives of `n` in `k` bytes, `ofBytes` the number a byte string
  stands for. A number that fits comes back (`ofBytes_toBytes`), with its leading zeros or without
  (`ofBytes_dropZeros`), and so do the bytes (`toBytes_ofBytes`); `length_dropZeros_le` bounds what is
  left without the zeros.
-/

import Mathlib

namespace OpenU60.Lib.BigEndian

/-- The last `k` bytes of a number. -/
def toBytes : Nat → Nat → List UInt8
  | 0, _ => []
  | k + 1, n => toBytes k (n / 256) ++ [UInt8.ofNat n]

def ofBytes (bytes : List UInt8) : Nat := bytes.foldl (fun n b => n * 256 + b.toNat) 0

/-- Without the leading zeros. -/
def dropZeros (bytes : List UInt8) : List UInt8 := bytes.dropWhile (· == 0)

/-- What holds of all 256 bytes, for a check by cases. -/
theorem forall_byte {p : UInt8 → Prop} (h : ∀ c : Fin 256, p (UInt8.ofFin c)) (c : UInt8) : p c := h c.toFin

variable {bytes : List UInt8} {b : UInt8} {k n : Nat}

@[simp] theorem ofBytes_nil : ofBytes [] = 0 := rfl

theorem ofBytes_snoc (bytes : List UInt8) (b : UInt8) : ofBytes (bytes ++ [b]) = ofBytes bytes * 256 + b.toNat := by
  unfold ofBytes
  rw [List.foldl_append]
  rfl

@[simp] theorem length_toBytes (k n : Nat) : (toBytes k n).length = k := by
  induction k generalizing n with
  | zero => rfl
  | succ k ih => rw [toBytes, List.length_append, ih]; rfl

theorem ofBytes_toBytes (k n : Nat) : ofBytes (toBytes k n) = n % 256 ^ k := by
  induction k generalizing n with
  | zero => rw [Nat.pow_zero, Nat.mod_one]; rfl
  | succ k ih =>
    have hsplit : n % 256 ^ (k + 1) = n % 256 + 256 * (n / 256 % 256 ^ k) := by rw [Nat.pow_succ', Nat.mod_mul]
    rw [toBytes, ofBytes_snoc, ih, UInt8.toNat_ofNat', hsplit]
    omega

/-- What stands before counts for all the places after it. -/
theorem foldl_eq (a : Nat) (bytes : List UInt8) :
    bytes.foldl (fun n b => n * 256 + b.toNat) a = a * 256 ^ bytes.length + ofBytes bytes := by
  unfold ofBytes
  induction bytes generalizing a with
  | nil => simp
  | cons b bytes ih =>
    rw [List.foldl_cons, List.foldl_cons, ih, ih (0 * 256 + b.toNat), List.length_cons, Nat.pow_succ', Nat.zero_mul, Nat.zero_add,
      Nat.add_mul, Nat.mul_assoc, Nat.add_assoc]

theorem ofBytes_cons (b : UInt8) (bytes : List UInt8) : ofBytes (b :: bytes) = b.toNat * 256 ^ bytes.length + ofBytes bytes := by
  rw [← foldl_eq]
  unfold ofBytes
  rw [List.foldl_cons, Nat.zero_mul, Nat.zero_add]

theorem ofBytes_lt (bytes : List UInt8) : ofBytes bytes < 256 ^ bytes.length := by
  induction bytes with
  | nil => exact Nat.one_pos
  | cons b bytes ih =>
    have hb : b.toNat < 256 := b.toNat_lt
    have hmul : (b.toNat + 1) * 256 ^ bytes.length ≤ 256 * 256 ^ bytes.length := Nat.mul_le_mul_right _ hb
    rw [ofBytes_cons, List.length_cons, Nat.pow_succ']
    rw [Nat.add_mul, Nat.one_mul] at hmul
    omega

theorem toBytes_ofBytes (bytes : List UInt8) : toBytes bytes.length (ofBytes bytes) = bytes := by
  induction hk : bytes.length generalizing bytes with
  | zero => rw [List.length_eq_zero_iff.mp hk]; rfl
  | succ k ih =>
    rcases List.eq_nil_or_concat bytes with rfl | ⟨init, b, rfl⟩
    · cases hk
    · rw [List.concat_eq_append] at hk ⊢
      rw [List.length_append, List.length_singleton] at hk
      have hb : b.toNat < 256 := b.toNat_lt
      have hinit : (ofBytes init * 256 + b.toNat) / 256 = ofBytes init := by omega
      have hlast : UInt8.ofNat (ofBytes init * 256 + b.toNat) = b := by
        apply UInt8.toNat_inj.mp
        rw [UInt8.toNat_ofNat']
        omega
      rw [toBytes, ofBytes_snoc, hinit, hlast, ih init (by omega)]

theorem ofBytes_dropZeros (bytes : List UInt8) : ofBytes (dropZeros bytes) = ofBytes bytes := by
  induction bytes with
  | nil => rfl
  | cons b bytes ih =>
    unfold dropZeros at ih ⊢
    by_cases hb : b = 0
    · rw [List.dropWhile_cons_of_pos (by rw [hb]; rfl), ih, ofBytes_cons, hb]
      simp
    · rw [List.dropWhile_cons_of_neg (by simpa using hb)]

theorem length_dropZeros_le (bytes : List UInt8) : (dropZeros bytes).length ≤ bytes.length :=
  (List.dropWhile_suffix _).length_le

/-- What is left begins with a byte that counts. -/
theorem head_dropZeros (bytes : List UInt8) : ∀ b ∈ (dropZeros bytes).head?, b ≠ 0 := by
  unfold dropZeros
  induction bytes with
  | nil => exact nofun
  | cons c bytes ih =>
    by_cases hc : c = 0
    · rw [List.dropWhile_cons_of_pos (by rw [hc]; rfl)]
      exact ih
    · rw [List.dropWhile_cons_of_neg (by simpa using hc)]
      intro b hb
      cases hb
      exact hc

end OpenU60.Lib.BigEndian
