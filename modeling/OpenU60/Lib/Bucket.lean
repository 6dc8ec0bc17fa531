/-
  OpenU60.Lib.Bucket — a token bucket that is refilled lazily.

  The tokens are counted at `since`; looking at the bucket later first gives back one token
  for each whole period. `level` is what the bucket holds at an instant, in units of time: it
  rises with the clock up to `burst * period`, refilling does not change it, taking a token
  costs one period of it, and its whole periods are the tokens a refill leaves.
-/

import Mathlib

namespace OpenU60.Lib

structure Bucket where
  tokens : Nat
  since : Nat
  deriving DecidableEq

namespace Bucket

variable (burst period : Nat)

def refill (now : Nat) (b : Bucket) : Bucket :=
  if burst ≤ b.tokens ∨ period = 0 then ⟨burst, now⟩
  else if burst - b.tokens ≤ (now - b.since) / period then ⟨burst, now⟩
  else ⟨b.tokens + (now - b.since) / period, b.since + (now - b.since) / period * period⟩

def take (b : Bucket) : Bucket := { b with tokens := b.tokens - 1 }

def level (now : Nat) (b : Bucket) : Nat := min (burst * period) (b.tokens * period + (now - b.since))

/-- It is not overfull, and counted in the past. -/
structure Sound (now : Nat) (b : Bucket) : Prop where
  tokens : b.tokens ≤ burst
  since : b.since ≤ now

/-- It has been refilled: only a full one has no period running. -/
def Settled (now : Nat) (b : Bucket) : Prop := b.tokens = burst ∧ b.since = now ∨ b.tokens < burst ∧ now - b.since < period

variable {burst period} {b : Bucket} {now : Nat}

theorem Sound.later (h : Sound burst now b) (d : Nat) : Sound burst (now + d) b := ⟨h.tokens, Nat.le_add_right_of_le h.since⟩

theorem Sound.take (h : Sound burst now b) : Sound burst now b.take := ⟨Nat.le_trans (Nat.sub_le _ _) h.tokens, h.since⟩

theorem refill_settled (hp : 0 < period) (h : Sound burst now b) : Settled burst period now (b.refill burst period now) := by
  unfold refill
  split
  · exact .inl ⟨rfl, rfl⟩
  · rename_i hfull
    split
    · exact .inl ⟨rfl, rfl⟩
    · rename_i hless
      refine .inr ⟨by dsimp only; omega, ?_⟩
      dsimp only
      have hdiv := Nat.mod_add_div' (now - b.since) period
      have hmod := Nat.mod_lt (now - b.since) hp
      have := h.since
      omega

theorem refill_sound (h : Sound burst now b) : Sound burst now (b.refill burst period now) := by
  unfold refill
  split
  · exact ⟨Nat.le_refl _, Nat.le_refl _⟩
  · split
    · exact ⟨Nat.le_refl _, Nat.le_refl _⟩
    · rename_i hless
      have hdiv : (now - b.since) / period * period ≤ now - b.since := Nat.div_mul_le_self ..
      have := h.since
      exact ⟨by dsimp only; omega, by dsimp only; omega⟩

theorem level_refill (h : Sound burst now b) : (b.refill burst period now).level burst period now = b.level burst period now := by
  unfold refill
  have hs := h.since
  have ht := h.tokens
  split
  · rename_i hfull
    rcases hfull with hfull | rfl
    · have heq : b.tokens = burst := by omega
      simp only [level, heq]
      omega
    · simp [level]
  · split
    · rename_i hmany
      have hle : (burst - b.tokens) * period ≤ now - b.since :=
        Nat.le_trans (Nat.mul_le_mul_right _ hmany) (Nat.div_mul_le_self ..)
      rw [Nat.sub_mul] at hle
      simp only [level]
      omega
    · have hdiv : (now - b.since) / period * period ≤ now - b.since := Nat.div_mul_le_self ..
      simp only [level, Nat.add_mul]
      omega

theorem level_later (d : Nat) : b.level burst period (now + d) ≤ b.level burst period now + d := by
  unfold level
  omega

theorem level_mono {now' : Nat} (h : now ≤ now') : b.level burst period now ≤ b.level burst period now' := by
  unfold level
  omega

/-- Left alone, it rises with the clock until it is full. -/
theorem level_rises (h : Sound burst now b) (d : Nat) :
    min (burst * period) (b.level burst period now + d) ≤ b.level burst period (now + d) := by
  have := h.since
  unfold level
  omega

theorem level_le : b.level burst period now ≤ burst * period := Nat.min_le_left ..

theorem Settled.level_eq (h : Settled burst period now b) : b.level burst period now = b.tokens * period + (now - b.since) := by
  unfold level
  rcases h with ⟨ht, hs⟩ | ⟨ht, hs⟩
  · rw [ht, hs]
    omega
  · have hmul : (b.tokens + 1) * period ≤ burst * period := Nat.mul_le_mul_right _ ht
    rw [Nat.add_mul] at hmul
    omega

/-- The tokens are the whole periods of the level. -/
theorem Settled.tokens_eq (hp : 0 < period) (h : Settled burst period now b) : b.tokens = b.level burst period now / period := by
  rw [h.level_eq]
  have hrest : now - b.since < period := by
    rcases h with ⟨-, hs⟩ | ⟨-, hs⟩
    · omega
    · exact hs
  rw [Nat.add_comm, Nat.add_mul_div_right _ _ hp, Nat.div_eq_of_lt hrest, Nat.zero_add]

/-- Taking a token costs a period. -/
theorem Settled.level_take (h : Settled burst period now b) (hpos : 0 < b.tokens) :
    b.take.level burst period now + period = b.level burst period now := by
  rw [h.level_eq]
  have hmul : b.take.tokens * period + period = b.tokens * period := by
    unfold take
    rw [← Nat.succ_mul]
    congr 1
    show b.tokens - 1 + 1 = b.tokens
    omega
  have hle : b.take.tokens * period + (now - b.since) ≤ burst * period := by
    rcases h with ⟨ht, hs⟩ | ⟨ht, hs⟩
    · rw [hs, Nat.sub_self, Nat.add_zero]
      exact Nat.mul_le_mul_right _ (by unfold take; dsimp only; omega)
    · have htop : b.tokens * period ≤ burst * period := Nat.mul_le_mul_right _ (Nat.le_of_lt ht)
      omega
  show min (burst * period) (b.take.tokens * period + (now - b.since)) + period = _
  omega

end Bucket

end OpenU60.Lib
