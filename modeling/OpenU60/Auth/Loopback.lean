/-
  OpenU60.Auth.Loopback — what the blocks of loopback leave of the global bucket
  (`zte-agent/src/auth/mod.rs`: `login`, `check_password`).

  Loopback is one peer to the limiter, blocked for at most a refill period: the failures of
  one address cost the bucket five tokens at once and a little more while the blocks grow to
  that period (`cost`), and no more after that. A right password forgets the failures, and
  a second loopback address has free failures of its own.
  - `loopback_leaves_the_bucket`: in every run of loopback attempts without either the bucket is
    never empty, and a peer from elsewhere is let in.
  - `loopback_empties_the_bucket`: thirty wrong passwords among right ones empty it.
-/

import Mathlib
import OpenU60.Auth.RateLimit

namespace OpenU60.Auth

open OpenU60.Lib OpenU60.Lib.Machine OpenU60.Lib.FirstMatch

/-- A login attempt: a blocked one is refused before the password is looked at. -/
def LoginLimiter.attempt (cfg : LimiterConfig) (l : LoginLimiter) (key : PeerKey) (now : Nat) (right : Bool) : LoginLimiter :=
  let (admission, l) := l.check cfg key now
  match admission with
  | .deny _ => l
  | .allow => if right then l.recordSuccess key else (l.recordFailure cfg key now).2

inductive Visit where
  | attempt (key : PeerKey) (right : Bool)
  | pass (d : Nat)
  deriving DecidableEq

structure Door where
  now : Nat
  limiter : LoginLimiter

namespace Door

def step (g : Door) : Visit → Door
  | .attempt key right => { g with limiter := g.limiter.attempt {} key g.now right }
  | .pass d => { g with now := g.now + d }

def opened (now : Nat) : Door := ⟨now, .new {} now⟩

/-- The attempt is from loopback. A right password comes from an address without failures, a
    wrong one while no other address has any. -/
def Orderly (g : Door) : Visit → Prop
  | .attempt key right =>
    key.shared = true ∧ ∀ s ∈ g.limiter.kept {} g.now, if right = true then s.key ≠ key else s.key = key
  | .pass _ => True

instance (g : Door) : ∀ v, Decidable (g.Orderly v)
  | .attempt _ _ => inferInstanceAs (Decidable (_ ∧ _))
  | .pass _ => .isTrue trivial

/-- Seconds of the bucket that `n` failures of one loopback address have cost at most. -/
def cost (n : Nat) : Nat := if n ≤ 5 then 10 * n else if n = 6 then 59 else if n = 7 then 67 else if n = 8 then 73 else 75

def cap : Nat := secs 300

def level (g : Door) : Nat := g.limiter.bucket.level 30 (secs 10) g.now

structure Calm (g : Door) : Prop where
  bucket : g.limiter.bucket.Sound 30 g.now
  tokens : 0 < g.limiter.tokens
  slots : g.limiter.slots = [] ∧ cap ≤ g.level ∨ ∃ s, g.limiter.slots = [s] ∧ s.key.shared = true ∧ 1 ≤ s.failures ∧
    s.lastFailure ≤ g.now ∧ min cap (cap - secs (cost s.failures) + (g.now - s.lastFailure)) ≤ g.level

theorem secs_mono {m n : Nat} (h : m ≤ n) : secs m ≤ secs n := Nat.mul_le_mul_right _ h

theorem cost_le (n : Nat) : secs (cost n) ≤ secs 75 := by
  refine secs_mono ?_
  unfold cost
  repeat' split
  all_goals omega

theorem le_cost {n : Nat} (hn : 1 ≤ n) : secs 10 ≤ secs (cost n) := by
  refine secs_mono ?_
  unfold cost
  repeat' split
  all_goals omega

theorem block_shared {key : PeerKey} (hkey : key.shared = true) {n : Nat} (hn : 9 ≤ n) : LimiterConfig.block {} key n = secs 10 := by
  have hfactor : 16 ≤ if n - 5 < 32 then 2 ^ (n - 5) else u32Max := by
    split
    · exact Nat.pow_le_pow_right (n := 2) (i := 4) (by decide) (by omega)
    · decide
  unfold LimiterConfig.block
  rw [if_neg (by show ¬ n < 5; omega)]
  dsimp only
  rw [if_pos hkey]
  show min (secs 1 * _) (secs 10) = secs 10
  unfold secs
  omega

/-- Another failure costs a period, less the block before it. -/
theorem cost_again {key : PeerKey} (hkey : key.shared = true) {n : Nat} (hn : 1 ≤ n) :
    secs (cost n) + secs 10 ≤ secs (cost (min (n + 1) u32Max)) + LimiterConfig.block {} key n := by
  by_cases h : n < 9
  · have hmin : min (n + 1) u32Max = n + 1 := Nat.min_eq_left (by show n + 1 ≤ 2 ^ 32 - 1; omega)
    rw [hmin]
    unfold LimiterConfig.block
    dsimp only
    rw [if_pos hkey]
    interval_cases n <;> decide
  · rw [block_shared hkey (by omega)]
    have hlast (m : Nat) (hm : 9 ≤ m) : cost m = 75 := by
      unfold cost
      rw [if_neg (by omega), if_neg (by omega), if_neg (by omega), if_neg (by omega)]
    rw [hlast n (by omega), hlast _ (Nat.le_min.mpr ⟨by omega, by decide⟩)]

variable {g : Door}

/-- Whatever slot is left, the bucket holds twice what a failure takes. -/
theorem Calm.level_le (h : Calm g) : secs 225 ≤ g.level := by
  have hcap : cap = secs 225 + secs 75 := rfl
  rcases h.slots with ⟨-, hl⟩ | ⟨s, -, -, -, -, hl⟩
  · omega
  · have hcost := cost_le s.failures
    omega

/-- What is left of the slots now: none with a full bucket, or the one. -/
theorem Calm.kept (h : Calm g) : g.limiter.kept {} g.now = [] ∧ cap ≤ g.level ∨
    ∃ s, g.limiter.kept {} g.now = [s] ∧ s.key.shared = true ∧ 1 ≤ s.failures ∧ s.lastFailure ≤ g.now ∧
      min cap (cap - secs (cost s.failures) + (g.now - s.lastFailure)) ≤ g.level := by
  unfold LoginLimiter.kept
  rcases h.slots with ⟨hs, hl⟩ | ⟨s, hs, hkey, hn, ht, hl⟩
  · exact .inl ⟨by rw [hs]; rfl, hl⟩
  · by_cases hstale : g.now - s.lastFailure < secs (15 * 60)
    · exact .inr ⟨s, by simp [hs, hstale], hkey, hn, ht, hl⟩
    · refine .inl ⟨by simp [hs, hstale], ?_⟩
      have hcost := cost_le s.failures
      have hlong : secs 75 ≤ secs (15 * 60) := secs_mono (by decide)
      omega

theorem Calm.pass (h : Calm g) (d : Nat) : Calm (g.step (.pass d)) := by
  have hrises : min (30 * secs 10) (g.level + d) ≤ (g.step (.pass d)).level := Bucket.level_rises h.bucket d
  have hcap : cap = 30 * secs 10 := rfl
  refine ⟨h.bucket.later d, h.tokens, ?_⟩
  rcases h.slots with ⟨hs, hl⟩ | ⟨s, hs, hkey, hn, ht, hl⟩
  · exact .inl ⟨hs, by omega⟩
  · refine .inr ⟨s, hs, hkey, hn, Nat.le_add_right_of_le ht, ?_⟩
    show min cap (cap - secs (cost s.failures) + (g.now + d - s.lastFailure)) ≤ _
    omega

/-- What `check` leaves: a settled bucket of the same level, with more than one token. -/
theorem tokens_checked (h : Calm g) {key : PeerKey} :
    1 < (g.limiter.check {} key g.now).2.tokens ∧ (g.limiter.check {} key g.now).2.bucket.level 30 (secs 10) g.now = g.level := by
  have hb : (g.limiter.check {} key g.now).2.bucket = g.limiter.bucket.refill 30 (secs 10) g.now := LoginLimiter.check_bucket
  have hset : Bucket.Settled 30 (secs 10) g.now (g.limiter.bucket.refill 30 (secs 10) g.now) := Bucket.refill_settled (by decide) h.bucket
  rw [← hb] at hset
  have hsame : (g.limiter.check {} key g.now).2.bucket.level 30 (secs 10) g.now = g.level := by
    rw [hb, Bucket.level_refill h.bucket]
    rfl
  refine ⟨?_, hsame⟩
  have htokens : (g.limiter.check {} key g.now).2.tokens = _ := hset.tokens_eq (by decide)
  rw [htokens, hsame]
  have := h.level_le
  exact Nat.lt_of_lt_of_le (by decide : 1 < secs 225 / secs 10) (Nat.div_le_div_right this)

theorem check_kept (l : LoginLimiter) (key : PeerKey) (now : Nat) :
    (l.check {} key now).2.slots = l.kept {} now ∧ (l.check {} key now).2.kept {} now = l.kept {} now := by
  have hslots : (l.check {} key now).2.slots = l.kept {} now := LoginLimiter.check_slots
  refine ⟨hslots, ?_⟩
  unfold LoginLimiter.kept at *
  rw [hslots, List.filter_filter]
  simp

theorem attempt_eq (l : LoginLimiter) (key : PeerKey) (now : Nat) (right : Bool) :
    l.attempt {} key now right = match (l.check {} key now).1 with
      | .deny _ => (l.check {} key now).2
      | .allow => if right then (l.check {} key now).2.recordSuccess key else ((l.check {} key now).2.recordFailure {} key now).2 := rfl

/-- A failure of the one address, from the state `check` leaves. -/
theorem Calm.failed (h : Calm g) {key : PeerKey} (hkey : key.shared = true) (hone : ∀ s ∈ g.limiter.kept {} g.now, s.key = key)
    (hallow : (g.limiter.check {} key g.now).1 = .allow) :
    Calm { g with limiter := ((g.limiter.check {} key g.now).2.recordFailure {} key g.now).2 } := by
  obtain ⟨-, hlevel⟩ := @tokens_checked _ h key
  obtain ⟨hslots, hkept⟩ := check_kept g.limiter key g.now
  obtain ⟨-, hblock⟩ := LoginLimiter.wait_le_iff.mp (Nat.le_of_eq (LoginLimiter.check_allow.mp hallow))
  have hsound : (g.limiter.check {} key g.now).2.bucket.Sound 30 g.now := by
    have hb : (g.limiter.check {} key g.now).2.bucket = g.limiter.bucket.refill 30 (secs 10) g.now := LoginLimiter.check_bucket
    rw [hb]
    exact Bucket.refill_sound h.bucket
  generalize (g.limiter.check {} key g.now).2 = l at *
  have hset : Bucket.Settled 30 (secs 10) g.now (l.bucket.refill 30 (secs 10) g.now) := Bucket.refill_settled (by decide) hsound
  have hfull : (l.bucket.refill 30 (secs 10) g.now).level 30 (secs 10) g.now = g.level := (Bucket.level_refill hsound).trans hlevel
  have htokens : 22 ≤ (l.bucket.refill 30 (secs 10) g.now).tokens := by
    rw [hset.tokens_eq (by decide), hfull]
    exact Nat.div_le_div_right (c := secs 10) h.level_le
  have hbucket : (l.recordFailure {} key g.now).2.bucket = (l.bucket.refill 30 (secs 10) g.now).take := LoginLimiter.recordFailure_bucket
  have htaken : (l.recordFailure {} key g.now).2.bucket.level 30 (secs 10) g.now + secs 10 = g.level := by
    rw [hbucket, hset.level_take (by omega), hfull]
  refine ⟨?_, ?_, ?_⟩
  · show (l.recordFailure {} key g.now).2.bucket.Sound 30 g.now
    rw [hbucket]
    exact (Bucket.refill_sound hsound).take
  · show 0 < (l.recordFailure {} key g.now).2.bucket.tokens
    rw [hbucket]
    show 0 < (l.bucket.refill 30 (secs 10) g.now).tokens - 1
    omega
  · refine .inr ?_
    show ∃ s, (l.recordFailure {} key g.now).2.slots = [s] ∧ s.key.shared = true ∧ 1 ≤ s.failures ∧ s.lastFailure ≤ g.now ∧
      min cap (cap - secs (cost s.failures) + (g.now - s.lastFailure)) ≤ (l.recordFailure {} key g.now).2.bucket.level 30 (secs 10) g.now
    rcases h.kept with ⟨hnone, hl⟩ | ⟨s, hs, -, hn, -, hl⟩
    · rw [hnone] at hkept
      obtain ⟨rest, hrest, hsub, -⟩ := @LoginLimiter.recordFailure_first {} l key g.now (by rw [hkept]; rfl)
      rw [hkept, List.subperm_nil] at hsub
      refine ⟨⟨key, 1, g.now⟩, by rw [hrest, hsub]; rfl, hkey, Nat.le_refl _, Nat.le_refl _, ?_⟩
      have hcost : secs (cost 1) = secs 10 := rfl
      show min cap (cap - secs (cost 1) + (g.now - g.now)) ≤ _
      omega
    · rw [hs] at hkept hslots
      obtain rfl : s.key = key := hone s (by rw [hs]; exact List.mem_singleton_self s)
      have hfind : (l.kept {} g.now).find? (·.key == s.key) = some s := by
        rw [hkept]
        simp
      have hwaited := hblock s (by unfold LoginLimiter.find; rw [hslots]; simp)
      refine ⟨s.failAgain g.now, ?_, hkey, Nat.le_min.mpr ⟨Nat.le_add_left _ _, by decide⟩, Nat.le_refl _, ?_⟩
      · rw [LoginLimiter.recordFailure_again hfind, hkept]
        simp [updateFirst]
      · have hagain : _ ≤ secs (cost (s.failAgain g.now).failures) + _ := cost_again hkey hn
        have hten : secs 10 ≤ secs (cost (s.failAgain g.now).failures) := le_cost (Nat.le_min.mpr ⟨Nat.le_add_left _ _, by decide⟩)
        rw [show (s.failAgain g.now).lastFailure = g.now from rfl, Nat.sub_self, Nat.add_zero]
        generalize secs (cost (s.failAgain g.now).failures) = c at *
        omega

theorem Calm.step (h : Calm g) {v : Visit} (hv : g.Orderly v) : Calm (g.step v) := by
  cases v with
  | pass d => exact h.pass d
  | attempt key right =>
    obtain ⟨hkey, hone⟩ := hv
    obtain ⟨htokens, hlevel⟩ := @tokens_checked _ h key
    obtain ⟨hslots, -⟩ := check_kept g.limiter key g.now
    have hchecked : Calm { g with limiter := (g.limiter.check {} key g.now).2 } := by
      refine ⟨?_, Nat.lt_of_succ_lt htokens, ?_⟩
      · have hb : (g.limiter.check {} key g.now).2.bucket = g.limiter.bucket.refill 30 (secs 10) g.now := LoginLimiter.check_bucket
        rw [hb]
        exact Bucket.refill_sound h.bucket
      · rw [hslots]
        unfold Door.level
        rw [hlevel]
        rcases h.kept with ⟨hnone, hl⟩ | ⟨s, hs, hk, hn, ht, hl⟩
        · exact .inl ⟨hnone, hl⟩
        · exact .inr ⟨s, hs, hk, hn, ht, hl⟩
    show Calm { g with limiter := g.limiter.attempt {} key g.now right }
    rw [attempt_eq]
    cases hadmits : (g.limiter.check {} key g.now).1 with
    | deny wait => exact hchecked
    | allow =>
      cases right with
      | false => exact h.failed hkey (fun s hs => by simpa using hone s hs) hadmits
      | true =>
        have hkeep : ((g.limiter.check {} key g.now).2.recordSuccess key) = (g.limiter.check {} key g.now).2 := by
          unfold LoginLimiter.recordSuccess
          rw [List.filter_eq_self.mpr]
          intro s hs
          rw [hslots] at hs
          simpa using hone s hs
        dsimp only [if_true]
        rw [hkeep]
        exact hchecked

theorem Calm.opened (now : Nat) : Calm (Door.opened now) where
  bucket := ⟨Nat.le_refl _, Nat.le_refl _⟩
  tokens := (by decide : 0 < 30)
  slots := by
    refine .inl ⟨rfl, ?_⟩
    show cap ≤ min (30 * secs 10) (30 * secs 10 + (now - now))
    rw [Nat.sub_self]
    decide

/-- A peer from elsewhere finds a token and no block. -/
theorem Calm.allows (h : Calm g) {key : PeerKey} (hkey : key.shared = false) : (g.limiter.check {} key g.now).1 = .allow := by
  obtain ⟨htokens, -⟩ := @tokens_checked _ h key
  obtain ⟨hslots, -⟩ := check_kept g.limiter key g.now
  rw [LoginLimiter.check_allow, ← Nat.le_zero, LoginLimiter.wait_le_iff]
  refine ⟨fun hzero => by omega, fun s hs => ?_⟩
  obtain ⟨hmem, rfl⟩ := LoginLimiter.find_some hs
  rw [hslots] at hmem
  rcases h.kept with ⟨hnone, -⟩ | ⟨u, hu, hshared, -⟩
  · rw [hnone] at hmem
    cases hmem
  · rw [hu, List.mem_singleton] at hmem
    subst hmem
    cases hkey.symm.trans hshared

end Door

/-- In every run of attempts from loopback in which no right password comes from an address with
    failures and no two addresses have failures at once, the bucket is never emptied and a peer from
    elsewhere is let in. -/
theorem loopback_leaves_the_bucket (now : Nat) (vs : List Visit) (h : Along Door.step Door.Orderly (Door.opened now) vs) :
    let g := exec Door.step (Door.opened now) vs
    0 < g.limiter.tokens ∧ ∀ key : PeerKey, key.shared = false → (g.limiter.check {} key g.now).1 = .allow := by
  have hstep (g : Door) (v : Visit) (hg : g.Calm) (hv : g.Orderly v) : (g.step v).Calm := hg.step hv
  have hcalm : (exec Door.step (Door.opened now) vs).Calm := invariant_along hstep (Door.Calm.opened now) h
  exact ⟨hcalm.tokens, fun key hkey => hcalm.allows hkey⟩

section

def tailnet : PeerKey := .v4 127 0 0 1

/-- A phone with an old password, trying again every half second for ten seconds. -/
theorem old_password_leaves_the_bucket :
    let g := exec Door.step (Door.opened 0) (List.replicate 20 [.attempt tailnet false, .pass (secs 1 / 2)]).flatten
    0 < g.limiter.tokens ∧ (g.limiter.check {} phone g.now).1 = .allow := by
  have h := loopback_leaves_the_bucket 0 (List.replicate 20 [.attempt tailnet false, .pass (secs 1 / 2)]).flatten (by decide +kernel)
  exact ⟨h.1, h.2 phone rfl⟩

/-- Seven times four wrong passwords and a right one, and two more: no attempt was ever blocked,
    and a peer of the LAN has to wait. -/
theorem loopback_empties_the_bucket :
    let again : List Visit := List.replicate 4 (.attempt tailnet false) ++ [.attempt tailnet true]
    let g := exec Door.step (Door.opened 0) ((List.replicate 7 again).flatten ++ List.replicate 2 (.attempt tailnet false))
    g.limiter.tokens = 0 ∧ (g.limiter.check {} phone g.now).1 = .deny (secs 10) := by
  decide +kernel

end

end OpenU60.Auth
