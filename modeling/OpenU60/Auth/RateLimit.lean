/-
  OpenU60.Auth.RateLimit — what the login rate limit bounds, over every run.

  The tokens are those of a `Bucket`: every recorded failure takes one period of its level, and
  the level only rises with the clock. A failure is recorded only for a peer that an allowed
  `check` let in since the last one, so there is a token to take and the peer's own block is over.
  - `failures_bounded`: the failures in a stretch of time, the slots kept, the distance of a
    peer's failures.
  - `announced_wait_suffices`: a denied peer that waits as long as it was told is let in,
    whatever is asked meanwhile, as long as nothing fails; a check itself changes nothing but what
    time does.
-/

import Mathlib
import OpenU60.Auth.Limiter
import OpenU60.Lib.Machine

namespace OpenU60.Auth

open OpenU60.Lib OpenU60.Lib.Machine OpenU60.Lib.FirstMatch

/-! ## One call -/

namespace LoginLimiter

def bucket (l : LoginLimiter) : Bucket := ⟨l.tokens, l.refillFrom⟩

variable {cfg : LimiterConfig} {l : LoginLimiter} {key : PeerKey} {now : Nat}

theorem bucket_refill : (l.refill cfg now).bucket = l.bucket.refill cfg.globalBurst cfg.globalRefill now := by
  unfold refill Bucket.refill bucket
  dsimp only
  split
  · rfl
  · split
    · rfl
    · split
      · rw [Nat.mul_comm]
      · rename_i hpos
        have hzero : (now - l.refillFrom) / cfg.globalRefill = 0 := Nat.eq_zero_of_not_pos hpos
        rw [hzero, Nat.zero_mul]
        rfl

@[simp] theorem refill_slots : (l.refill cfg now).slots = l.slots := by
  unfold refill
  dsimp only
  repeat' split
  all_goals rfl

@[simp] theorem forgetStale_bucket : (l.forgetStale cfg now).bucket = l.bucket := rfl

theorem find_some {s : Slot} (h : l.find key = some s) : s ∈ l.slots ∧ s.key = key :=
  ⟨List.mem_of_find?_eq_some h, by simpa using List.find?_some h⟩

/-- With keys that differ, a peer's slot is the one found. -/
theorem find_of_mem (hn : (l.slots.map Slot.key).Nodup) {s : Slot} (hs : s ∈ l.slots) : l.find s.key = some s :=
  (find?_of_nodup hn).mpr ⟨hs, rfl⟩

@[simp] theorem check_bucket :
    (l.check cfg key now).2.bucket = l.bucket.refill cfg.globalBurst cfg.globalRefill now := by
  show ((l.forgetStale cfg now).refill cfg now).bucket = _
  rw [bucket_refill, forgetStale_bucket]

@[simp] theorem check_slots :
    (l.check cfg key now).2.slots = l.slots.filter fun s => now - s.lastFailure < cfg.forgetAfter := by
  show ((l.forgetStale cfg now).refill cfg now).slots = _
  rw [refill_slots]
  rfl

theorem check_eq : (l.check cfg key now).1 =
    if (l.check cfg key now).2.wait cfg key now = 0 then .allow else .deny ((l.check cfg key now).2.wait cfg key now) := rfl

theorem check_allow : (l.check cfg key now).1 = .allow ↔ (l.check cfg key now).2.wait cfg key now = 0 := by
  rw [check_eq]
  split
  · exact ⟨fun _ => ‹_›, fun _ => rfl⟩
  · exact ⟨nofun, fun h => absurd h ‹_›⟩

theorem check_deny {wait : Nat} (h : (l.check cfg key now).1 = .deny wait) : (l.check cfg key now).2.wait cfg key now = wait := by
  rw [check_eq] at h
  split at h
  · cases h
  · exact Admit.deny.inj h

theorem wait_le_iff {d : Nat} : l.wait cfg key now ≤ d ↔
    (l.tokens = 0 → l.refillFrom + cfg.globalRefill ≤ now + d) ∧
      ∀ s, l.find key = some s → s.lastFailure + cfg.block key s.failures ≤ now + d := by
  unfold wait
  dsimp only
  constructor
  · intro h
    constructor
    · intro hzero
      rw [if_pos hzero] at h
      split at h <;> omega
    · intro s hs
      rw [hs] at h
      dsimp only at h
      omega
  · rintro ⟨hbucket, hslot⟩
    have hfirst : (if l.tokens = 0 then l.refillFrom + cfg.globalRefill - now else 0) ≤ d := by
      split
      · have := hbucket ‹_›
        omega
      · exact Nat.zero_le _
    split
    · rename_i s hs
      have := hslot s hs
      omega
    · exact hfirst

/-! ### A recorded failure -/

/-- What is left of the slots when `now` has come. -/
def kept (cfg : LimiterConfig) (l : LoginLimiter) (now : Nat) : List Slot := l.slots.filter fun s => now - s.lastFailure < cfg.forgetAfter

@[simp] theorem recordFailure_bucket :
    (l.recordFailure cfg key now).2.bucket = (l.bucket.refill cfg.globalBurst cfg.globalRefill now).take := by
  rw [← bucket_refill]
  unfold recordFailure count addSlot
  dsimp only
  split <;> rfl

theorem recordFailure_again {s : Slot} (h : (l.kept cfg now).find? (·.key == key) = some s) :
    (l.recordFailure cfg key now).2.slots = updateFirst (·.key == key) (Slot.failAgain · now) (l.kept cfg now) := by
  unfold recordFailure count LoginLimiter.find forgetStale
  dsimp only
  rw [refill_slots, show List.find? _ (l.slots.filter _) = some s from h]
  rfl

/-- A first failure may push the peer with the oldest last failure out. -/
theorem addSlot_slots (l : LoginLimiter) (key : PeerKey) (now : Nat) :
    ∃ rest, (l.addSlot cfg key now).slots = rest ++ [⟨key, 1, now⟩] ∧ rest.Subperm l.slots ∧
      (l.slots.length ≤ cfg.slots → 0 < cfg.slots → rest.length < cfg.slots) := by
  refine ⟨_, rfl, ?_⟩
  split
  · rename_i hfull
    split
    · rename_i i s hmin
      refine ⟨Vec.swapRemove_subperm _ _, fun hle hpos => ?_⟩
      rw [Vec.length_swapRemove]
      omega
    · rename_i hnone
      refine ⟨List.Subperm.refl _, fun hle hpos => ?_⟩
      by_contra hno
      have hne : l.slots ≠ [] := by
        rintro h
        rw [h] at hno
        exact hno hpos
      rw [← Option.not_isSome_iff_eq_none] at hnone
      exact hnone (Vec.firstMin_isSome _ hne)
  · exact ⟨List.Subperm.refl _, fun _ _ => by omega⟩

theorem recordFailure_first (h : (l.kept cfg now).find? (·.key == key) = none) :
    ∃ rest, (l.recordFailure cfg key now).2.slots = rest ++ [⟨key, 1, now⟩] ∧ rest.Subperm (l.kept cfg now) ∧
      ((l.kept cfg now).length ≤ cfg.slots → 0 < cfg.slots → rest.length < cfg.slots) := by
  have hslots : (l.recordFailure cfg key now).2.slots =
      (addSlot cfg { l.refill cfg now with tokens := (l.refill cfg now).tokens - 1, slots := l.kept cfg now } key now).slots := by
    unfold recordFailure count LoginLimiter.find forgetStale
    dsimp only
    rw [refill_slots, show List.find? _ (l.slots.filter _) = none from h]
    rfl
  rw [hslots]
  exact addSlot_slots _ key now

theorem kept_sublist (cfg : LimiterConfig) (l : LoginLimiter) (now : Nat) : (l.kept cfg now).Sublist l.slots := List.filter_sublist

theorem recordFailure_nodup (hn : (l.slots.map Slot.key).Nodup) : ((l.recordFailure cfg key now).2.slots.map Slot.key).Nodup := by
  have hkept := hn.sublist ((kept_sublist cfg l now).map Slot.key)
  cases hf : (l.kept cfg now).find? (·.key == key) with
  | some s =>
    rw [recordFailure_again hf, map_updateFirst (f := (Slot.failAgain · now)) (g := Slot.key) fun _ _ => rfl]
    exact hkept
  | none =>
    obtain ⟨rest, hslots, hsub, -⟩ := recordFailure_first hf
    rw [hslots, List.map_append, List.nodup_append]
    refine ⟨Vec.nodup_map_of_subperm hsub hkept, List.nodup_singleton _, ?_⟩
    intro a ha b hb
    obtain ⟨u, hu, rfl⟩ := List.mem_map.mp ha
    obtain rfl : b = key := by simpa using hb
    simpa using List.find?_eq_none.mp hf u (hsub.subset hu)

theorem recordFailure_length (hcap : l.slots.length ≤ cfg.slots) (hpos : 0 < cfg.slots) :
    (l.recordFailure cfg key now).2.slots.length ≤ cfg.slots := by
  have hkept := Nat.le_trans (kept_sublist cfg l now).length_le hcap
  cases hf : (l.kept cfg now).find? (·.key == key) with
  | some s =>
    rw [recordFailure_again hf, length_updateFirst]
    exact hkept
  | none =>
    obtain ⟨rest, hslots, -, hroom⟩ := recordFailure_first hf
    have := hroom hkept hpos
    rw [hslots, List.length_append, List.length_singleton]
    omega

/-- The peer's slot is of now, the others are as they were. -/
theorem recordFailure_mem (hn : (l.slots.map Slot.key).Nodup) {s : Slot} (hs : s ∈ (l.recordFailure cfg key now).2.slots) :
    s ∈ l.slots ∧ s.key ≠ key ∨ s.key = key ∧ s.lastFailure = now := by
  have hkept := kept_sublist cfg l now
  cases hf : (l.kept cfg now).find? (·.key == key) with
  | some u =>
    rw [recordFailure_again hf, updateFirst_eq_map (hn.sublist (hkept.map Slot.key))] at hs
    obtain ⟨a, ha, rfl⟩ := List.mem_map.mp hs
    by_cases hk : a.key = key
    · rw [if_pos hk]
      exact .inr ⟨hk, rfl⟩
    · rw [if_neg hk]
      exact .inl ⟨hkept.subset ha, hk⟩
  | none =>
    obtain ⟨rest, hslots, hsub, -⟩ := recordFailure_first hf
    rw [hslots] at hs
    rcases List.mem_append.mp hs with hs | hs
    · refine .inl ⟨hkept.subset (hsub.subset hs), ?_⟩
      simpa using List.find?_eq_none.mp hf s (hsub.subset hs)
    · rw [List.mem_singleton.mp hs]
      exact .inr ⟨rfl, rfl⟩

end LoginLimiter

/-! ## Runs -/

inductive Op where
  | check (key : PeerKey)
  | recordFailure (key : PeerKey)
  | recordSuccess (key : PeerKey)
  /-- The clock advances. -/
  | pass (d : Nat)
  deriving DecidableEq

def Op.isFailure : Op → Bool
  | .recordFailure _ => true
  | _ => false

structure World where
  now : Nat
  limiter : LoginLimiter
  /-- The failures recorded, with their times. -/
  failed : List (PeerKey × Nat) := []
  /-- The peers `check` has let in since the last failure was recorded. -/
  admitted : List PeerKey := []

def start (cfg : LimiterConfig) (now : Nat) : World := { now, limiter := .new cfg now }

def lastFailureOf (key : PeerKey) (failed : List (PeerKey × Nat)) : Option Nat :=
  ((failed.filter (·.1 = key)).getLast?).map (·.2)

/-- The failures recorded in a stretch of time. -/
def failuresIn (failed : List (PeerKey × Nat)) (s u : Nat) : Nat := failed.countP fun f => s ≤ f.2 ∧ f.2 ≤ u

namespace World

variable (cfg : LimiterConfig)

def step (w : World) : Op → World
  | .check key =>
    let (admission, limiter) := w.limiter.check cfg key w.now
    { w with limiter, admitted := if admission = .allow then key :: w.admitted else w.admitted }
  | .recordFailure key =>
    { w with
      limiter := (w.limiter.recordFailure cfg key w.now).2
      failed := w.failed ++ [(key, w.now)]
      admitted := [] }
  | .recordSuccess key => { w with limiter := w.limiter.recordSuccess key }
  | .pass d => { w with now := w.now + d }

/-- A failure is recorded only of a peer that has been let in. -/
def Proper (w : World) : Op → Prop
  | .recordFailure key => key ∈ w.admitted
  | _ => True

instance (w : World) : ∀ op, Decidable (w.Proper op)
  | .recordFailure key => inferInstanceAs (Decidable (key ∈ w.admitted))
  | .check _ | .recordSuccess _ | .pass _ => .isTrue trivial

/-- The block of a peer that has a slot is over when its next failure is recorded. -/
def BacksOff (w : World) (op : Op) : Prop :=
  ∀ key s, op = .recordFailure key → s ∈ w.limiter.slots → s.key = key →
    lastFailureOf key w.failed = some s.lastFailure ∧ s.lastFailure + cfg.block key s.failures ≤ w.now

structure Inv (w : World) : Prop where
  bucket : w.limiter.bucket.Sound cfg.globalBurst w.now
  keys : (w.limiter.slots.map Slot.key).Nodup
  room : 0 < cfg.slots → w.limiter.slots.length ≤ cfg.slots
  dated : ∀ s ∈ w.limiter.slots, lastFailureOf s.key w.failed = some s.lastFailure

variable {cfg} {w : World}

theorem lastFailureOf_snoc {key k : PeerKey} {t : Nat} {failed : List (PeerKey × Nat)} :
    lastFailureOf key (failed ++ [(k, t)]) = if k = key then some t else lastFailureOf key failed := by
  unfold lastFailureOf
  rw [List.filter_append]
  by_cases hk : k = key
  · simp [hk]
  · simp [hk]

theorem Inv.start (now : Nat) : Inv cfg (start cfg now) where
  bucket := ⟨Nat.le_refl _, Nat.le_refl _⟩
  keys := List.nodup_nil
  room := fun _ => Nat.zero_le _
  dated := nofun

/-- Slots may go, and the bucket be refilled. -/
theorem Inv.thinned (h : Inv cfg w) {l : LoginLimiter} (hslots : l.slots.Sublist w.limiter.slots)
    (hbucket : l.bucket.Sound cfg.globalBurst w.now) {admitted : List PeerKey} : Inv cfg { w with limiter := l, admitted := admitted } where
  bucket := hbucket
  keys := h.keys.sublist (hslots.map _)
  room := fun hpos => Nat.le_trans hslots.length_le (h.room hpos)
  dated := fun s hs => h.dated s (hslots.subset hs)

theorem Inv.step (h : Inv cfg w) (op : Op) : Inv cfg (w.step cfg op) := by
  cases op with
  | check key =>
    refine h.thinned (l := (w.limiter.check cfg key w.now).2) ?_ ?_
    · rw [LoginLimiter.check_slots]
      exact List.filter_sublist
    · rw [LoginLimiter.check_bucket]
      exact Bucket.refill_sound h.bucket
  | recordSuccess key => exact h.thinned (l := w.limiter.recordSuccess key) List.filter_sublist h.bucket
  | pass d => exact { h with bucket := h.bucket.later d }
  | recordFailure key =>
    refine ⟨?_, LoginLimiter.recordFailure_nodup h.keys, fun hpos => LoginLimiter.recordFailure_length (h.room hpos) hpos, ?_⟩
    · show (w.limiter.recordFailure cfg key w.now).2.bucket.Sound cfg.globalBurst w.now
      rw [LoginLimiter.recordFailure_bucket]
      exact (Bucket.refill_sound h.bucket).take
    · intro s hs
      show lastFailureOf s.key (w.failed ++ [(key, w.now)]) = _
      rw [lastFailureOf_snoc]
      rcases LoginLimiter.recordFailure_mem h.keys hs with ⟨hs, hk⟩ | ⟨hk, ht⟩
      · rw [if_neg (Ne.symm hk)]
        exact h.dated s hs
      · rw [if_pos hk.symm, ht]

theorem reachable (now : Nat) (ops : List Op) : Inv cfg (exec (step cfg) (Auth.start cfg now) ops) :=
  invariant (fun _ op h => h.step op) (Inv.start now)

/-! ### The failures in a stretch of time -/

theorem failuresIn_snoc {failed : List (PeerKey × Nat)} {key : PeerKey} {t s u : Nat} :
    failuresIn (failed ++ [(key, t)]) s u = failuresIn failed s u + if s ≤ t ∧ t ≤ u then 1 else 0 := by
  unfold failuresIn
  rw [List.countP_append, List.countP_singleton]
  by_cases h : s ≤ t ∧ t ≤ u <;> simp [h]

theorem failuresIn_later {failed : List (PeerKey × Nat)} {now s u : Nat} (h : ∀ f ∈ failed, f.2 ≤ now) (hu : now ≤ u) :
    failuresIn failed s u = failuresIn failed s now := by
  refine List.countP_congr fun f hf => ?_
  have := h f hf
  simp only [decide_eq_true_eq]
  omega

theorem failuresIn_none {failed : List (PeerKey × Nat)} {now s u : Nat} (h : ∀ f ∈ failed, f.2 ≤ now) (hs : now < s) :
    failuresIn failed s u = 0 := by
  refine List.countP_eq_zero.mpr fun f hf => ?_
  have := h f hf
  simp only [decide_eq_true_eq]
  omega

/-- What the bucket holds now. -/
def level (cfg : LimiterConfig) (w : World) : Nat := w.limiter.bucket.level cfg.globalBurst cfg.globalRefill w.now

structure Bounded (cfg : LimiterConfig) (w : World) : Prop extends Inv cfg w where
  past : ∀ f ∈ w.failed, f.2 ≤ w.now
  rate : ∀ s, s ≤ w.now →
    failuresIn w.failed s w.now * cfg.globalRefill + w.level cfg ≤ cfg.globalBurst * cfg.globalRefill + (w.now - s)
  stretch : ∀ s u, s ≤ u → failuresIn w.failed s u * cfg.globalRefill ≤ cfg.globalBurst * cfg.globalRefill + (u - s)
  admitted : ∀ key ∈ w.admitted, cfg.globalRefill ≤ w.level cfg ∧
    ∀ s ∈ w.limiter.slots, s.key = key → s.lastFailure + cfg.block key s.failures ≤ w.now

theorem Bounded.start (now : Nat) : Bounded cfg (Auth.start cfg now) where
  toInv := Inv.start now
  past := nofun
  rate := fun s _ => by
    have : (Auth.start cfg now).level cfg ≤ cfg.globalBurst * cfg.globalRefill := Bucket.level_le
    rw [show failuresIn (Auth.start cfg now).failed s (Auth.start cfg now).now = 0 from rfl]
    omega
  stretch := fun s u _ => by
    rw [show failuresIn (Auth.start cfg now).failed s u = 0 from rfl]
    omega
  admitted := nofun

/-- Where the bucket holds a period there is a token. -/
theorem tokens_pos (hrefill : 0 < cfg.globalRefill) {b : Bucket} {now : Nat} (hb : b.Sound cfg.globalBurst now)
    (hlevel : cfg.globalRefill ≤ b.level cfg.globalBurst cfg.globalRefill now) :
    0 < (b.refill cfg.globalBurst cfg.globalRefill now).tokens := by
  rw [(Bucket.refill_settled hrefill hb).tokens_eq hrefill, Bucket.level_refill hb]
  exact Nat.div_pos hlevel hrefill

/-- A peer that is let in finds a token, and its block is over. -/
theorem Inv.admits (hrefill : 0 < cfg.globalRefill) (h : Inv cfg w) {key : PeerKey} (ha : (w.limiter.check cfg key w.now).1 = .allow) :
    cfg.globalRefill ≤ w.level cfg ∧
      ∀ s ∈ (w.limiter.check cfg key w.now).2.slots, s.key = key → s.lastFailure + cfg.block key s.failures ≤ w.now := by
  have hwait := Nat.le_of_eq (LoginLimiter.check_allow.mp ha)
  obtain ⟨hbucket, hslot⟩ := LoginLimiter.wait_le_iff.mp hwait
  have hb : (w.limiter.check cfg key w.now).2.bucket = _ := LoginLimiter.check_bucket
  constructor
  · have hset := Bucket.refill_settled hrefill h.bucket
    have hpos : 0 < (w.limiter.bucket.refill cfg.globalBurst cfg.globalRefill w.now).tokens := by
      rw [← hb]
      refine Nat.pos_of_ne_zero fun hzero => ?_
      have hend := hbucket hzero
      rw [← hb] at hset
      unfold Bucket.Settled at hset
      simp only [LoginLimiter.bucket] at hset hzero
      omega
    rw [hset.tokens_eq hrefill, Bucket.level_refill h.bucket] at hpos
    by_contra hless
    have hlt : w.limiter.bucket.level cfg.globalBurst cfg.globalRefill w.now < cfg.globalRefill := Nat.not_le.mp hless
    rw [Nat.div_eq_of_lt hlt] at hpos
    exact Nat.lt_irrefl _ hpos
  · intro s hs hk
    have hn : ((w.limiter.check cfg key w.now).2.slots.map Slot.key).Nodup := by
      rw [LoginLimiter.check_slots]
      exact h.keys.sublist (List.filter_sublist.map _)
    subst hk
    exact hslot s (LoginLimiter.find_of_mem hn hs)

theorem Bounded.step (hrefill : 0 < cfg.globalRefill) (h : Bounded cfg w) {op : Op} (hop : w.Proper op) : Bounded cfg (w.step cfg op) := by
  have hinv := h.toInv.step op
  cases op with
  | check key =>
    have hlevel : (w.step cfg (.check key)).level cfg = w.level cfg := by
      show (w.limiter.check cfg key w.now).2.bucket.level _ _ w.now = _
      rw [LoginLimiter.check_bucket, Bucket.level_refill h.bucket]
      rfl
    refine ⟨hinv, h.past, fun s hs => hlevel ▸ h.rate s hs, h.stretch, ?_⟩
    have hold : ∀ k ∈ w.admitted, cfg.globalRefill ≤ w.level cfg ∧
        ∀ s ∈ (w.limiter.check cfg key w.now).2.slots, s.key = k → s.lastFailure + cfg.block k s.failures ≤ w.now := by
      intro k hk
      refine ⟨(h.admitted k hk).1, fun s hs => (h.admitted k hk).2 s ?_⟩
      rw [LoginLimiter.check_slots] at hs
      exact List.mem_of_mem_filter hs
    rw [hlevel]
    intro k hk
    change k ∈ (if (w.limiter.check cfg key w.now).1 = .allow then key :: w.admitted else w.admitted) at hk
    split at hk
    · rcases List.mem_cons.mp hk with rfl | hk
      · exact h.toInv.admits hrefill ‹_›
      · exact hold k hk
    · exact hold k hk
  | recordSuccess key =>
    refine ⟨hinv, h.past, h.rate, h.stretch, fun k hk => ⟨(h.admitted k hk).1, fun s hs => (h.admitted k hk).2 s ?_⟩⟩
    exact List.mem_of_mem_filter hs
  | pass d =>
    refine ⟨hinv, fun f hf => Nat.le_add_right_of_le (h.past f hf), fun s hs => ?_, h.stretch, fun k hk => ?_⟩
    · have hrises : (w.step cfg (.pass d)).level cfg ≤ w.level cfg + d := Bucket.level_later d
      show failuresIn w.failed s (w.now + d) * _ + _ ≤ _ + (w.now + d - s)
      by_cases hpast : s ≤ w.now
      · have := h.rate s hpast
        rw [failuresIn_later h.past (Nat.le_add_right _ _)]
        omega
      · have hmost : (w.step cfg (.pass d)).level cfg ≤ cfg.globalBurst * cfg.globalRefill := Bucket.level_le
        rw [failuresIn_none h.past (Nat.not_le.mp hpast)]
        omega
    · have hrises : w.level cfg ≤ (w.step cfg (.pass d)).level cfg := Bucket.level_mono (Nat.le_add_right _ _)
      obtain ⟨hlevel, hslots⟩ := h.admitted k hk
      exact ⟨Nat.le_trans hlevel hrises, fun s hs hkey => Nat.le_add_right_of_le (hslots s hs hkey)⟩
  | recordFailure key =>
    obtain ⟨hlevel, -⟩ := h.admitted key hop
    have htake : (w.step cfg (.recordFailure key)).level cfg + cfg.globalRefill = w.level cfg := by
      show (w.limiter.recordFailure cfg key w.now).2.bucket.level _ _ w.now + _ = _
      rw [LoginLimiter.recordFailure_bucket, (Bucket.refill_settled hrefill h.bucket).level_take (tokens_pos hrefill h.bucket hlevel),
        Bucket.level_refill h.bucket]
      rfl
    have hrate : ∀ s, s ≤ w.now → failuresIn (w.failed ++ [(key, w.now)]) s w.now * cfg.globalRefill +
        (w.step cfg (.recordFailure key)).level cfg ≤ cfg.globalBurst * cfg.globalRefill + (w.now - s) := by
      intro s hs
      have := h.rate s hs
      rw [failuresIn_snoc, if_pos ⟨hs, Nat.le_refl _⟩, Nat.add_mul, Nat.one_mul]
      omega
    refine ⟨hinv, fun f hf => ?_, hrate, fun s u hsu => ?_, nofun⟩
    · rcases List.mem_append.mp hf with hf | hf
      · exact h.past f hf
      · rw [List.mem_singleton.mp hf]
        exact Nat.le_refl _
    · show failuresIn (w.failed ++ [(key, w.now)]) s u * _ ≤ _
      by_cases hin : s ≤ w.now ∧ w.now ≤ u
      · have hpast : ∀ f ∈ w.failed ++ [(key, w.now)], f.2 ≤ w.now := by
          intro f hf
          rcases List.mem_append.mp hf with hf | hf
          · exact h.past f hf
          · exact Nat.le_of_eq (congrArg Prod.snd (List.mem_singleton.mp hf))
        have := hrate s hin.1
        rw [failuresIn_later hpast hin.2]
        omega
      · rw [failuresIn_snoc, if_neg hin]
        exact h.stretch s u hsu

theorem Bounded.backsOff (h : Bounded cfg w) {op : Op} (hop : w.Proper op) : w.BacksOff cfg op := by
  rintro key s rfl hs rfl
  exact ⟨h.dated s hs, (h.admitted s.key hop).2 s hs rfl⟩

end World

/-- Whatever is asked, failures being recorded only of peers let in: in a stretch of time `T` at
    most `burst + T / refill + 1` failures are recorded, of all peers; the tokens and the slots
    keep to their bounds; and a peer that has a slot has waited out its block when it fails again. -/
theorem failures_bounded (cfg : LimiterConfig) (hslots : 0 < cfg.slots) (hrefill : 0 < cfg.globalRefill) (now : Nat) (ops : List Op)
    (h : Along (World.step cfg) World.Proper (start cfg now) ops) :
    let w := exec (World.step cfg) (start cfg now) ops
    (∀ s T, failuresIn w.failed s (s + T) ≤ cfg.globalBurst + T / cfg.globalRefill + 1) ∧
      w.limiter.tokens ≤ cfg.globalBurst ∧ (w.limiter.slots.map Slot.key).Nodup ∧ w.limiter.slots.length ≤ cfg.slots ∧
        Along (World.step cfg) (World.BacksOff cfg) (start cfg now) ops := by
  have hstep (w : World) (op : Op) (hw : World.Bounded cfg w) (hop : w.Proper op) : World.Bounded cfg (w.step cfg op) :=
    hw.step hrefill hop
  have hend := invariant_along hstep (World.Bounded.start now) h
  refine ⟨fun s T => ?_, hend.bucket.tokens, hend.keys, hend.room hslots, ?_⟩
  · have hstretch := Nat.div_le_div_right (c := cfg.globalRefill) (hend.stretch s (s + T) (Nat.le_add_right _ _))
    rw [Nat.mul_div_cancel _ hrefill, Nat.add_sub_cancel_left, Nat.add_comm (cfg.globalBurst * _), Nat.add_mul_div_right _ _ hrefill] at hstretch
    omega
  · exact along_of_invariant hstep (fun _ _ hw hop => hw.backsOff hop) (World.Bounded.start now) h

section

def phone : PeerKey := .v4 10 0 90 3

/-- The peer is let in and gives a wrong password. -/
def wrong (key : PeerKey) : List Op := [.check key, .recordFailure key]

/-- Five wrong passwords at once, a sixth when the block of a second is over. -/
theorem six_failures_within_ten_seconds :
    let w := exec (World.step {}) (start {} 0) ((List.replicate 5 (wrong phone)).flatten ++ .pass (secs 1) :: wrong phone)
    failuresIn w.failed 0 (0 + secs 10) = 6 ∧ failuresIn w.failed 0 (0 + secs 10) ≤ 30 + secs 10 / secs 10 + 1 :=
  ⟨by decide +kernel, (failures_bounded {} (by decide) (by decide) 0
    ((List.replicate 5 (wrong phone)).flatten ++ .pass (secs 1) :: wrong phone) (by decide +kernel)).1 0 (secs 10)⟩

end

/-! ## The announced wait -/

namespace World

variable {cfg : LimiterConfig} {w : World} {key : PeerKey}

theorem now_le_step (w : World) (op : Op) : w.now ≤ (w.step cfg op).now := by
  cases op with
  | pass d => exact Nat.le_add_right _ _
  | _ => exact Nat.le_refl _

theorem now_le_exec (w : World) (ops : List Op) : w.now ≤ (exec (step cfg) w ops).now := by
  induction ops generalizing w with
  | nil => exact Nat.le_refl _
  | cons op ops ih => exact Nat.le_trans (now_le_step w op) (ih _)

/-- By the instant `t` the peer's block is over, and without a failure the bucket holds a token. -/
structure FreeBy (cfg : LimiterConfig) (key : PeerKey) (t : Nat) (w : World) : Prop extends Inv cfg w where
  slots : ∀ s ∈ w.limiter.slots, s.key = key → s.lastFailure + cfg.block key s.failures ≤ t
  tokens : 0 < cfg.globalRefill → cfg.globalRefill ≤ w.level cfg + (t - w.now)

/-- What a failing nobody does keeps. -/
theorem FreeBy.step (hburst : 1 ≤ cfg.globalBurst) {t : Nat} (h : FreeBy cfg key t w) {op : Op} (hop : op.isFailure = false)
    (ht : (w.step cfg op).now ≤ t) : FreeBy cfg key t (w.step cfg op) := by
  have hinv := h.toInv.step op
  cases op with
  | check k =>
    refine ⟨hinv, fun s hs => h.slots s ?_, ?_⟩
    · change s ∈ (w.limiter.check cfg k w.now).2.slots at hs
      rw [LoginLimiter.check_slots] at hs
      exact List.mem_of_mem_filter hs
    · have hlevel : (w.step cfg (.check k)).level cfg = w.level cfg := by
        show (w.limiter.check cfg k w.now).2.bucket.level _ _ w.now = _
        rw [LoginLimiter.check_bucket, Bucket.level_refill h.bucket]
        rfl
      rw [hlevel]
      exact h.tokens
  | recordSuccess k => exact ⟨hinv, fun s hs => h.slots s (List.mem_of_mem_filter hs), h.tokens⟩
  | pass d =>
    refine ⟨hinv, h.slots, fun hpos => ?_⟩
    have hrises : min (cfg.globalBurst * cfg.globalRefill) (w.level cfg + d) ≤ (w.step cfg (.pass d)).level cfg :=
      Bucket.level_rises h.bucket d
    have hone : 1 * cfg.globalRefill ≤ cfg.globalBurst * cfg.globalRefill := Nat.mul_le_mul_right _ hburst
    have := h.tokens hpos
    have hnow : (w.step cfg (.pass d)).now = w.now + d := rfl
    omega
  | recordFailure k => cases hop

theorem FreeBy.run (hburst : 1 ≤ cfg.globalBurst) {t : Nat} {ops : List Op} (hops : ∀ op ∈ ops, op.isFailure = false) {w : World}
    (h : FreeBy cfg key t w) (ht : (exec (World.step cfg) w ops).now ≤ t) : FreeBy cfg key t (exec (World.step cfg) w ops) := by
  induction ops generalizing w with
  | nil => exact h
  | cons op ops ih =>
    refine ih (fun o ho => hops o (List.mem_cons_of_mem _ ho)) ?_ ht
    exact h.step hburst (hops op (List.mem_cons_self ..)) (Nat.le_trans (now_le_exec _ ops) ht)

theorem FreeBy.allowed (hburst : 1 ≤ cfg.globalBurst) (h : FreeBy cfg key w.now w) : (w.limiter.check cfg key w.now).1 = .allow := by
  rw [LoginLimiter.check_allow, ← Nat.le_zero, LoginLimiter.wait_le_iff]
  constructor
  · intro hzero
    have hb : (w.limiter.check cfg key w.now).2.bucket = _ := LoginLimiter.check_bucket
    have htokens : (w.limiter.bucket.refill cfg.globalBurst cfg.globalRefill w.now).tokens = 0 := by
      rw [← hb]
      exact hzero
    rcases Nat.eq_zero_or_pos cfg.globalRefill with hnone | hpos
    · simp only [Bucket.refill, hnone, or_true, if_true] at htokens
      omega
    · have hlevel := h.tokens hpos
      rw [Nat.sub_self, Nat.add_zero] at hlevel
      have := tokens_pos hpos h.bucket hlevel
      omega
  · intro s hs
    obtain ⟨hmem, hkey⟩ := LoginLimiter.find_some hs
    rw [LoginLimiter.check_slots] at hmem
    exact h.slots s (List.mem_of_mem_filter hmem) hkey

/-- The wait that a check announces is enough. -/
theorem Inv.freeBy (h : Inv cfg w) {wait : Nat} (hd : (w.limiter.check cfg key w.now).1 = .deny wait) :
    FreeBy cfg key (w.now + wait) (w.step cfg (.check key)) := by
  have hinv := h.step (.check key)
  obtain ⟨hbucket, hslot⟩ := LoginLimiter.wait_le_iff.mp (Nat.le_of_eq (LoginLimiter.check_deny hd))
  refine ⟨hinv, ?_, fun hpos => ?_⟩
  · intro s hs hk
    subst hk
    exact hslot s (LoginLimiter.find_of_mem hinv.keys hs)
  · have hb : (w.limiter.check cfg key w.now).2.bucket = _ := LoginLimiter.check_bucket
    have hset := Bucket.refill_settled hpos h.bucket
    rw [← hb] at hset
    have hlevel : (w.step cfg (.check key)).level cfg =
        (w.limiter.check cfg key w.now).2.tokens * cfg.globalRefill + (w.now - (w.limiter.check cfg key w.now).2.refillFrom) := hset.level_eq
    have hnow : (w.step cfg (.check key)).now = w.now := rfl
    rw [hlevel, hnow]
    rcases Nat.eq_zero_or_pos (w.limiter.check cfg key w.now).2.tokens with hzero | hsome
    · have := hbucket hzero
      have hsince : (w.limiter.check cfg key w.now).2.refillFrom ≤ w.now := hinv.bucket.since
      omega
    · have hone : 1 * cfg.globalRefill ≤ (w.limiter.check cfg key w.now).2.tokens * cfg.globalRefill := Nat.mul_le_mul_right _ hsome
      omega

end World

/-- In every state a run of calls leaves: a peer denied with a wait is let in when that has passed,
    whatever but a failure happens meanwhile; and a check forgets what is stale and refills, no more. -/
theorem announced_wait_suffices (cfg : LimiterConfig) (hburst : 1 ≤ cfg.globalBurst) (now : Nat) (ops : List Op) (key : PeerKey) :
    let w := exec (World.step cfg) (start cfg now) ops
    (∀ wait more, (w.limiter.check cfg key w.now).1 = .deny wait → (∀ op ∈ more, op.isFailure = false) →
      (exec (World.step cfg) w (.check key :: more)).now = w.now + wait →
        ((exec (World.step cfg) w (.check key :: more)).limiter.check cfg key (w.now + wait)).1 = .allow) ∧
      (w.limiter.check cfg key w.now).2.bucket = w.limiter.bucket.refill cfg.globalBurst cfg.globalRefill w.now ∧
        (w.limiter.check cfg key w.now).2.slots = w.limiter.slots.filter fun s => w.now - s.lastFailure < cfg.forgetAfter := by
  intro w
  have hinv : World.Inv cfg w := World.reachable now ops
  refine ⟨fun wait more hd hmore ht => ?_, LoginLimiter.check_bucket, LoginLimiter.check_slots⟩
  rw [exec_cons] at ht ⊢
  have hend := (hinv.freeBy hd).run hburst hmore (Nat.le_of_eq ht)
  rw [← ht] at hend ⊢
  exact hend.allowed hburst

/-- Asking again does not prolong the block of a second. -/
theorem hammering_ends_in_time :
    let w := exec (World.step {}) (start {} 0) (List.replicate 5 (wrong phone)).flatten
    (w.limiter.check {} phone w.now).1 = .deny (secs 1) ∧
      ((exec (World.step {}) w (.check phone :: [.pass (secs 1 / 2), .check phone, .check phone, .pass (secs 1 / 2)])).limiter.check {} phone
        (w.now + secs 1)).1 = .allow :=
  ⟨by decide +kernel, (announced_wait_suffices {} (by decide) 0 (List.replicate 5 (wrong phone)).flatten phone).1 (secs 1)
    [.pass (secs 1 / 2), .check phone, .check phone, .pass (secs 1 / 2)] (by decide +kernel) (by decide) (by decide +kernel)⟩

end OpenU60.Auth
