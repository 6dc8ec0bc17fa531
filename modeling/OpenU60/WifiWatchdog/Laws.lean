/-
  OpenU60.WifiWatchdog.Laws — what the watchdog keeps to, however it is woken and whatever its scans find
  (`zte-agent/src/wifi_watchdog.rs`).

  A `Watch` is the machine with its clock and the scans that have succeeded. A copy is first seen by the first of
  the scans on end that saw it: one that is missing from a scan is gone.
  - `Inv`: a copy on record was seen by the last scan, and one that counts as endless was endless when first seen; a
    copy that the last scan saw and that is not on record was killed.
  - `watchdog_laws`: a scan kills a copy or tracks it with a deadline ahead, and soon after its maximum age; a failed
    scan puts nothing off; what it takes to kill.
-/

import OpenU60.Lib.Machine
import OpenU60.WifiWatchdog.Machine

namespace OpenU60.WifiWatchdog

open OpenU60.Lib

structure Watch where
  machine : Machine := {}
  clock : Nat := 0
  /-- The scans that have succeeded, the latest first. -/
  scans : List Scan := []

/-- The first of the scans on end, up to the last, that saw the copy. -/
def firstSeen (copy : Copy) : List Scan → Option Scan
  | [] => none
  | scan :: older => if copy ∈ scan.copies then some ((firstSeen copy older).getD scan) else none

/-- By this scan the copy could never end. -/
def Scan.Endless (scan : Scan) : Prop := ∃ o, scan.outlook = some o ∧ o.endless = true

/-- A step kills nothing. -/
def Spares (actions : List Action) : Prop := ∀ pid age rule, .kill pid age rule ∉ actions

namespace Watch

def step (w : Watch) (i : Event × Nat) : Watch where
  machine := (w.machine.step i.1 i.2).1
  clock := i.2
  scans := match i.1 with
    | .scanned scan => scan :: w.scans
    | _ => w.scans

/-- Time does not fall. -/
def Timed (w : Watch) (i : Event × Nat) : Prop := w.clock ≤ i.2

/-- What it takes to kill. -/
def Deserves (w : Watch) (scan : Scan) (now : Nat) (copy : Copy) : Prop :=
  maxAge ≤ now - copy.start ∨
    (∃ first, firstSeen copy (scan :: w.scans) = some first ∧ first.Endless) ∧ stuckAge ≤ now - copy.start ∧
      ∃ o, scan.outlook = some o ∧ o.endless = true ∧ o.reachable ≤ scan.fresh copy

/-- A copy is on record, to be looked at soon. -/
def Tracks (m : Machine) (now : Nat) (copy : Copy) : Prop :=
  (∃ t, m.tracked copy.pid = some t ∧ t.start = copy.start) ∧
    ∃ d, m.deadline = some d ∧ now < d ∧ d ≤ copy.start + maxAge + slack

def Lawful (w : Watch) (i : Event × Nat) : Prop :=
  match i.1 with
  | .scanned scan =>
    (∀ c ∈ scan.copies, (∃ rule, .kill c.pid (i.2 - c.start) rule ∈ (w.machine.step i.1 i.2).2) ∨
        Tracks (w.machine.step i.1 i.2).1 i.2 c) ∧
      (∀ d, (w.machine.step i.1 i.2).1.deadline = some d → i.2 < d) ∧
      ∀ pid age rule, .kill pid age rule ∈ (w.machine.step i.1 i.2).2 →
        ∃ c ∈ scan.copies, c.pid = pid ∧ age = i.2 - c.start ∧ w.Deserves scan i.2 c
  | .scanFailed =>
    (∀ d, w.machine.deadline = some d → ∃ d', (w.machine.step i.1 i.2).1.deadline = some d' ∧ d' ≤ d) ∧
      Spares (w.machine.step i.1 i.2).2
  | _ => Spares (w.machine.step i.1 i.2).2

structure Inv (w : Watch) : Prop where
  seen : ∀ pid t, w.machine.tracked pid = some t → ∃ scan older, w.scans = scan :: older ∧ ⟨pid, t.start⟩ ∈ scan.copies
  endless : ∀ pid t r, w.machine.tracked pid = some t → t.rule = .endless r →
    ∃ first, firstSeen ⟨pid, t.start⟩ w.scans = some first ∧ first.Endless
  killed : ∀ scan older, w.scans = scan :: older → ∀ c ∈ scan.copies,
    (∃ t, w.machine.tracked c.pid = some t ∧ t.start = c.start) ∨ c.start + maxAge ≤ w.clock ∨
      ∃ first, firstSeen c w.scans = some first ∧ first.Endless

variable {w : Watch} {scan : Scan} {now : Nat} {copy : Copy}

theorem known_start (before : Int → Option Tracked) : (known before scan copy).1.start = copy.start := by
  unfold known
  split
  · split
    · assumption
    · rfl
  · rfl

theorem forOutlook_endless {r : Nat} (h : Rule.forOutlook scan.outlook = .endless r) : scan.Endless := by
  unfold Rule.forOutlook at h
  split at h
  · rename_i o ho
    split at h
    · rename_i hendless
      exact ⟨o, ho, hendless⟩
    · cases h
  · cases h

theorem firstSeen_head (h : copy ∈ scan.copies) : firstSeen copy (scan :: w.scans) =
    some ((firstSeen copy w.scans).getD scan) := if_pos h

/-- A copy that counts as endless when a scan comes to it was so when first seen, or has had its time. -/
theorem Inv.known_endless (h : w.Inv) (htimed : w.clock ≤ now) (hmem : copy ∈ scan.copies) {r : Nat}
    (hrule : (known w.machine.tracked scan copy).1.rule = .endless r) :
    copy.start + maxAge ≤ now ∨ ∃ first, firstSeen copy (scan :: w.scans) = some first ∧ first.Endless := by
  rw [firstSeen_head hmem]
  have hnew : (¬ ∃ t, w.machine.tracked copy.pid = some t ∧ t.start = copy.start) → Rule.forOutlook scan.outlook = .endless r →
      copy.start + maxAge ≤ now ∨ ∃ first, some ((firstSeen copy w.scans).getD scan) = some first ∧ first.Endless := by
    intro hunknown hnow
    cases hfirst : firstSeen copy w.scans with
    | none => exact .inr ⟨scan, rfl, forOutlook_endless hnow⟩
    | some first =>
      -- the last scan saw it, so it was killed then
      cases hscans : w.scans with
      | nil =>
        rw [hscans] at hfirst
        cases hfirst
      | cons last older =>
        have hlast : copy ∈ last.copies := by
          rw [hscans, firstSeen] at hfirst
          split at hfirst
          · assumption
          · cases hfirst
        rcases h.killed last older hscans copy hlast with ht | hold | ⟨first', hfirst', hendless⟩
        · exact absurd ht hunknown
        · exact .inl (Nat.le_trans hold htimed)
        · exact .inr ⟨first', hfirst.symm.trans hfirst', hendless⟩
  unfold known at hrule
  split at hrule
  · rename_i t ht
    split at hrule
    · rename_i hstart
      obtain ⟨first, hfirst, hendless⟩ := h.endless copy.pid t r ht hrule
      rw [hstart] at hfirst
      exact .inr ⟨first, by rw [show firstSeen copy w.scans = some first from hfirst]; rfl, hendless⟩
    · rename_i hother
      refine hnew ?_ hrule
      rintro ⟨t', ht', hstart⟩
      obtain rfl := Option.some.inj (ht.symm.trans ht')
      exact hother hstart
  · rename_i hnone
    refine hnew ?_ hrule
    rintro ⟨t', ht', -⟩
    cases hnone.symm.trans ht'

/-- What a kill takes. -/
theorem Inv.deserves (h : w.Inv) (htimed : w.clock ≤ now) (hmem : copy ∈ scan.copies)
    (hkill : (w.machine.verdict scan now copy).check = none) : w.Deserves scan now copy := by
  rcases judge_kill hkill with hold | ⟨r, o, hrule, houtlook, hendless, hstuck, hfresh⟩
  · exact .inl hold
  · rcases h.known_endless htimed hmem hrule with hold | hfirst
    · exact .inl (by omega)
    · exact .inr ⟨hfirst, hstuck, o, houtlook, hendless, hfresh⟩

/-- A step that leaves the record alone keeps the invariant. -/
theorem Inv.idle (h : w.Inv) {m : Machine} (hrecord : m.tracked = w.machine.tracked) (hclock : w.clock ≤ now) :
    Inv { w with machine := m, clock := now } := by
  refine ⟨?_, ?_, fun last older hscans c hc => ?_⟩
  · rw [hrecord]
    exact h.seen
  · rw [hrecord]
    exact h.endless
  · rw [hrecord]
    rcases h.killed last older hscans c hc with ht | hold | hfirst
    · exact .inl ht
    · exact .inr (.inl (Nat.le_trans hold hclock))
    · exact .inr (.inr hfirst)

theorem Inv.scanned (h : w.Inv) (hclock : w.clock ≤ now) :
    Inv { machine := (w.machine.onScanned scan now).1, clock := now, scans := scan :: w.scans } := by
  have hlooked := onScanned_looked w.machine scan now
  have hstart : ∀ c, (w.machine.verdict scan now c).tracked.start = c.start := fun c => judge_start.trans (known_start _)
  refine ⟨fun pid t ht => ?_, fun pid t r ht hrule => ?_, fun last older hscans c hc => ?_⟩
  · obtain ⟨c, hc, rfl, -, rfl⟩ := (hlooked.tracked pid t).mp ht
    refine ⟨scan, w.scans, rfl, ?_⟩
    rw [hstart c]
    exact hc
  · obtain ⟨c, hc, rfl, hcheck, rfl⟩ := (hlooked.tracked pid t).mp ht
    rw [hstart c]
    obtain ⟨r', hr'⟩ := judge_endless hrule
    rcases h.known_endless hclock hc hr' with hold | hfirst
    · -- it would have been killed
      have hkill : (w.machine.verdict scan now c).check = none := judge_old (by omega)
      rw [hkill] at hcheck
      cases hcheck
    · exact hfirst
  · obtain ⟨rfl, rfl⟩ := List.cons.inj hscans
    cases hcheck : (w.machine.verdict scan now c).check with
    | some check => exact .inl ⟨_, (hlooked.tracked c.pid _).mpr ⟨c, hc, rfl, by rw [hcheck]; rfl, rfl⟩, hstart c⟩
    | none =>
      have hmax : 0 < maxAge := by decide
      rcases h.deserves hclock hc hcheck with hold | ⟨hfirst, -⟩
      · exact .inr (.inl (show c.start + maxAge ≤ now by omega))
      · exact .inr (.inr hfirst)

theorem Inv.step (h : w.Inv) {i : Event × Nat} (htimed : w.Timed i) : (w.step i).Inv := by
  obtain ⟨e, now⟩ := i
  have hclock : w.clock ≤ now := htimed
  cases e with
  | trigger => exact h.idle rfl hclock
  | timer =>
    refine h.idle ?_ hclock
    show (ite _ _ _ : Machine × List Action).1.tracked = _
    split
    · rfl
    · rfl
  | scanned scan => exact h.scanned hclock
  | scanFailed => exact h.idle rfl hclock

theorem Inv.lawful (h : w.Inv) {i : Event × Nat} (htimed : w.Timed i) : w.Lawful i := by
  obtain ⟨e, now⟩ := i
  have hclock : w.clock ≤ now := htimed
  cases e with
  | trigger => exact fun pid age rule hmem => by cases List.mem_singleton.mp hmem
  | timer =>
    show Spares (ite _ _ _ : Machine × List Action).2
    split
    · exact fun pid age rule hmem => by cases List.mem_singleton.mp hmem
    · exact fun pid age rule hmem => by cases hmem
  | scanned scan =>
    have hlooked := onScanned_looked w.machine scan now
    have hahead : ∀ d, (w.machine.onScanned scan now).1.deadline = some d → now < d := by
      intro d hd
      obtain ⟨c, -, hcheck⟩ := hlooked.deadline d hd
      exact (judge_check hcheck).1
    refine ⟨fun c hc => ?_, hahead, fun pid age rule hkill => ?_⟩
    · cases hcheck : (w.machine.verdict scan now c).check with
      | none => exact .inl ⟨_, (hlooked.kills c.pid _ _).mpr ⟨c, hc, rfl, rfl, hcheck, rfl⟩⟩
      | some check =>
        obtain ⟨d, hd, hle⟩ := hlooked.checked c hc check hcheck
        refine .inr ⟨⟨_, (hlooked.tracked c.pid _).mpr ⟨c, hc, rfl, by rw [hcheck]; rfl, rfl⟩, ?_⟩, d, hd, hahead d hd, ?_⟩
        · exact judge_start.trans (known_start _)
        · exact Nat.le_trans hle (judge_check hcheck).2
    · obtain ⟨c, hc, hpid, hage, hcheck, -⟩ := (hlooked.kills pid age rule).mp hkill
      exact ⟨c, hc, hpid, hage, h.deserves hclock hc hcheck⟩
  | scanFailed =>
    refine ⟨fun d hd => ?_, fun pid age rule hmem => by cases hmem⟩
    refine ⟨min d (now + scanRetry), ?_, Nat.min_le_left ..⟩
    show some ((w.machine.deadline.map _).getD _) = _
    rw [hd]
    rfl

end Watch

open Watch in
/-- At every step of every run: after a scan each copy it saw is killed or on record, to be looked at again, later than
    now and within a second of its maximum age; a failed scan puts no deadline off; and only a scan kills, at the
    maximum age or, early, a copy that could not end when first seen nor now and has all its monitors. -/
theorem watchdog_laws (events : List (Event × Nat)) (h : Machine.Along Watch.step Timed {} events) :
    Machine.Along Watch.step Lawful {} events :=
  Machine.along_of_invariant (fun _ _ hw hi => Inv.step hw hi) (fun _ _ hw hi => Inv.lawful hw hi)
    ⟨nofun, nofun, nofun⟩ h

/-- A copy of the boot is killed at the maximum age, and one that cannot end soon. -/
theorem stuck_copies_killed : Machine.Along Watch.step Watch.Lawful {}
    [(.scanned ⟨[⟨7, 0⟩], [], none, by decide⟩, secs 1), (.timer, secs 121),
      (.scanned ⟨[⟨7, 0⟩, ⟨8, secs 100⟩], [secs 101], some ⟨2, 1, true⟩, by decide⟩, secs 121)] :=
  watchdog_laws _ ⟨Nat.zero_le _, (by decide : secs 1 ≤ secs 121), Nat.le_refl _, trivial⟩

end OpenU60.WifiWatchdog
