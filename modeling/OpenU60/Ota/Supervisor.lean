/-
  OpenU60.Ota.Supervisor — the boot script (`scripts/router/zte-agent-supervisor.sh`):
  what it takes for runnable, and which build it starts from the files it finds.

  `boot_spec` says all a boot does, in the script's order of preference; the power-loss
  proofs use nothing else of it.
-/

import OpenU60.Ota.Verify

namespace OpenU60.Ota

open OpenU60.Lib

namespace Supervisor

variable {Bytes : Type} (P : Platform Bytes)

/-- Exit status 0 of `"$binary" ota-probe version`. -/
def answers (b : Bytes) (version : String) : Bool := (probe P b version).isOk

/-- `[[:space:]]`. -/
def isSpace (c : Char) : Bool := c == ' ' || (9 ≤ c.toNat && c.toNat ≤ 13)

def runnableBinary (blocked : List String) (dir : SlotDir Bytes) : Bool :=
  match dir.binary with
  | none => false
  | some file =>
    file.executable &&
      match dir.metadata with
      | some m =>
        m.version != "" && m.size != "" && m.sha256 != "" && !blocked.contains m.version &&
          toString (P.size file.bytes) == m.size && P.sha256 file.bytes == m.sha256 && answers P file.bytes m.version
      | none =>
        match dir.bootstrapDigest with
        | some identity =>
          let expectedSha := String.ofList ((line 0 identity).takeWhile (!isSpace ·))
          let bootstrapVersion := String.ofList (line 1 identity)
          expectedSha != "" && bootstrapVersion != "" && P.sha256 file.bytes == expectedSha &&
            answers P file.bytes bootstrapVersion
        -- a slot seeded by hand: the executable bit alone
        | none => true

def runnableSlot (d : Disk Bytes) (s : Slot) : Bool := runnableBinary P d.blocked (d.slot s)

def runnableStable (d : Disk Bytes) : Bool := d.stable.metadata.isSome && runnableBinary P d.blocked d.stable

/-- `valid_slot`, with the slot it names. -/
def validSlot : List Char → Option Slot
  | ['a'] => some .a
  | ['b'] => some .b
  | _ => none

def markedSlot (marker : Option (List Char)) : Option Slot := marker.bind fun text => validSlot (line 0 text)

/-- The candidate the pending marker names is not fallen back to. -/
def excluded (d : Disk Bytes) : Option Slot := markedSlot d.pending

def recordedPrevious (d : Disk Bytes) : Option Slot := d.pending.bind fun text => validSlot (line 1 text)

/-- The active marker is set back to the previous slot of a trial, if that one runs. -/
def restore (d : Disk Bytes) : Disk Bytes :=
  let d :=
    match recordedPrevious d with
    | some previous => if runnableSlot P d previous then d.writeActive previous .done else d
    | none => d
  { d with pending := none }

def fallback (d : Disk Bytes) (excluded : Option Slot) : Option Target :=
  if excluded != some .a && runnableSlot P d .a then some (.slot .a)
  else if excluded != some .b && runnableSlot P d .b then some (.slot .b)
  else if runnableStable P d then some .stable
  else none

def choose (d : Disk Bytes) (excluded : Option Slot) : Option Target :=
  match markedSlot d.active with
  | some active => if runnableSlot P d active then some (.slot active) else fallback P d excluded
  | none => fallback P d excluded

def mark (d : Disk Bytes) : Target → Disk Bytes
  | .slot s => (d.writeActive s .done).pointLegacyLink (.slot s) .done
  | .stable => (d.writeRescue .done).pointLegacyLink .stable .done

/-- One run of the script: the files it leaves and what it starts; nothing is its exit
    with status 127. -/
def boot (d : Disk Bytes) : Disk Bytes × Option Target :=
  let restored := restore P d
  match choose P restored (excluded d) with
  | some t => (mark restored t, some t)
  | none => (restored, none)

def runnable (d : Disk Bytes) : Target → Bool
  | .slot s => runnableSlot P d s
  | .stable => runnableStable P d

/-! ## What a boot does -/

@[simp] theorem markedSlot_markerText (s : Slot) : markedSlot (some (Disk.markerText s)) = some s := by
  cases s <;> rfl

@[simp] theorem markedSlot_rescueText : markedSlot (some Disk.rescueText) = none := by decide

theorem markedSlot_pendingText (c p : Slot) (v : List Char) : markedSlot (some (Disk.pendingText c p v)) = some c := by
  simp only [markedSlot, Option.bind_some, (line_pendingText c p v).1]
  cases c <;> rfl

variable {d : Disk Bytes}

theorem recordedPrevious_pendingText {c p : Slot} {v : List Char}
    (h : d.pending = some (Disk.pendingText c p v)) : recordedPrevious d = some p := by
  simp only [recordedPrevious, h, Option.bind_some, (line_pendingText c p v).2]
  cases p <;> rfl

/-- Nothing a boot writes is what runnability is judged by. -/
theorem runnable_of_same {d e : Disk Bytes} (hs : e.slot = d.slot) (ht : e.stable = d.stable)
    (hb : e.blocked = d.blocked) (t : Target) : runnable P e t = runnable P d t := by
  cases t <;> simp only [runnable, runnableSlot, runnableStable, hs, ht, hb]

theorem restore_same (d : Disk Bytes) :
    (restore P d).slot = d.slot ∧ (restore P d).stable = d.stable ∧ (restore P d).blocked = d.blocked ∧
      (restore P d).pending = none := by
  unfold restore
  cases recordedPrevious d with
  | none => exact ⟨rfl, rfl, rfl, rfl⟩
  | some p => by_cases hr : runnableSlot P d p <;> simp [hr, Disk.writeActive, Io.effect]

theorem mark_same (d : Disk Bytes) (t : Target) :
    (mark d t).slot = d.slot ∧ (mark d t).stable = d.stable ∧ (mark d t).blocked = d.blocked ∧
      (mark d t).pending = d.pending := by
  cases t <;> exact ⟨rfl, rfl, rfl, rfl⟩

theorem runnable_restore (d : Disk Bytes) (t : Target) : runnable P (restore P d) t = runnable P d t :=
  runnable_of_same P (restore_same P d).1 (restore_same P d).2.1 (restore_same P d).2.2.1 t

/-- The text of the active marker for what runs. -/
def markerOf : Target → List Char
  | .slot s => Disk.markerText s
  | .stable => Disk.rescueText

theorem mark_active (d : Disk Bytes) (t : Target) : (mark d t).active = some (markerOf t) := by cases t <;> rfl

/-- A recorded previous slot that runs is made active again; otherwise the marker stays. -/
theorem restore_active (d : Disk Bytes) :
    (∃ p, recordedPrevious d = some p ∧ runnableSlot P d p ∧ (restore P d).active = some (Disk.markerText p)) ∨
      (∀ p, recordedPrevious d = some p → runnableSlot P d p = false) ∧ (restore P d).active = d.active := by
  unfold restore
  cases hr : recordedPrevious d with
  | none => exact .inr ⟨by simp, rfl⟩
  | some p =>
    by_cases hp : runnableSlot P d p
    · exact .inl ⟨p, rfl, hp, by simp [hp, Disk.writeActive, Io.effect]⟩
    · refine .inr ⟨fun q hq => ?_, by simp [hp]⟩
      obtain rfl := Option.some.inj hq
      simpa using hp

/-- What the fallback finds is runnable and not the excluded slot. -/
theorem fallback_some {x : Option Slot} {t : Target} (h : fallback P d x = some t) :
    runnable P d t ∧ ∀ s, t = .slot s → x ≠ some s := by
  unfold fallback at h
  split at h
  · next ha =>
    obtain rfl := Option.some.inj h
    simp only [Bool.and_eq_true, bne_iff_ne, ne_eq] at ha
    exact ⟨ha.2, fun s hs => by cases hs; exact ha.1⟩
  · split at h
    · next hb =>
      obtain rfl := Option.some.inj h
      simp only [Bool.and_eq_true, bne_iff_ne, ne_eq] at hb
      exact ⟨hb.2, fun s hs => by cases hs; exact hb.1⟩
    · split at h
      · next hst =>
        obtain rfl := Option.some.inj h
        exact ⟨hst, fun s hs => by cases hs⟩
      · cases h

theorem fallback_none {x : Option Slot} (h : fallback P d x = none) (t : Target)
    (hx : ∀ s, t = .slot s → x ≠ some s) : runnable P d t = false := by
  unfold fallback at h
  split at h
  · cases h
  · next ha =>
    split at h
    · cases h
    · next hb =>
      split at h
      · cases h
      · next hst =>
        cases t with
        | stable => simpa [runnable] using hst
        | slot s => cases s <;> simp_all [runnable]

theorem choose_some {x : Option Slot} {t : Target} (h : choose P d x = some t) : runnable P d t := by
  unfold choose at h
  split at h
  · next s _ =>
    by_cases hs : runnableSlot P d s
    · rw [if_pos hs] at h
      obtain rfl := Option.some.inj h
      exact hs
    · rw [if_neg hs] at h
      exact (fallback_some P h).1
  · exact (fallback_some P h).1

/-- All a boot does: the marker is gone, nothing else that decides what runs has changed,
    and what it starts runs and is what the active marker then says. -/
theorem boot_spec (d : Disk Bytes) :
    (boot P d).2 = choose P (restore P d) (excluded d) ∧
      ((boot P d).1.slot = d.slot ∧ (boot P d).1.stable = d.stable ∧ (boot P d).1.blocked = d.blocked ∧
        (boot P d).1.pending = none) ∧
      (∀ t, (boot P d).2 = some t →
        runnable P d t ∧ (boot P d).1.active = some (markerOf t) ∧ (boot P d).1.legacyLink = some t) ∧
      ((boot P d).2 = none → (boot P d).1.active = (restore P d).active) := by
  obtain ⟨h1, h2, h3, h4⟩ := restore_same P d
  unfold boot
  dsimp only
  cases hc : choose P (restore P d) (excluded d) with
  | none => exact ⟨rfl, ⟨h1, h2, h3, h4⟩, fun t ht => (by cases ht), fun _ => rfl⟩
  | some t =>
    obtain ⟨m1, m2, m3, m4⟩ := mark_same (restore P d) t
    refine ⟨rfl, ⟨m1.trans h1, m2.trans h2, m3.trans h3, m4.trans h4⟩, fun u hu => ?_, fun h => by cases h⟩
    obtain rfl := Option.some.inj hu
    refine ⟨?_, mark_active _ t, by cases t <;> rfl⟩
    rw [← runnable_restore]
    exact choose_some P hc

/-- A recorded previous slot that runs is started. -/
theorem boot_previous {p : Slot} (hp : recordedPrevious d = some p) (hr : runnableSlot P d p) :
    (boot P d).2 = some (.slot p) := by
  rw [(boot_spec P d).1]
  rcases restore_active P d with ⟨q, hq, -, ha⟩ | ⟨hn, -⟩
  · obtain rfl := Option.some.inj (hp.symm.trans hq)
    have hr' : runnableSlot P (restore P d) p := (runnable_restore P d (.slot p)).trans hr
    simp [choose, ha, hr']
  · simp [hn p hp] at hr

/-- Else the slot the active marker names is, if it runs. -/
theorem boot_marked {s : Slot} (hp : ∀ p, recordedPrevious d = some p → runnableSlot P d p = false)
    (hm : markedSlot d.active = some s) (hr : runnableSlot P d s) : (boot P d).2 = some (.slot s) := by
  rw [(boot_spec P d).1]
  rcases restore_active P d with ⟨q, hq, hqr, -⟩ | ⟨-, ha⟩
  · simp [hp q hq] at hqr
  · have hr' : runnableSlot P (restore P d) s := (runnable_restore P d (.slot s)).trans hr
    simp [choose, ha, hm, hr']

/-- Else it falls back, in its fixed order. -/
theorem boot_fallback (hp : ∀ p, recordedPrevious d = some p → runnableSlot P d p = false)
    (hm : ∀ s, markedSlot d.active = some s → runnableSlot P d s = false) :
    (boot P d).2 = fallback P (restore P d) (excluded d) := by
  rw [(boot_spec P d).1]
  rcases restore_active P d with ⟨q, hq, hqr, -⟩ | ⟨-, ha⟩
  · simp [hp q hq] at hqr
  · unfold choose
    rw [ha]
    split
    · next s hs =>
      have hr' : runnableSlot P (restore P d) s = false := (runnable_restore P d (.slot s)).trans (hm s hs)
      simp [hr']
    · rfl

/-- Nothing starts only where nothing but the excluded candidate runs. -/
theorem boot_none (h : (boot P d).2 = none) (t : Target) (hx : ∀ s, t = .slot s → excluded d ≠ some s) :
    runnable P d t = false := by
  rw [(boot_spec P d).1] at h
  rw [← runnable_restore]
  unfold choose at h
  split at h
  · split at h
    · cases h
    · exact fallback_none P h t hx
  · exact fallback_none P h t hx

end Supervisor

end OpenU60.Ota
