/-
  OpenU60.Tls.Calendar — Gregorian dates (`zte-agent/src/calendar.rs`).

  Quotients round down: the ones that are not `div_euclid` in the source are of numbers that are not
  negative, for the months `civil` gives and those two digits can write.
  - `daysFromCivil_civil`: a day's date names the day.
  - `civil_bounds`: its month and day fit two digits.
  - `year_bounds`: a day between two New Year's days is in a year between.
-/

import Mathlib

namespace OpenU60.Tls.Calendar

/-- Days since 1970-01-01 of a civil date (proleptic Gregorian). -/
def daysFromCivil (y m d : Int) : Int :=
  let y := if m ≤ 2 then y - 1 else y
  let era := y / 400
  let yoe := y - era * 400
  let doy := (153 * ((m + 9) % 12) + 2) / 5 + d - 1
  era * 146097 + yoe * 365 + yoe / 4 - yoe / 100 + doy - 719468

/-- The civil date of a day count. -/
def civil (days : Int) : Int × Int × Int :=
  let z := days + 719468
  let era := z / 146097
  let doe := z - era * 146097
  let yoe := (doe - doe / 1460 + doe / 36524 - doe / 146096) / 365
  let doy := doe - (365 * yoe + yoe / 4 - yoe / 100)
  let mp := (5 * doy + 2) / 153
  let d := doy - (153 * mp + 2) / 5 + 1
  let m := if mp < 10 then mp + 3 else mp - 9
  (yoe + era * 400 + (if m ≤ 2 then 1 else 0), m, d)

/-! ## Within an era of 400 years, from March on -/

/-- The day of an era is in the year it is put into, and in no century but that. -/
theorem yearOfEra {doe yoe : Int} (hlow : 0 ≤ doe) (hhigh : doe < 146097)
    (hy : yoe = (doe - doe / 1460 + doe / 36524 - doe / 146096) / 365) :
    0 ≤ yoe ∧ yoe < 400 ∧ 0 ≤ doe - (365 * yoe + yoe / 4 - yoe / 100) ∧ doe - (365 * yoe + yoe / 4 - yoe / 100) < 366 := by
  by_cases hlast : doe = 146096
  · subst hlast
    subst hy
    decide
  · have hzero : doe / 146096 = 0 := by omega
    rw [hzero, Int.sub_zero] at hy
    have hcentury : doe / 36524 < 4 := by omega
    have hlowLeap : 25 * (doe / 36524) ≤ doe / 1460 := by omega
    have hhighLeap : doe / 1460 < 25 * (doe / 36524) + 26 := by omega
    have hcenturies : yoe / 100 = doe / 36524 := by omega
    have hleaps : yoe / 4 ≤ doe / 1460 := by omega
    have hleaps' : doe / 1460 ≤ yoe / 4 + 1 := by omega
    omega

/-- The year from March on has a 366th day only when its February is a leap year's. -/
theorem lastOfYear {doe yoe : Int} (hlow : 0 ≤ doe) (hhigh : doe < 146097)
    (hy : yoe = (doe - doe / 1460 + doe / 36524 - doe / 146096) / 365)
    (hlast : doe - (365 * yoe + yoe / 4 - yoe / 100) = 365) :
    (yoe + 1) % 4 = 0 ∧ ((yoe + 1) % 100 ≠ 0 ∨ (yoe + 1) % 400 = 0) := by
  by_cases hera : doe = 146096
  · subst hera
    subst hy
    decide
  · have hzero : doe / 146096 = 0 := by omega
    rw [hzero, Int.sub_zero] at hy
    have hcentury : doe / 36524 < 4 := by omega
    have hcenturies : yoe / 100 = doe / 36524 := by omega
    have hleaps : yoe / 4 < doe / 1460 := by omega
    have hfourth : (yoe + 1) % 4 = 0 := by
      obtain ⟨q, hq⟩ : ∃ q, q = yoe / 4 := ⟨_, rfl⟩
      have hfew : yoe < 400 := by omega
      have hlater : 1460 * (q + 1) ≤ doe := by omega
      by_contra hother
      have hbefore : yoe ≤ 4 * q + 2 := by omega
      omega
    refine ⟨hfourth, ?_⟩
    by_cases hwhole : (yoe + 1) % 100 = 0
    · -- the century would have one more day
      have hend : yoe = 100 * (doe / 36524) + 99 := by omega
      omega
    · exact Or.inl hwhole

/-- The day of a year is in the month it is put into. -/
theorem monthOfYear {doy mp : Int} (hlow : 0 ≤ doy) (hhigh : doy < 366) (hm : mp = (5 * doy + 2) / 153) :
    0 ≤ mp ∧ mp < 12 ∧ 1 ≤ doy - (153 * mp + 2) / 5 + 1 ∧ doy - (153 * mp + 2) / 5 + 1 ≤ 31 := by
  omega

/-! ## Dates -/

/-- A day, by its era, its year, its day of the year and its month, both from March on. -/
structure Parts (days era yoe doy mp : Int) : Prop where
  year : 0 ≤ yoe ∧ yoe < 400
  month : 0 ≤ mp ∧ mp < 12
  day : 1 ≤ doy - (153 * mp + 2) / 5 + 1 ∧ doy - (153 * mp + 2) / 5 + 1 ≤ 31
  count : days = era * 146097 + (365 * yoe + yoe / 4 - yoe / 100) + doy - 719468
  date : civil days = (yoe + era * 400 + (if (if mp < 10 then mp + 3 else mp - 9) ≤ 2 then 1 else 0), if mp < 10 then mp + 3 else mp - 9,
    doy - (153 * mp + 2) / 5 + 1)

/-- How a day of the year is placed: in its month, and as the 366th only after a leap year's February. -/
structure Placed (yoe doy mp : Int) : Prop where
  range : 0 ≤ doy ∧ doy < 366
  month : mp = (5 * doy + 2) / 153
  last : doy = 365 → (yoe + 1) % 4 = 0 ∧ ((yoe + 1) % 100 ≠ 0 ∨ (yoe + 1) % 400 = 0)

theorem civil_parts (days : Int) : ∃ era yoe doy mp, Parts days era yoe doy mp ∧ Placed yoe doy mp := by
  obtain ⟨era, hera⟩ : ∃ era, era = (days + 719468) / 146097 := ⟨_, rfl⟩
  obtain ⟨doe, hdoe⟩ : ∃ doe, doe = days + 719468 - era * 146097 := ⟨_, rfl⟩
  obtain ⟨yoe, hyoe⟩ : ∃ yoe, yoe = (doe - doe / 1460 + doe / 36524 - doe / 146096) / 365 := ⟨_, rfl⟩
  obtain ⟨doy, hdoy⟩ : ∃ doy, doy = doe - (365 * yoe + yoe / 4 - yoe / 100) := ⟨_, rfl⟩
  obtain ⟨mp, hmp⟩ : ∃ mp, mp = (5 * doy + 2) / 153 := ⟨_, rfl⟩
  have hyear := yearOfEra (by omega) (by omega) hyoe
  rw [← hdoy] at hyear
  have hmonth := monthOfYear hyear.2.2.1 hyear.2.2.2 hmp
  have hlast := lastOfYear (by omega) (by omega) hyoe
  rw [← hdoy] at hlast
  refine ⟨era, yoe, doy, mp, ⟨⟨hyear.1, hyear.2.1⟩, ⟨hmonth.1, hmonth.2.1⟩, hmonth.2.2, by omega, ?_⟩, hyear.2.2, hmp, hlast⟩
  unfold civil
  dsimp only
  rw [← hera, ← hdoe, ← hyoe, ← hdoy, ← hmp]

theorem civil_bounds (days : Int) : 1 ≤ (civil days).2.1 ∧ (civil days).2.1 ≤ 12 ∧ 1 ≤ (civil days).2.2 ∧ (civil days).2.2 ≤ 31 := by
  obtain ⟨era, yoe, doy, mp, h, -⟩ := civil_parts days
  have hmonth := h.month
  rw [h.date]
  refine ⟨?_, ?_, h.day⟩
  · dsimp only
    split <;> omega
  · dsimp only
    split <;> omega

/-- A day's date names the day. -/
theorem daysFromCivil_civil (days : Int) : daysFromCivil (civil days).1 (civil days).2.1 (civil days).2.2 = days := by
  obtain ⟨era, yoe, doy, mp, h, -⟩ := civil_parts days
  have hyear := h.year
  have hmonth := h.month
  have hdays := h.count
  rw [h.date]
  unfold daysFromCivil
  dsimp only
  by_cases hmarch : mp < 10
  · -- from March to December the year began before
    rw [if_pos hmarch, if_neg (by omega), if_neg (by omega)]
    omega
  · rw [if_neg hmarch, if_pos (by omega), if_pos (by omega)]
    omega

theorem newYear_eq (y : Int) : daysFromCivil y 1 1 = 365 * (y - 1) + (y - 1) / 4 - (y - 1) / 100 + (y - 1) / 400 - 719162 := by
  unfold daysFromCivil
  dsimp only
  rw [if_pos (by decide)]
  omega

theorem newYear_mono {a b : Int} (h : a ≤ b) : daysFromCivil a 1 1 ≤ daysFromCivil b 1 1 := by
  rw [newYear_eq, newYear_eq]
  omega

theorem mem_year (days : Int) : daysFromCivil (civil days).1 1 1 ≤ days ∧ days < daysFromCivil ((civil days).1 + 1) 1 1 := by
  obtain ⟨era, yoe, doy, mp, h, -⟩ := civil_parts days
  have hyear := h.year
  have hmonth := h.month
  have hday := h.day
  have hdays := h.count
  rw [h.date, newYear_eq, newYear_eq]
  dsimp only
  by_cases hmarch : mp < 10
  · rw [if_pos hmarch, if_neg (by omega)]
    omega
  · rw [if_neg hmarch, if_pos (by omega)]
    omega

/-- A day from one New Year's Day until another is in a year from the one until the other. -/
theorem year_bounds {days a b : Int} (hlow : daysFromCivil a 1 1 ≤ days) (hhigh : days < daysFromCivil b 1 1) :
    a ≤ (civil days).1 ∧ (civil days).1 < b := by
  obtain ⟨hfrom, huntil⟩ := mem_year days
  constructor
  · by_contra hbefore
    have hmono : daysFromCivil ((civil days).1 + 1) 1 1 ≤ daysFromCivil a 1 1 := newYear_mono (by omega)
    omega
  · by_contra hafter
    have hmono : daysFromCivil b 1 1 ≤ daysFromCivil (civil days).1 1 1 := newYear_mono (by omega)
    omega

end OpenU60.Tls.Calendar
