/-
  OpenU60.Tls.Gregorian — the calendar that `civil` and `days_from_civil` count by
  (`zte-agent/src/calendar.rs`), and both as the agent is built, over 64 bits.

  The formulas count in eras of 400 years, from March on. `Valid` says what a date is without them.
  - `civil_valid`, `civil_day`: every day has a date, and every date is its day's.
  - `day_before`, `civil_before`: a later date is a later day, so days and dates come in one order.
  - `Build.civil_exact`, `Build.daysFromCivil_exact`: 64 bits hold every step for the days from
    `i64::MIN` to 719468 short of `i64::MAX`.

  Past them the first sum of `civil` overflows: `no_date_past_the_sum`.
-/

import Mathlib
import OpenU60.Tls.Calendar

namespace OpenU60.Tls.Calendar

/-! ## Dates -/

/-- A Gregorian leap year. -/
def Leap (y : Int) : Prop := y % 4 = 0 ∧ (y % 100 ≠ 0 ∨ y % 400 = 0)

instance (y : Int) : Decidable (Leap y) := inferInstanceAs (Decidable (_ ∧ _))

def monthDays (y m : Int) : Int :=
  if m = 2 then if Leap y then 29 else 28
  else if m = 4 ∨ m = 6 ∨ m = 9 ∨ m = 11 then 30
  else 31

structure Valid (date : Int × Int × Int) : Prop where
  month : 1 ≤ date.2.1 ∧ date.2.1 ≤ 12
  day : 1 ≤ date.2.2 ∧ date.2.2 ≤ monthDays date.1 date.2.1

/-- The order of dates: by year, then by month, then by day. -/
def Before (a b : Int × Int × Int) : Prop :=
  a.1 < b.1 ∨ a.1 = b.1 ∧ (a.2.1 < b.2.1 ∨ a.2.1 = b.2.1 ∧ a.2.2 < b.2.2)

instance (a b : Int × Int × Int) : Decidable (Before a b) := inferInstanceAs (Decidable (_ ∨ _))

theorem Before.total (a b : Int × Int × Int) : Before a b ∨ a = b ∨ Before b a := by
  obtain ⟨y, m, d⟩ := a
  obtain ⟨y', m', d'⟩ := b
  by_cases hsame : y = y' ∧ m = m' ∧ d = d'
  · obtain ⟨rfl, rfl, rfl⟩ := hsame
    exact Or.inr (Or.inl rfl)
  · unfold Before
    dsimp only
    omega

/-! ## Every day has a date -/

theorem civil_valid (days : Int) : Valid (civil days) := by
  obtain ⟨era, yoe, doy, mp, h, hplaced⟩ := civil_parts days
  have hbounds := civil_bounds days
  refine ⟨⟨hbounds.1, hbounds.2.1⟩, hbounds.2.2.1, ?_⟩
  have hyear := h.year
  have hrange := hplaced.range
  have hmonth := hplaced.month
  rw [h.date]
  unfold monthDays
  dsimp only
  by_cases hfeb : mp = 11
  · -- the month the year from March on ends with: its 29th is the 366th day
    have hsecond : (if mp < 10 then mp + 3 else mp - 9) = 2 := by
      rw [if_neg (by omega)]
      omega
    rw [hsecond, if_pos rfl]
    show _ ≤ if Leap (yoe + era * 400 + 1) then 29 else 28
    by_cases hleap : doy = 365
    · have hlast := hplaced.last hleap
      rw [if_pos (by unfold Leap; omega)]
      omega
    · split <;> omega
  · by_cases hmarch : mp < 10
    · rw [if_pos hmarch, if_neg (by omega)]
      split <;> omega
    · rw [if_neg hmarch, if_neg (by omega)]
      split <;> omega

/-! ## Dates and days come in one order -/

/-- The days of a year before a month. -/
def monthStart (y m : Int) : Int :=
  if m ≤ 2 then 31 * (m - 1) else (153 * (m - 3) + 2) / 5 + (if Leap y then 60 else 59)

theorem daysFromCivil_month {m : Int} (y d : Int) (hlow : 1 ≤ m) (hhigh : m ≤ 12) :
    daysFromCivil y m d = daysFromCivil y 1 1 + monthStart y m + d - 1 := by
  rw [newYear_eq]
  unfold daysFromCivil monthStart
  dsimp only
  by_cases hwinter : m ≤ 2
  · rw [if_pos hwinter, if_pos hwinter]
    omega
  · rw [if_neg hwinter, if_neg hwinter]
    have hmonths : (m + 9) % 12 = m - 3 := by omega
    rw [hmonths]
    by_cases hleap : Leap y
    · rw [if_pos hleap]
      unfold Leap at hleap
      omega
    · rw [if_neg hleap]
      unfold Leap at hleap
      omega

theorem monthStart_next {m : Int} (y : Int) (hlow : 1 ≤ m) (hhigh : m < 12) :
    monthStart y (m + 1) = monthStart y m + monthDays y m := by
  unfold monthStart monthDays
  by_cases hleap : Leap y
  · rw [if_pos hleap, if_pos hleap]
    interval_cases m <;> rfl
  · rw [if_neg hleap, if_neg hleap]
    interval_cases m <;> rfl

/-- A month ends where a later one begins or before. -/
theorem monthStart_later {m n : Int} (y : Int) (hlow : 1 ≤ m) (hhigh : n ≤ 12) (h : m < n) :
    monthStart y m + monthDays y m ≤ monthStart y n := by
  rw [← monthStart_next y hlow (by omega)]
  unfold monthStart
  have hleap : 59 ≤ if Leap y then (60 : Int) else 59 := by split <;> omega
  generalize (if Leap y then (60 : Int) else 59) = leap at hleap
  split <;> split <;> omega

theorem monthStart_year {m : Int} (y : Int) (hlow : 1 ≤ m) (hhigh : m ≤ 12) :
    0 ≤ monthStart y m ∧ monthStart y m + monthDays y m ≤ if Leap y then 366 else 365 := by
  unfold monthStart monthDays
  by_cases hleap : Leap y
  · rw [if_pos hleap, if_pos hleap, if_pos hleap]
    constructor <;> split <;> omega
  · rw [if_neg hleap, if_neg hleap, if_neg hleap]
    constructor <;> split <;> omega

theorem newYear_next (y : Int) : daysFromCivil (y + 1) 1 1 = daysFromCivil y 1 1 + if Leap y then 366 else 365 := by
  rw [newYear_eq, newYear_eq]
  by_cases hleap : Leap y
  · rw [if_pos hleap]
    unfold Leap at hleap
    omega
  · rw [if_neg hleap]
    unfold Leap at hleap
    omega

/-- A date is a day of its year. -/
theorem Valid.ofYear {y m d : Int} (h : Valid (y, m, d)) :
    daysFromCivil y 1 1 ≤ daysFromCivil y m d ∧ daysFromCivil y m d < daysFromCivil (y + 1) 1 1 := by
  obtain ⟨⟨hfirst, hlast⟩, hone, hdays⟩ := h
  dsimp only at hfirst hlast hone hdays
  have hyear := monthStart_year y hfirst hlast
  rw [newYear_next, daysFromCivil_month y d hfirst hlast]
  omega

/-- The day of a date. -/
def day (date : Int × Int × Int) : Int :=
  daysFromCivil date.1 date.2.1 date.2.2

/-- A later date is a later day. -/
theorem day_before {a b : Int × Int × Int} (ha : Valid a) (hb : Valid b) (h : Before a b) : day a < day b := by
  obtain ⟨y, m, d⟩ := a
  obtain ⟨y', m', d'⟩ := b
  unfold day
  dsimp only
  cases h with
  | inl hyear =>
    have hmono : daysFromCivil (y + 1) 1 1 ≤ daysFromCivil y' 1 1 := newYear_mono hyear
    have hends := ha.ofYear
    have hbegins := hb.ofYear
    omega
  | inr hrest =>
    obtain ⟨hyear, hrest⟩ := hrest
    dsimp only at hyear hrest
    subst hyear
    have hmonth := ha.month
    have hmonth' := hb.month
    have hday := ha.day
    have hday' := hb.day
    dsimp only at hmonth hmonth' hday hday'
    rw [daysFromCivil_month y d hmonth.1 hmonth.2, daysFromCivil_month y d' hmonth'.1 hmonth'.2]
    cases hrest with
    | inl hlater =>
      have hstart := monthStart_later y hmonth.1 hmonth'.2 hlater
      omega
    | inr hsame =>
      obtain ⟨hsame, hlater⟩ := hsame
      subst hsame
      omega

theorem day_civil (n : Int) : day (civil n) = n :=
  daysFromCivil_civil n

/-- Every date is its day's. -/
theorem civil_day {date : Int × Int × Int} (h : Valid date) : civil (day date) = date := by
  have hday := day_civil (day date)
  have hvalid := civil_valid (day date)
  obtain hbefore | hsame | hafter := Before.total (civil (day date)) date
  · have hless := day_before hvalid h hbefore
    omega
  · exact hsame
  · have hless := day_before h hvalid hafter
    omega

theorem civil_before {n k : Int} (h : n < k) : Before (civil n) (civil k) := by
  have hn := day_civil n
  have hk := day_civil k
  obtain hbefore | hsame | hafter := Before.total (civil n) (civil k)
  · exact hbefore
  · rw [hsame] at hn
    omega
  · have hless := day_before (civil_valid k) (civil_valid n) hafter
    omega

/-! ## Over 64 bits -/

def Fits (x : Int) : Prop := -9223372036854775808 ≤ x ∧ x ≤ 9223372036854775807

instance : DecidablePred Fits := fun _ => inferInstanceAs (Decidable (_ ∧ _))

/-- What a build of the agent makes of a result of `i64` arithmetic (`none`: it stops there). -/
structure Build where
  fit : Int → Option Int
  exact : ∀ x, Fits x → fit x = some x

/-- With overflow checks. -/
def Build.checked : Build where
  fit x := if Fits x then some x else none
  exact _ h := if_pos h

/-- Without them, as the agent is released. -/
def Build.wrapping : Build where
  fit x := some ((x + 9223372036854775808) % 18446744073709551616 - 9223372036854775808)
  exact x h := by
    unfold Fits at h
    congr 1
    omega

/-- `days_from_civil`, sum by sum. -/
def Build.daysFromCivil (b : Build) (y m d : Int) : Option Int := do
  let y ← b.fit (if m ≤ 2 then y - 1 else y)
  let era := y / 400
  let start ← b.fit (era * 400)
  let yoe ← b.fit (y - start)
  let months ← b.fit (m + 9)
  let doy ← b.fit (153 * months.tmod 12)
  let doy ← b.fit (doy + 2)
  let doy ← b.fit (doy.tdiv 5 + d)
  let doy ← b.fit (doy - 1)
  let days ← b.fit (era * 146097)
  let years ← b.fit (yoe * 365)
  let days ← b.fit (days + years)
  let days ← b.fit (days + yoe.tdiv 4)
  let days ← b.fit (days - yoe.tdiv 100)
  let days ← b.fit (days + doy)
  b.fit (days - 719468)

/-- `civil`, sum by sum. -/
def Build.civil (b : Build) (days : Int) : Option (Int × Int × Int) := do
  let z ← b.fit (days + 719468)
  let era := z / 146097
  let start ← b.fit (era * 146097)
  let doe ← b.fit (z - start)
  let whole ← b.fit (doe - doe.tdiv 1460)
  let whole ← b.fit (whole + doe.tdiv 36524)
  let whole ← b.fit (whole - doe.tdiv 146096)
  let yoe := whole.tdiv 365
  let past ← b.fit (365 * yoe)
  let past ← b.fit (past + yoe.tdiv 4)
  let past ← b.fit (past - yoe.tdiv 100)
  let doy ← b.fit (doe - past)
  let month ← b.fit (5 * doy)
  let month ← b.fit (month + 2)
  let mp := month.tdiv 153
  let before ← b.fit (153 * mp)
  let before ← b.fit (before + 2)
  let d ← b.fit (doy - before.tdiv 5)
  let d ← b.fit (d + 1)
  let m ← b.fit (if mp < 10 then mp + 3 else mp - 9)
  let y ← b.fit (era * 400)
  let y ← b.fit (yoe + y)
  let y ← b.fit (y + if m ≤ 2 then 1 else 0)
  some (y, m, d)

/-- The days whose first sum fits. -/
def Counted (n : Int) : Prop := -9223372036854775808 ≤ n ∧ n ≤ 9223372036854775807 - 719468

variable (b : Build)

theorem Build.then {α : Type} {x : Int} (f : Int → Option α) (hlow : -9223372036854775808 ≤ x) (hhigh : x ≤ 9223372036854775807) :
    (b.fit x >>= f) = f x := by
  rw [b.exact x ⟨hlow, hhigh⟩]
  rfl

/-- Division of numbers that are not negative. -/
theorem tdiv_pos {a : Int} (c : Int) (h : 0 ≤ a) : a.tdiv c = a / c :=
  Int.tdiv_eq_ediv_of_nonneg h

/-- No sum overflows for a day the first one holds. -/
theorem Build.civil_exact {n : Int} (h : Counted n) : b.civil n = some (Calendar.civil n) := by
  obtain ⟨hlow, hhigh⟩ := h
  obtain ⟨z, hz⟩ : ∃ z, z = n + 719468 := ⟨_, rfl⟩
  obtain ⟨era, hera⟩ : ∃ era, era = z / 146097 := ⟨_, rfl⟩
  obtain ⟨doe, hdoe⟩ : ∃ doe, doe = z - era * 146097 := ⟨_, rfl⟩
  obtain ⟨yoe, hyoe⟩ : ∃ yoe, yoe = (doe - doe / 1460 + doe / 36524 - doe / 146096) / 365 := ⟨_, rfl⟩
  obtain ⟨doy, hdoy⟩ : ∃ doy, doy = doe - (365 * yoe + yoe / 4 - yoe / 100) := ⟨_, rfl⟩
  obtain ⟨mp, hmp⟩ : ∃ mp, mp = (5 * doy + 2) / 153 := ⟨_, rfl⟩
  have hera' : 0 ≤ doe ∧ doe < 146097 := by omega
  have hyear := yearOfEra hera'.1 hera'.2 hyoe
  rw [← hdoy] at hyear
  have hmonth := monthOfYear hyear.2.2.1 hyear.2.2.2 hmp
  unfold Build.civil Calendar.civil
  dsimp only
  rw [b.then _ (by omega) (by omega), ← hz, ← hera, b.then _ (by omega) (by omega), b.then _ (by omega) (by omega), ← hdoe]
  -- the year of the era
  rw [tdiv_pos 1460 hera'.1, tdiv_pos 36524 hera'.1, tdiv_pos 146096 hera'.1]
  rw [b.then _ (by omega) (by omega), b.then _ (by omega) (by omega), b.then _ (by omega) (by omega)]
  rw [tdiv_pos 365 (by omega), ← hyoe]
  -- the day of the year
  rw [tdiv_pos 4 hyear.1, tdiv_pos 100 hyear.1]
  rw [b.then _ (by omega) (by omega), b.then _ (by omega) (by omega), b.then _ (by omega) (by omega), b.then _ (by omega) (by omega), ← hdoy]
  -- the month
  rw [b.then _ (by omega) (by omega), b.then _ (by omega) (by omega), tdiv_pos 153 (by omega), ← hmp]
  rw [b.then _ (by omega) (by omega), b.then _ (by omega) (by omega), tdiv_pos 5 (by omega)]
  rw [b.then _ (by omega) (by omega), b.then _ (by omega) (by omega)]
  obtain ⟨m, hmonths⟩ : ∃ m, m = if mp < 10 then mp + 3 else mp - 9 := ⟨_, rfl⟩
  have hcount : (if m ≤ 2 then (1 : Int) else 0) = 0 ∨ (if m ≤ 2 then (1 : Int) else 0) = 1 := by
    split
    · exact Or.inr rfl
    · exact Or.inl rfl
  rw [← hmonths, b.then _ (by split at hmonths <;> omega) (by split at hmonths <;> omega)]
  rw [b.then _ (by omega) (by omega), b.then _ (by omega) (by omega), b.then _ (by omega) (by omega)]

/-- Nor for a date of such a day. -/
theorem Build.daysFromCivil_exact {date : Int × Int × Int} (hvalid : Valid date) (h : Counted (day date)) :
    b.daysFromCivil date.1 date.2.1 date.2.2 = some (day date) := by
  obtain ⟨y, m, d⟩ := date
  obtain ⟨hlow, hhigh⟩ := h
  obtain ⟨⟨hmonth, hmonth'⟩, hday, hday'⟩ := hvalid
  dsimp only at hmonth hmonth' hday hday'
  have hlong : monthDays y m ≤ 31 := by
    unfold monthDays
    split
    · split <;> omega
    · split <;> omega
  unfold day Calendar.daysFromCivil at hlow hhigh
  unfold Build.daysFromCivil day Calendar.daysFromCivil
  dsimp only at hlow hhigh ⊢
  generalize (if m ≤ 2 then y - 1 else y) = year at hlow hhigh ⊢
  have hmonths : 0 ≤ m + 9 := by omega
  rw [b.then _ (by omega) (by omega)]
  obtain ⟨era, hera⟩ : ∃ era, era = year / 400 := ⟨_, rfl⟩
  rw [← hera] at hlow hhigh ⊢
  rw [b.then _ (by omega) (by omega), b.then _ (by omega) (by omega), b.then _ (by omega) (by omega)]
  obtain ⟨yoe, hyoe⟩ : ∃ yoe, yoe = year - era * 400 := ⟨_, rfl⟩
  rw [← hyoe] at hlow hhigh ⊢
  have hyear : 0 ≤ yoe ∧ yoe < 400 := by omega
  rw [Int.tmod_eq_emod_of_nonneg hmonths, tdiv_pos 4 hyear.1, tdiv_pos 100 hyear.1]
  rw [b.then _ (by omega) (by omega), b.then _ (by omega) (by omega), tdiv_pos 5 (by omega)]
  rw [b.then _ (by omega) (by omega), b.then _ (by omega) (by omega)]
  obtain ⟨doy, hdoy⟩ : ∃ doy, doy = (153 * ((m + 9) % 12) + 2) / 5 + d - 1 := ⟨_, rfl⟩
  rw [← hdoy] at hlow hhigh ⊢
  have hrange : 0 ≤ doy ∧ doy < 368 := by omega
  -- the days of the last era's years, before the centuries' are taken off
  have hlast : era * 146097 + yoe * 365 + yoe / 4 ≤ 9223372036854775807 := by
    by_cases hera' : era = 63131837319416
    · have hfew : yoe ≤ 154 := by omega
      omega
    · omega
  rw [b.then _ (by omega) (by omega), b.then _ (by omega) (by omega), b.then _ (by omega) (by omega)]
  rw [b.then _ (by omega) (by omega), b.then _ (by omega) (by omega), b.then _ (by omega) (by omega)]
  exact b.exact _ ⟨by omega, by omega⟩

/-- Days and dates name each other in one order, and every build computes them exactly for the days
    the first sum holds. -/
theorem gregorian_calendar (b : Build) :
    (∀ n, Valid (civil n) ∧ day (civil n) = n) ∧
    (∀ date, Valid date → civil (day date) = date) ∧
    (∀ n k, n < k → Before (civil n) (civil k)) ∧
    (∀ n, Counted n → b.civil n = some (civil n) ∧ b.daysFromCivil (civil n).1 (civil n).2.1 (civil n).2.2 = some n) ∧
    (∀ date, Valid date → Counted (day date) →
      b.daysFromCivil date.1 date.2.1 date.2.2 = some (day date) ∧ b.civil (day date) = some date) := by
  refine ⟨fun n => ⟨civil_valid n, day_civil n⟩, fun date h => civil_day h, fun n k h => civil_before h, ?_, ?_⟩
  · intro n hn
    have hday := day_civil n
    have hcounted : Counted (day (civil n)) := by
      rw [hday]
      exact hn
    have hback := b.daysFromCivil_exact (civil_valid n) hcounted
    rw [hday] at hback
    exact ⟨b.civil_exact hn, hback⟩
  · intro date hvalid hcounted
    refine ⟨b.daysFromCivil_exact hvalid hcounted, ?_⟩
    rw [b.civil_exact hcounted, civil_day hvalid]

theorem gregorian_leap_day : Build.wrapping.civil (day (-400, 2, 29)) = some (-400, 2, 29) :=
  ((gregorian_calendar Build.wrapping).2.2.2.2 (-400, 2, 29) ⟨by decide, by decide⟩ (by unfold Counted; decide)).2

/-- The last day of all has no date with overflow checks, and one before 1970 without. -/
theorem no_date_past_the_sum : Build.checked.civil 9223372036854775807 = none ∧
    ∃ date, Build.wrapping.civil 9223372036854775807 = some date ∧ Before date (civil 0) := by
  exact ⟨by decide, (-25252734927764585, 6, 6), by decide, by decide⟩

end OpenU60.Tls.Calendar
