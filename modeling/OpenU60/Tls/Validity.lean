/-
  OpenU60.Tls.Validity — a certificate's dates (`zte-agent/src/tls/x509.rs`: `time`, `parse_time`).

  A UTCTime has two digits of the year, which the reader takes for 1950 to 2049; the writer uses it for
  exactly these.
  - `parse_time`: every time from 1950 to 9999 is read back.
-/

import OpenU60.Lib.Decimal
import OpenU60.Lib.Utf8
import OpenU60.Tls.Calendar
import OpenU60.Tls.Der

namespace OpenU60.Tls.Der

open OpenU60.Lib OpenU60.Lib.Decimal OpenU60.Lib.Utf8 OpenU60.Tls.Calendar

/-- UTCTime through 2049, GeneralizedTime after (RFC 5280 4.1.2.5). -/
def time (t : Int) : Bytes :=
  let days := t / 86400
  let s := t % 86400
  let (y, m, d) := civil days
  let hms := padded 2 (s / 3600) ++ padded 2 (s / 60 % 60) ++ padded 2 (s % 60) ++ ['Z']
  if 1950 ≤ y ∧ y < 2050 then tlv tagUtcTime (utf8 (padded 2 (y % 100) ++ padded 2 m ++ padded 2 d ++ hms))
  else tlv tagGenTime (utf8 (padded 4 y ++ padded 2 m ++ padded 2 d ++ hms))

/-- The year and what follows it. -/
def parseYear (tag : UInt8) (s : List Char) : Option (Int × List Char) :=
  if tag = tagUtcTime then
    (splitAtByte 2 s).bind fun (yy, rest) =>
      (parseSigned i64Max yy).map fun yy => (if yy < 50 then 2000 + yy else 1900 + yy, rest)
  else if tag = tagGenTime then (splitAtByte 4 s).bind fun (y, rest) => (parseSigned i64Max y).map (·, rest)
  else none

/-- The two digits at a place. -/
def twoDigits (rest : List Char) (i : Nat) : Option Int := parseSigned i64Max ((rest.drop i).take 2)

def parseTime (tag : UInt8) (s : Bytes) : Option Int := do
  let s ← fromUtf8 s
  if s.getLast? = some 'Z' then
    let (y, rest) ← parseYear tag s.dropLast
    if Text.byteLen rest = 10 ∧ rest.all Char.isDigit = true then
      let mo ← twoDigits rest 0
      let d ← twoDigits rest 2
      let h ← twoDigits rest 4
      let mi ← twoDigits rest 6
      let sec ← twoDigits rest 8
      some (daysFromCivil y mo d * 86400 + h * 3600 + mi * 60 + sec)
    else none
  else none

/-- A time in the years 1950 to 9999. -/
def InYears (t : Int) : Prop := daysFromCivil 1950 1 1 * 86400 ≤ t ∧ t < daysFromCivil 10000 1 1 * 86400

instance (t : Int) : Decidable (InYears t) := inferInstanceAs (Decidable (_ ∧ _))

variable {tag : UInt8} {y t : Int} {year : List Char}

/-! ## Reading -/

/-- Two digits for each of five numbers. -/
def fields (mo d h mi sec : Nat) : List Char :=
  padded 2 (mo : Int) ++ (padded 2 (d : Int) ++ (padded 2 (h : Int) ++ (padded 2 (mi : Int) ++ padded 2 (sec : Int))))

theorem twoDigits_first {n : Nat} (h : n < 100) (rest : List Char) : twoDigits (padded 2 (n : Int) ++ rest) 0 = some (n : Int) := by
  have hlen : (padded 2 (n : Int)).length = 2 := length_padded (by decide) h
  have hmax : n ≤ i64Max := Nat.le_trans (Nat.le_of_lt h) (by decide)
  rw [twoDigits, List.drop_zero, List.take_left' hlen]
  exact parse_padded hmax

theorem twoDigits_later {n : Nat} (h : n < 100) (rest : List Char) (i : Nat) :
    twoDigits (padded 2 (n : Int) ++ rest) (i + 2) = twoDigits rest i := by
  have hlen : (padded 2 (n : Int)).length = 2 := length_padded (by decide) h
  rw [twoDigits, Nat.add_comm, ← List.drop_drop, List.drop_left' hlen]
  rfl

theorem fields_digits (mo d h mi sec : Nat) : AllDigits (fields mo d h mi sec) := by
  intro c hc
  unfold fields at hc
  simp only [List.mem_append] at hc
  rcases hc with hc | hc | hc | hc | hc
  all_goals exact padded_digits 2 _ c hc

theorem parseTime_fields {mo d h mi sec : Nat}
    (hyear : parseYear tag (year ++ fields mo d h mi sec) = some (y, fields mo d h mi sec))
    (hmo : mo < 100) (hd : d < 100) (hh : h < 100) (hmi : mi < 100) (hsec : sec < 100) :
    parseTime tag (utf8 (year ++ fields mo d h mi sec ++ ['Z'])) =
      some (daysFromCivil y mo d * 86400 + h * 3600 + mi * 60 + sec) := by
  have hlen : ∀ n : Nat, n < 100 → (padded 2 (n : Int)).length = 2 := fun n hn => length_padded (by decide) hn
  have hten : Text.byteLen (fields mo d h mi sec) = 10 := by
    rw [byteLen_digits (fields_digits mo d h mi sec)]
    unfold fields
    simp only [List.length_append, hlen _ hmo, hlen _ hd, hlen _ hh, hlen _ hmi, hlen _ hsec]
  have hall : (fields mo d h mi sec).all Char.isDigit = true := List.all_eq_true.mpr (fields_digits mo d h mi sec)
  have h0 : twoDigits (fields mo d h mi sec) 0 = some (mo : Int) := twoDigits_first hmo _
  have h2 : twoDigits (fields mo d h mi sec) 2 = some (d : Int) := (twoDigits_later hmo _ 0).trans (twoDigits_first hd _)
  have h4 : twoDigits (fields mo d h mi sec) 4 = some (h : Int) :=
    (twoDigits_later hmo _ 2).trans ((twoDigits_later hd _ 0).trans (twoDigits_first hh _))
  have h6 : twoDigits (fields mo d h mi sec) 6 = some (mi : Int) :=
    (twoDigits_later hmo _ 4).trans ((twoDigits_later hd _ 2).trans ((twoDigits_later hh _ 0).trans (twoDigits_first hmi _)))
  have h8 : twoDigits (fields mo d h mi sec) 8 = some (sec : Int) := by
    unfold fields
    rw [twoDigits_later hmo _ 6, twoDigits_later hd _ 4, twoDigits_later hh _ 2, twoDigits_later hmi _ 0, ← List.append_nil (padded 2 (sec : Int))]
    exact twoDigits_first hsec _
  unfold parseTime
  simp only [fromUtf8_utf8, Option.bind_eq_bind, Option.bind_some, List.getLast?_concat, List.dropLast_concat, hyear, hten, hall,
    and_self, if_true, h0, h2, h4, h6, h8]

/-! ## Round trip -/

theorem splitAtByte_padded {width n : Nat} (hwidth : 0 < width) (h : n < 10 ^ width) (rest : List Char) :
    splitAtByte width (padded width (n : Int) ++ rest) = some (padded width (n : Int), rest) := by
  have hlen : Text.byteLen (padded width (n : Int)) = width := by rw [byteLen_digits (padded_digits width n), length_padded hwidth h]
  have hsplit := splitAtByte_append (padded width (n : Int)) rest
  rwa [hlen] at hsplit

/-- Two digits are read as a year from 1950 to 2049. -/
theorem parseYear_utc {n : Nat} (hlow : 1950 ≤ n) (hhigh : n < 2050) (rest : List Char) :
    parseYear tagUtcTime (padded 2 ((n % 100 : Nat) : Int) ++ rest) = some ((n : Int), rest) := by
  have hfits : n % 100 < 10 ^ 2 := Nat.mod_lt n (by decide)
  have hmax : n % 100 ≤ i64Max := Nat.le_trans (Nat.le_of_lt hfits) (by decide)
  have hyear : (if ((n % 100 : Nat) : Int) < 50 then 2000 + ((n % 100 : Nat) : Int) else 1900 + ((n % 100 : Nat) : Int)) = (n : Int) := by
    split <;> omega
  rw [parseYear, if_pos rfl, splitAtByte_padded (by decide) hfits, Option.bind_some]
  dsimp only
  rw [parse_padded hmax, Option.map_some, hyear]

theorem parseYear_gen {n : Nat} (h : n < 10000) (rest : List Char) :
    parseYear tagGenTime (padded 4 (n : Int) ++ rest) = some ((n : Int), rest) := by
  have hmax : n ≤ i64Max := Nat.le_trans (Nat.le_of_lt h) (by decide)
  rw [parseYear, if_neg (by decide), if_pos rfl, splitAtByte_padded (by decide) h, Option.bind_some]
  dsimp only
  rw [parse_padded hmax]
  rfl

/-- A time in the years is read back from what the writer makes of it. -/
theorem parse_time (h : InYears t) : ∃ tag content, time t = tlv tag content ∧ parseTime tag content = some t := by
  obtain ⟨days, hdays⟩ : ∃ days, days = t / 86400 := ⟨_, rfl⟩
  obtain ⟨s, hs⟩ : ∃ s : Nat, (s : Int) = t % 86400 := ⟨(t % 86400).toNat, by omega⟩
  obtain ⟨y, mo, d, hcivil, hyear, hmo, hd⟩ : ∃ y mo d : Nat, civil days = ((y : Int), (mo : Int), (d : Int)) ∧
      (1950 ≤ y ∧ y < 10000) ∧ mo < 100 ∧ d < 100 := by
    have hyears : 1950 ≤ (civil days).1 ∧ (civil days).1 < 10000 := by
      obtain ⟨hlow, hhigh⟩ := h
      exact year_bounds (by omega) (by omega)
    obtain ⟨hm1, hm12, hd1, hd31⟩ := civil_bounds days
    refine ⟨(civil days).1.toNat, (civil days).2.1.toNat, (civil days).2.2.toNat, ?_, by omega, by omega, by omega⟩
    refine Prod.ext ?_ (Prod.ext ?_ ?_)
    · show (civil days).1 = ((civil days).1.toNat : Int)
      omega
    · show (civil days).2.1 = ((civil days).2.1.toNat : Int)
      omega
    · show (civil days).2.2 = ((civil days).2.2.toNat : Int)
      omega
  have hvalue : daysFromCivil y mo d * 86400 + ((s / 3600 : Nat) : Int) * 3600 + ((s / 60 % 60 : Nat) : Int) * 60 + ((s % 60 : Nat) : Int) = t := by
    have hday := daysFromCivil_civil days
    rw [hcivil] at hday
    dsimp only at hday
    rw [hday]
    omega
  have htime : time t =
      if 1950 ≤ (y : Int) ∧ (y : Int) < 2050 then
        tlv tagUtcTime (utf8 (padded 2 ((y % 100 : Nat) : Int) ++ fields mo d (s / 3600) (s / 60 % 60) (s % 60) ++ ['Z']))
      else tlv tagGenTime (utf8 (padded 4 (y : Int) ++ fields mo d (s / 3600) (s / 60 % 60) (s % 60) ++ ['Z'])) := by
    unfold time fields
    simp only [← hdays, ← hs, hcivil, List.append_assoc]
    rfl
  by_cases hutc : y < 2050
  · refine ⟨_, _, htime.trans (if_pos (by omega)), ?_⟩
    rw [parseTime_fields (parseYear_utc hyear.1 hutc _) hmo hd (by omega) (by omega) (by omega), hvalue]
  · refine ⟨_, _, htime.trans (if_neg (by omega)), ?_⟩
    rw [parseTime_fields (parseYear_gen hyear.2 _) hmo hd (by omega) (by omega) (by omega), hvalue]

end OpenU60.Tls.Der
