import Posta.Js.Json

/-!
# JavaScript dates in UTC

A time value is a number of milliseconds since 1970-01-01; an invalid date has none.

**Calendar.** `daysBeforeYear`, `yearOfDay` and the month tables are the day and year functions
of ECMAScript. `civilOfDay` splits a day into year, month and date.

**Theorem (`dayOfCivil_civilOfDay`).** A day is recovered from its year, month and date, so two
days with the same civil date are one day.

**Text.** `isoInstant` reads the date-time form with the suffix `Z`; any number of fraction
digits is accepted and cut after the third.
-/

namespace Js

def msPerDay : Int := 86400000

/-- The UTC day of a time value. -/
def dayOfTime (t : Int) : Int := t / msPerDay

/-- `getUTCHours()`. -/
def hourOfTime (t : Int) : Nat := ((t % msPerDay) / 3600000).toNat

/-! ## Years -/

/-- Days from 1970-01-01 to the first day of the year. -/
def daysBeforeYear (y : Int) : Int :=
  365 * (y - 1970) + (y - 1969) / 4 - (y - 1901) / 100 + (y - 1601) / 400

def isLeapYear (y : Int) : Bool := y % 4 == 0 && (y % 100 != 0 || y % 400 == 0)

/-- The year a day falls in: the mean length of a year gives it up to one. -/
def yearOfDay (d : Int) : Int :=
  let y := 1970 + 400 * d / 146097
  if d < daysBeforeYear y then y - 1
  else if daysBeforeYear (y + 1) ≤ d then y + 1
  else y

theorem daysBeforeYear_succ (y : Int) :
    daysBeforeYear (y + 1) = daysBeforeYear y + if isLeapYear y then 366 else 365 := by
  unfold daysBeforeYear isLeapYear
  split
  · rename_i h
    simp only [Bool.and_eq_true, beq_iff_eq, Bool.or_eq_true, bne_iff_ne, ne_eq] at h
    omega
  · rename_i h
    simp only [Bool.and_eq_true, beq_iff_eq, Bool.or_eq_true, bne_iff_ne, ne_eq] at h
    omega

theorem yearOfDay_le (d : Int) : daysBeforeYear (yearOfDay d) ≤ d := by
  unfold yearOfDay
  dsimp only
  split_ifs with h₁ h₂
  · unfold daysBeforeYear at *
    omega
  · exact h₂
  · omega

theorem lt_yearOfDay_succ (d : Int) : d < daysBeforeYear (yearOfDay d + 1) := by
  unfold yearOfDay
  dsimp only
  split_ifs with h₁ h₂
  · rw [sub_add_cancel]
    exact h₁
  · unfold daysBeforeYear at *
    omega
  · omega

/-! ## Months -/

/-- Days of the year before a month, counted from 0. -/
def daysBeforeMonth (leap : Bool) (m : Nat) : Nat :=
  (([0, 31, 59, 90, 120, 151, 181, 212, 243, 273, 304, 334, 365] : List Nat).getD m 0) +
    if leap && 2 ≤ m then 1 else 0

def daysInMonth (leap : Bool) (m : Nat) : Nat :=
  daysBeforeMonth leap (m + 1) - daysBeforeMonth leap m

theorem daysInMonth_le (leap : Bool) : ∀ m < 12, daysInMonth leap m ≤ 31 := by
  cases leap <;> decide

/-- The month of a day of the year. -/
def monthOfYearDay (leap : Bool) (n : Nat) : Nat :=
  ((List.range 12).filter fun m => daysBeforeMonth leap m ≤ n).length - 1

theorem monthOfYearDay_spec (leap : Bool) : ∀ n < 366, (n < 365 ∨ leap = true) →
    monthOfYearDay leap n < 12 ∧ daysBeforeMonth leap (monthOfYearDay leap n) ≤ n ∧
      n < daysBeforeMonth leap (monthOfYearDay leap n + 1) := by
  cases leap <;> decide +kernel

/-! ## Civil dates -/

/-- A calendar date; the month is counted from 0, as `getUTCMonth()` does. -/
structure Civil where
  year : Int
  month : Nat
  date : Nat
deriving DecidableEq

/-- The civil date of a day. -/
def civilOfDay (d : Int) : Civil :=
  let year := yearOfDay d
  let n := (d - daysBeforeYear year).toNat
  let month := monthOfYearDay (isLeapYear year) n
  ⟨year, month, n - daysBeforeMonth (isLeapYear year) month + 1⟩

/-- `MakeDay`, for a month of the table. -/
def dayOfCivil (c : Civil) : Int :=
  daysBeforeYear c.year + daysBeforeMonth (isLeapYear c.year) c.month + c.date - 1

/-- The day of the year, and the month it falls in. -/
theorem civilOfDay_spec (d : Int) :
    (civilOfDay d).month < 12 ∧ 1 ≤ (civilOfDay d).date ∧ (civilOfDay d).date ≤ 31 ∧
      dayOfCivil (civilOfDay d) = d := by
  have hle := yearOfDay_le d
  have hlt := lt_yearOfDay_succ d
  rw [daysBeforeYear_succ] at hlt
  obtain ⟨n, hn⟩ : ∃ n : Nat, d = daysBeforeYear (yearOfDay d) + n :=
    ⟨(d - daysBeforeYear (yearOfDay d)).toNat, by omega⟩
  have hnn : (d - daysBeforeYear (yearOfDay d)).toNat = n := by omega
  have hbound : n < 366 ∧ (n < 365 ∨ isLeapYear (yearOfDay d) = true) := by
    by_cases hy : isLeapYear (yearOfDay d) = true
    · rw [if_pos hy] at hlt
      exact ⟨by omega, Or.inr hy⟩
    · rw [if_neg hy] at hlt
      exact ⟨by omega, Or.inl (by omega)⟩
  obtain ⟨hm, hlo, hhi⟩ := monthOfYearDay_spec (isLeapYear (yearOfDay d)) n hbound.1 hbound.2
  have hlen := daysInMonth_le (isLeapYear (yearOfDay d)) _ hm
  rw [daysInMonth] at hlen
  simp only [civilOfDay, dayOfCivil, hnn]
  omega

/-- **Theorem (`dayOfCivil_civilOfDay`).** -/
theorem dayOfCivil_civilOfDay (d : Int) : dayOfCivil (civilOfDay d) = d :=
  (civilOfDay_spec d).2.2.2

theorem civilOfDay_injective : Function.Injective civilOfDay := fun a b h => by
  rw [← dayOfCivil_civilOfDay a, h, dayOfCivil_civilOfDay]

theorem hourOfTime_lt (t : Int) : hourOfTime t < 24 := by
  unfold hourOfTime msPerDay
  omega

/-! ## Date-time text -/

/-- Exactly `n` digits. -/
def readDigits (n : Nat) (s : JsString) : Option (Nat × JsString) :=
  if n ≤ s.length ∧ (s.take n).all isDigit then some (natValue (s.take n), s.drop n) else none

/-- The fields of a UTC date-time; the month is counted from 1. -/
structure IsoFields where
  year : Nat
  month : Nat
  day : Nat
  hour : Nat
  minute : Nat
  second : Nat
  millisecond : Nat

namespace IsoFields

def civil (f : IsoFields) : Civil := ⟨f.year, f.month - 1, f.day⟩

/-- The day exists and the clock shows it. -/
def inRange (f : IsoFields) : Bool :=
  1 ≤ f.month && f.month ≤ 12 && 1 ≤ f.day &&
    f.day ≤ daysInMonth (isLeapYear f.year) (f.month - 1) &&
    f.hour ≤ 23 && f.minute ≤ 59 && f.second ≤ 59

/-- The time value. -/
def time (f : IsoFields) : Int :=
  dayOfCivil f.civil * msPerDay +
    (f.hour * 3600000 + f.minute * 60000 + f.second * 1000 + f.millisecond : Nat)

end IsoFields

/-- The optional fraction of a second, in milliseconds; further digits are dropped. -/
def readFraction (s : JsString) : Option (Nat × JsString) :=
  match expect (lit ".") s with
  | none => some (0, s)
  | some s =>
    if (takeDigits s).1 = [] then none
    else some (natValue (((takeDigits s).1 ++ lit "00").take 3), (takeDigits s).2)

/-- The optional seconds, with their optional fraction. -/
def readSeconds (s : JsString) : Option ((Nat × Nat) × JsString) :=
  match expect (lit ":") s with
  | none => some ((0, 0), s)
  | some s => do
    let (second, s) ← readDigits 2 s
    let (ms, s) ← readFraction s
    some ((second, ms), s)

/-- `YYYY-MM-DDTHH:MM[:SS[.s+]]Z`. -/
def isoFields (s : JsString) : Option IsoFields := do
  let (year, s) ← readDigits 4 s
  let (month, s) ← readDigits 2 (← expect (lit "-") s)
  let (day, s) ← readDigits 2 (← expect (lit "-") s)
  let (hour, s) ← readDigits 2 (← expect (lit "T") s)
  let (minute, s) ← readDigits 2 (← expect (lit ":") s)
  let ((second, ms), s) ← readSeconds s
  let f : IsoFields := ⟨year, month, day, hour, minute, second, ms⟩
  if s = lit "Z" ∧ f.inRange then some f else none

/-- The instant of a UTC date-time. -/
def isoInstant (s : JsString) : Option Int := (isoFields s).map IsoFields.time

/-- `new Date(s)`: the UTC date-time form, and `other` for every other text. -/
def parseDate (other : JsString → Option Int) (s : JsString) : Option Int :=
  (isoInstant s).or (other s)

theorem parseDate_of_isoInstant {other : JsString → Option Int} {s : JsString} {t : Int}
    (h : isoInstant s = some t) : parseDate other s = some t := by
  rw [parseDate, h]
  rfl

example : isoInstant (lit "2026-07-21T23:59:59.5Z") = some 1784678399500 := by decide
example : isoInstant (lit "2023-02-29T00:00:00Z") = none := by decide

/-! ## Writing a date -/

/-- The year of a date-time: four digits, or a sign and six. -/
def yearText (year : Int) : JsString :=
  if 0 ≤ year ∧ year ≤ 9999 then padStartZero 4 (natText year.toNat)
  else (if year < 0 then lit "-" else lit "+") ++ padStartZero 6 (natText year.natAbs)

/-- `toISOString()`. -/
def isoText (t : Int) : JsString :=
  let c := civilOfDay (dayOfTime t)
  let ms := (t % msPerDay).toNat
  let two := fun n => padStartZero 2 (natText n)
  yearText c.year ++ lit "-" ++ two (c.month + 1) ++ lit "-" ++ two c.date ++ lit "T" ++
    two (ms / 3600000) ++ lit ":" ++ two (ms / 60000 % 60) ++ lit ":" ++ two (ms / 1000 % 60) ++
    lit "." ++ padStartZero 3 (natText (ms % 1000)) ++ lit "Z"

example : isoText 1784678399500 = lit "2026-07-21T23:59:59.500Z" := by decide

end Js
