import Extraction.Number.Decimal

/-!
Dates of the Gregorian calendar, carried back before its introduction, in the years 1 to 9999.
Days are counted from 1 March of the year 0, so that a leap day ends its year.
-/

namespace Extraction.Calendar

def isLeap (year : Nat) : Bool :=
  year % 4 == 0 && (year % 100 != 0 || year % 400 == 0)

def daysInMonth (year month : Nat) : Nat :=
  if month = 2 then (if isLeap year then 29 else 28)
  else if month = 4 || month = 6 || month = 9 || month = 11 then 30
  else 31

def IsDate (year month day : Nat) : Prop :=
  (1 ≤ year ∧ year ≤ 9999) ∧ (1 ≤ month ∧ month ≤ 12) ∧ 1 ≤ day ∧ day ≤ daysInMonth year month

instance (year month day : Nat) : Decidable (IsDate year month day) := by
  unfold IsDate; infer_instance

structure Date where
  year : Nat
  month : Nat
  day : Nat
  valid : IsDate year month day
deriving DecidableEq, Repr

namespace Date

def ofYmd? (year month day : Nat) : Option Date :=
  if h : IsDate year month day then some ⟨year, month, day, h⟩ else none

/-- The day number of the first of January of the year 1970. -/
def epoch : Nat := 719468

/-- The number of days since 1 March of the year 0; the date must be in the year 1 or later. -/
def dayNumberOf (year month day : Nat) : Nat :=
  let y := if month ≤ 2 then year - 1 else year
  let m := if month ≤ 2 then month + 9 else month - 3
  let ofEra := y % 400
  y / 400 * 146097 + (ofEra * 365 + ofEra / 4 - ofEra / 100 + ((153 * m + 2) / 5 + day - 1))

def dayNumber (d : Date) : Nat :=
  dayNumberOf d.year d.month d.day

/-- The date with a day number, if its year is in range. -/
def ofDayNumber? (n : Nat) : Option Date :=
  let dayOfEra := n % 146097
  let yearOfEra := (dayOfEra - dayOfEra / 1460 + dayOfEra / 36524 - dayOfEra / 146096) / 365
  let dayOfYear := dayOfEra - (365 * yearOfEra + yearOfEra / 4 - yearOfEra / 100)
  let m := (5 * dayOfYear + 2) / 153
  let month := if m < 10 then m + 3 else m - 9
  let year := n / 146097 * 400 + yearOfEra
  ofYmd? (if month ≤ 2 then year + 1 else year) month (dayOfYear - (153 * m + 2) / 5 + 1)

/-- The weekday of a day number, Monday being 0. -/
def weekday (n : Nat) : Nat :=
  (n + 2) % 7

/-- A year has 53 weeks if it starts on a Thursday, or on a Wednesday and is a leap year. -/
def weeksInYear (year : Nat) : Nat :=
  let first := weekday (dayNumberOf year 1 1)
  if first = 3 || (first = 2 && isLeap year) then 53 else 52

/-- The date of a weekday, Monday being 1, in a week of a year. The first week is the one that
holds the year's first Thursday. -/
def ofWeek? (year week day : Nat) : Option Date :=
  if 1 ≤ year && 1 ≤ week && week ≤ weeksInYear year && 1 ≤ day && day ≤ 7 then
    let first := dayNumberOf year 1 1
    let monday := if weekday first ≤ 3 then first - weekday first else first + 7 - weekday first
    ofDayNumber? (monday + 7 * (week - 1) + (day - 1))
  else none

/-- `YYYY-MM-DD`. -/
def isoChars (d : Date) : List Char :=
  Number.padded 4 d.year ++ '-' :: Number.padded 2 d.month ++ '-' :: Number.padded 2 d.day

def isoText (d : Date) : String :=
  String.ofList d.isoChars

end Date

end Extraction.Calendar
