/-!
# The calendar

Days of the proleptic Gregorian calendar, counted from 1 March of the year 0, so that the leap day
is the last day of a year. `Date.toDays` and `Date.ofDays` convert between dates and day numbers.
-/

namespace CodeQuality.Time

/-- A date by year, month and day. -/
structure Date where
  year : Int
  month : Nat
  day : Nat
deriving DecidableEq

/-- Every fourth year has a leap day, except full centuries that are no multiple of four hundred. -/
def isLeap (year : Int) : Bool := year % 4 == 0 && (year % 100 != 0 || year % 400 == 0)

/-- The number of days of a month. -/
def daysInMonth (year : Int) (month : Nat) : Nat :=
  if month = 2 then (if isLeap year then 29 else 28)
  else if month = 4 ∨ month = 6 ∨ month = 9 ∨ month = 11 then 30
  else 31

namespace Date

/-- Whether the calendar has the date. -/
def valid (d : Date) : Bool :=
  1 ≤ d.month && d.month ≤ 12 && 1 ≤ d.day && d.day ≤ daysInMonth d.year d.month

/-- Days from 1 March of the year 0 to 1 January 1970. -/
def epoch : Int := 719468

/-- Days since 1 January 1970. -/
def toDays (d : Date) : Int :=
  let year := if d.month ≤ 2 then d.year - 1 else d.year
  let month : Int := ((d.month + 9) % 12 : Nat)
  365 * year + year / 4 - year / 100 + year / 400 + (153 * month + 2) / 5 + (d.day - 1) - epoch

/-- The date that lies `days` days after 1 January 1970. -/
def ofDays (days : Int) : Date :=
  let shifted := days + epoch
  let era := shifted / 146097
  let dayOfEra := shifted % 146097
  let yearOfEra := (dayOfEra - dayOfEra / 1460 + dayOfEra / 36524 - dayOfEra / 146096) / 365
  let dayOfYear := dayOfEra - (365 * yearOfEra + yearOfEra / 4 - yearOfEra / 100)
  let month := (5 * dayOfYear + 2) / 153
  let day := dayOfYear - (153 * month + 2) / 5 + 1
  let year := yearOfEra + 400 * era
  if month < 10 then ⟨year, (month + 3).toNat, day.toNat⟩
  else ⟨year + 1, (month - 9).toNat, day.toNat⟩

end Date

end CodeQuality.Time
