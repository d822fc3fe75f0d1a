/-
Instants and calendar dates.

- `Instant`: seconds since the start of 1970 and nanoseconds, in universal time.
- `Date`: year, month and day; `Date.ofDayNumber` is the date of a day counted from the start of 1970.
- `dayOfYear`, `weekday`, `isoWeek`: the place of a date in its year and week.

Years are counted from March on, so that a leap day ends its year; 400 years have 146097 days.
-/
namespace GraphGen

/-- an instant in universal time; a leap second has a billion nanoseconds and more -/
structure Instant where
  seconds : Int
  nanoseconds : Nat
  deriving DecidableEq, Inhabited

/-- a date of the calendar -/
structure Date where
  year : Int
  month : Nat
  day : Nat
  deriving DecidableEq, Inhabited

/-- a week and the year that it belongs to -/
structure YearWeek where
  year : Int
  week : Nat
  deriving DecidableEq, Inhabited

/-- whether a year has a leap day -/
def isLeapYear (year : Int) : Bool :=
  year % 4 = 0 && (year % 100 ≠ 0 || year % 400 = 0)

/-- the number of the first day of a year, counted from the start of 1970 -/
def yearStart (year : Int) : Int :=
  let before := year - 1
  365 * before + before / 4 - before / 100 + before / 400 - 719162

/-- the days before the first day of a month -/
def monthStart (leap : Bool) (month : Nat) : Nat :=
  let plain := [0, 31, 59, 90, 120, 151, 181, 212, 243, 273, 304, 334].getD (month - 1) 0
  if leap && 2 < month then plain + 1 else plain

namespace Date

/-- the date of a day counted from the start of 1970 -/
def ofDayNumber (number : Int) : Date :=
  let shifted := number + 719468
  let era := shifted / 146097
  let dayOfEra := (shifted % 146097).toNat
  let yearOfEra := (dayOfEra - dayOfEra / 1460 + dayOfEra / 36524 - dayOfEra / 146096) / 365
  let dayFromMarch := dayOfEra - (365 * yearOfEra + yearOfEra / 4 - yearOfEra / 100)
  let monthFromMarch := (5 * dayFromMarch + 2) / 153
  let month := if monthFromMarch < 10 then monthFromMarch + 3 else monthFromMarch - 9
  let year := era * 400 + yearOfEra + (if month ≤ 2 then 1 else 0)
  ⟨year, month, dayFromMarch - (153 * monthFromMarch + 2) / 5 + 1⟩

/-- the place of a date in its year, from 1 on -/
def dayOfYear (date : Date) : Nat :=
  monthStart (isLeapYear date.year) date.month + date.day

/-- the number of a day, counted from the start of 1970 -/
def dayNumber (date : Date) : Int :=
  yearStart date.year + date.dayOfYear - 1

/-- the days since the last Sunday -/
def weekday (date : Date) : Nat :=
  ((date.dayNumber + 4) % 7).toNat

/-- the days since the last Monday -/
def weekdayFromMonday (date : Date) : Nat :=
  (date.weekday + 6) % 7

/-- the week of a date, where weeks begin on Monday and belong to the year of their Thursday -/
def isoWeek (date : Date) : YearWeek :=
  let thursday := ofDayNumber (date.dayNumber - date.weekdayFromMonday + 3)
  ⟨thursday.year, (thursday.dayOfYear - 1) / 7 + 1⟩

/-- the number of weeks that have begun in the year by a date, given the days since the last first day of a week -/
def weeksBegun (date : Date) (daysSinceStart : Nat) : Nat :=
  (date.dayOfYear + 6 - daysSinceStart) / 7

end Date

namespace Instant

/-- the date of an instant -/
def date (t : Instant) : Date :=
  Date.ofDayNumber (t.seconds / 86400)

/-- the seconds since midnight, without a leap second -/
def secondOfDay (t : Instant) : Nat :=
  (t.seconds % 86400).toNat

/-- the hour from 0 to 23 -/
def hour (t : Instant) : Nat :=
  t.secondOfDay / 3600

/-- the hour from 1 to 12 -/
def hour12 (t : Instant) : Nat :=
  (t.hour + 11) % 12 + 1

/-- the minute -/
def minute (t : Instant) : Nat :=
  t.secondOfDay / 60 % 60

/-- the second, which is 60 in a leap second -/
def second (t : Instant) : Nat :=
  t.secondOfDay % 60 + t.nanoseconds / 1000000000

/-- the nanoseconds within the second -/
def fraction (t : Instant) : Nat :=
  t.nanoseconds % 1000000000

end Instant

end GraphGen
