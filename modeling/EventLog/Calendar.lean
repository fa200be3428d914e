/-!
# The calendar

Dates of the proleptic Gregorian calendar, year 0 and negative years included.  `Date.IsReal` says
that the month has the day; `Date.dayNumber` counts days from 1970-01-01.
-/

namespace EventLog

/-- A day given by year, month and day of the month. -/
structure Date where
  year : Int
  month : Nat
  day : Nat
deriving Repr, DecidableEq

namespace Date

/-- Whether a year has a 29 February. -/
def isLeapYear (year : Int) : Bool :=
  year % 4 == 0 && (year % 100 != 0 || year % 400 == 0)

/-- The number of days of a month; months are counted from 1. -/
def daysInMonth (year : Int) : Nat → Nat
  | 1 | 3 | 5 | 7 | 8 | 10 | 12 => 31
  | 4 | 6 | 9 | 11              => 30
  | 2                           => if isLeapYear year then 29 else 28
  | _                           => 0

/-- The year has this month and the month this day. -/
def IsReal (d : Date) : Prop :=
  1 ≤ d.month ∧ d.month ≤ 12 ∧ 1 ≤ d.day ∧ d.day ≤ daysInMonth d.year d.month

instance (d : Date) : Decidable d.IsReal := by unfold IsReal; infer_instance

/-- The days of a year before a month begins. -/
def daysBeforeMonth (year : Int) : Nat → Nat
  | 0         => 0
  | month + 1 => daysBeforeMonth year month + daysInMonth year month

/-- The days before a year begins, counted from the first day of year 1. -/
def daysBeforeYear (year : Int) : Int :=
  let y := year - 1
  365 * y + y / 4 - y / 100 + y / 400

/-- The number of days from 1970-01-01, negative before it. -/
def dayNumber (d : Date) : Int :=
  daysBeforeYear d.year + daysBeforeMonth d.year d.month + d.day - 719163

/-- The first day that a date and time may fall on. -/
def first : Date := ⟨-262143, 1, 1⟩

/-- The last day that a date and time may fall on. -/
def last : Date := ⟨262142, 12, 31⟩

/-- A real date within the bounds. -/
def IsSupported (d : Date) : Prop :=
  d.IsReal ∧ first.year ≤ d.year ∧ d.year ≤ last.year

instance (d : Date) : Decidable d.IsSupported := by unfold IsSupported; infer_instance

end Date

end EventLog
