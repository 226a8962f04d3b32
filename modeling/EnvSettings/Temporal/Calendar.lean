namespace EnvSettings.Temporal

/-- The nanoseconds of a second. -/
def nanosPerSecond : Nat := 1000000000

/-- A date of the calendar. Year 0 is the year before year 1. -/
structure Date where
  year : Int
  month : Nat
  day : Nat
  deriving DecidableEq, Repr, Inhabited

/-- A time of day. Second 60 is a leap second. -/
structure Time where
  hour : Nat
  minute : Nat
  second : Nat
  nano : Nat
  deriving DecidableEq, Repr, Inhabited

/-- A date and a time of day without an offset. -/
structure Timestamp where
  date : Date
  time : Time
  deriving DecidableEq, Repr, Inhabited

/-- A timestamp with the minutes that its clock is ahead of universal time. -/
structure ZonedTimestamp where
  clock : Timestamp
  offset : Int
  deriving DecidableEq, Repr, Inhabited

/-- The leap years of the Gregorian calendar. -/
def isLeapYear (year : Int) : Bool :=
  year % 4 == 0 && (year % 100 != 0 || year % 400 == 0)

/-- The number of days of a month. -/
def daysInMonth (year : Int) (month : Nat) : Nat :=
  if month = 2 then if isLeapYear year then 29 else 28
  else if month = 4 ∨ month = 6 ∨ month = 9 ∨ month = 11 then 30
  else 31

/-- The first and the last year that a date can have. -/
def firstYear : Int := -262143

/-- The last year that a date can have. -/
def lastYear : Int := 262142

namespace Date

/-- Whether the calendar has the date. -/
def valid (d : Date) : Bool :=
  firstYear ≤ d.year && d.year ≤ lastYear && 1 ≤ d.month && d.month ≤ 12 && 1 ≤ d.day &&
    d.day ≤ daysInMonth d.year d.month

/-- The number of days from 1 March of year 0. Years are counted from March, so that the leap day
comes last. -/
def dayNumber (d : Date) : Int :=
  let year := if d.month ≤ 2 then d.year - 1 else d.year
  let month : Int := if d.month ≤ 2 then d.month + 9 else d.month - 3
  365 * year + year / 4 - year / 100 + year / 400 + (153 * month + 2) / 5 + d.day - 1

end Date

namespace Time

/-- The ranges of a time of day; the second may be a leap second. -/
def valid (t : Time) : Bool :=
  t.hour < 24 && t.minute < 60 && t.second ≤ 60 && t.nano < nanosPerSecond

/-- The first moment of a day. -/
def midnight : Time := ⟨0, 0, 0, 0⟩

/-- Seconds since midnight; a leap second counts with the second before it. -/
def secondOfDay (t : Time) : Nat :=
  3600 * t.hour + 60 * t.minute + Nat.min t.second 59

/-- Nanoseconds within the second; in a leap second they go on beyond a whole one. -/
def subsecond (t : Time) : Nat :=
  if t.second = 60 then t.nano + nanosPerSecond else t.nano

end Time

namespace ZonedTimestamp

/-- The instant in seconds of universal time, and the nanoseconds within. -/
def instant (z : ZonedTimestamp) : Int × Nat :=
  (86400 * z.clock.date.dayNumber + z.clock.time.secondOfDay - 60 * z.offset,
    z.clock.time.subsecond)

/-- Whether the date in universal time is one that a date can have. -/
def inRange (z : ZonedTimestamp) : Bool :=
  let day := z.instant.1 / 86400
  Date.dayNumber ⟨firstYear, 1, 1⟩ ≤ day && day ≤ Date.dayNumber ⟨lastYear, 12, 31⟩

/-- Zoned timestamps are the same when they denote the same instant, whatever their offsets. -/
def sameInstant (z z' : ZonedTimestamp) : Bool :=
  z.instant == z'.instant

end ZonedTimestamp

end EnvSettings.Temporal
