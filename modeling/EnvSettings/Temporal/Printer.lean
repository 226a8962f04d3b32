import EnvSettings.Temporal.Calendar

namespace EnvSettings.Temporal

/-- A number with zeros in front up to a width. -/
def padded (width n : Nat) : List Char :=
  let digits := Nat.toDigits 10 n
  List.replicate (width - digits.length) '0' ++ digits

/-- A year of at least four digits. One of more digits, or before the year 0, carries a sign. -/
def printYear (year : Int) : List Char :=
  if 0 ≤ year ∧ year ≤ 9999 then padded 4 year.toNat
  else (if year < 0 then '-' else '+') :: padded 4 year.natAbs

/-- A fraction of a second with its point, of 3, 6 or 9 digits, as few as hold it; nothing for a
whole second. -/
def printFraction (nano : Nat) : List Char :=
  if nano = 0 then []
  else if nano % 1000000 = 0 then '.' :: padded 3 (nano / 1000000)
  else if nano % 1000 = 0 then '.' :: padded 6 (nano / 1000)
  else '.' :: padded 9 nano

/-- Year, month and day with hyphens between them. -/
def Date.print (d : Date) : List Char :=
  printYear d.year ++ '-' :: padded 2 d.month ++ '-' :: padded 2 d.day

/-- Hour, minute and second with colons between them, and the fraction of the second. -/
def Time.print (t : Time) : List Char :=
  padded 2 t.hour ++ ':' :: padded 2 t.minute ++ ':' :: padded 2 t.second ++ printFraction t.nano

/-- Date and time with a `T` between them. -/
def Timestamp.print (s : Timestamp) : List Char :=
  s.date.print ++ 'T' :: s.time.print

/-- An offset in hours and minutes with its sign. -/
def printOffset (offset : Int) : List Char :=
  (if offset < 0 then '-' else '+') :: padded 2 (offset.natAbs / 60) ++
    ':' :: padded 2 (offset.natAbs % 60)

/-- The local date and time, and the offset. -/
def ZonedTimestamp.print (z : ZonedTimestamp) : List Char :=
  z.clock.print ++ printOffset z.offset

end EnvSettings.Temporal
