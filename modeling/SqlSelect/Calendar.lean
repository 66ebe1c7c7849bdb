import SqlSelect.Number.Numeral

/-!
Dates and times of day in the Gregorian calendar, extended to all years before and after its
introduction; the year before year 1 is year 0. A moment given in universal time is moved to the
local time of a fixed offset by counting seconds of the day and stepping over midnight day by day.

        universal 23:30:00  + 3600 s  ──▶  second 88200 of the day  ──▶  00:30:00 of the next date
-/

namespace SqlSelect

/-- A day of the calendar; months and days count from one. -/
structure Date where
  year : Int
  month : Nat
  day : Nat
  deriving DecidableEq

namespace Date

/-- Leap years: every fourth, but of the full centuries only every fourth. -/
def isLeapYear (year : Int) : Bool :=
  year % 4 = 0 && (year % 100 ≠ 0 || year % 400 = 0)

/-- The number of days of a month. -/
def daysInMonth (year : Int) (month : Nat) : Nat :=
  if month = 2 then (if isLeapYear year then 29 else 28)
  else if month = 4 ∨ month = 6 ∨ month = 9 ∨ month = 11 then 30
  else 31

/-- The day after. -/
def next (d : Date) : Date :=
  if d.day < daysInMonth d.year d.month then { d with day := d.day + 1 }
  else if d.month < 12 then ⟨d.year, d.month + 1, 1⟩
  else ⟨d.year + 1, 1, 1⟩

/-- The day before. -/
def previous (d : Date) : Date :=
  if 1 < d.day then { d with day := d.day - 1 }
  else if 1 < d.month then ⟨d.year, d.month - 1, daysInMonth d.year (d.month - 1)⟩
  else ⟨d.year - 1, 12, 31⟩

/-- The day `n` days later, or earlier if `n` is negative. -/
def addDays (d : Date) : Int → Date
  | .ofNat n => n.repeat next d
  | .negSucc n => (n + 1).repeat previous d

/-- The year with at least four digits; a minus sign stands before negative years and a plus sign
    before those after 9999. -/
def yearText (year : Int) : Text :=
  if year < 0 then '-' :: Numeral.padded 4 year.natAbs
  else if 9999 < year then '+' :: Numeral.padded 4 year.natAbs
  else Numeral.padded 4 year.natAbs

/-- Year, month and day with hyphens between them. -/
def text (d : Date) : Text :=
  yearText d.year ++ '-' :: Numeral.padded 2 d.month ++ '-' :: Numeral.padded 2 d.day

end Date

/-- A moment in a local calendar. A leap second is the fifty-ninth second of its minute with a
    thousand million nanoseconds or more. -/
structure Timestamp where
  date : Date
  hour : Nat := 0
  minute : Nat := 0
  second : Nat := 0
  nanosecond : Nat := 0
  deriving DecidableEq

namespace Timestamp

/-- The number of seconds since the midnight before. -/
def secondOfDay (t : Timestamp) : Nat :=
  t.hour * 3600 + t.minute * 60 + t.second

/-- The moment that many seconds later by the clock, or earlier if the number is negative. -/
def addSeconds (t : Timestamp) (seconds : Int) : Timestamp :=
  let total := t.secondOfDay + seconds
  let rest := (total % 86400).toNat
  { date := t.date.addDays (total / 86400)
    hour := rest / 3600
    minute := rest / 60 % 60
    second := rest % 60
    nanosecond := t.nanosecond }

/-- Date and time of day to the second; a leap second is second 60. -/
def text (t : Timestamp) : Text :=
  t.date.text ++ ' ' :: Numeral.padded 2 t.hour ++ ':' :: Numeral.padded 2 t.minute ++
    ':' :: Numeral.padded 2 (t.second + t.nanosecond / 1000000000)

end Timestamp

end SqlSelect
