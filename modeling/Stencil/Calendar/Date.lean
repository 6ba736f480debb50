/-! Days of the Gregorian calendar, reckoned backwards and forwards without end, and their count
from 1970-01-01. The year of the reckoning starts in March, so that a leap day comes last. -/

namespace Stencil.Calendar

structure Date where
  year : Int
  month : Nat
  day : Nat
  deriving DecidableEq, Repr

def isLeap (year : Int) : Bool := year % 4 == 0 && (year % 100 != 0 || year % 400 == 0)

def monthLength (year : Int) (month : Nat) : Nat :=
  if month == 2 then if isLeap year then 29 else 28
  else if month == 4 || month == 6 || month == 9 || month == 11 then 30
  else 31

namespace Date

/-- The years that dates can have. -/
def minYear : Int := -262143

def maxYear : Int := 262142

/-- the date, if there is such a day -/
def ofParts? (year : Int) (month day : Nat) : Option Date :=
  if minYear ≤ year && year ≤ maxYear && 1 ≤ month && month ≤ 12 && 1 ≤ day &&
      day ≤ monthLength year month then
    some ⟨year, month, day⟩
  else none

/-- days from 0000-03-01 to 1970-01-01 -/
def epoch : Int := 719468

/-- the number of days since 1970-01-01 -/
def toDays (d : Date) : Int :=
  let year := if d.month ≤ 2 then d.year - 1 else d.year
  let month : Int := if d.month ≤ 2 then d.month + 9 else d.month - 3
  365 * year + year / 4 - year / 100 + year / 400 + (153 * month + 2) / 5 + d.day - 1 - epoch

/-- The date so many days after 1970-01-01: whole cycles of 400 years, then centuries, spans of four
years, years, months and days are taken off. The last century of a cycle and the last year of a span
are the long ones. -/
def ofDays (days : Int) : Date :=
  let cycle := (days + epoch) / 146097
  let inCycle := ((days + epoch) % 146097).toNat
  let century := min (inCycle / 36524) 3
  let inCentury := inCycle - 36524 * century
  let span := inCentury / 1461
  let inSpan := inCentury - 1461 * span
  let yearOfSpan := min (inSpan / 365) 3
  let inYear := inSpan - 365 * yearOfSpan
  let month := (5 * inYear + 2) / 153
  let year := 400 * cycle + 100 * century + 4 * span + yearOfSpan
  ⟨if month < 10 then year else year + 1, if month < 10 then month + 3 else month - 9,
    inYear - (153 * month + 2) / 5 + 1⟩

/-- the day of the week, 0 for Sunday -/
def weekday (d : Date) : Nat := ((d.toDays + 4) % 7).toNat

/-- the day of the week, 1 for Monday to 7 for Sunday -/
def isoWeekday (d : Date) : Nat := if d.weekday == 0 then 7 else d.weekday

/-- the day of the year, from 1 -/
def ordinal (d : Date) : Nat := (d.toDays - toDays ⟨d.year, 1, 1⟩ + 1).toNat

def quarter (d : Date) : Nat := (d.month + 2) / 3

/-- the week of the year, the first one starting at the first Sunday -/
def weekFromSunday (d : Date) : Nat := (d.ordinal + 6 - d.weekday) / 7

/-- the week of the year, the first one starting at the first Monday -/
def weekFromMonday (d : Date) : Nat := (d.ordinal + 7 - d.isoWeekday) / 7

/-- The year and number of the week. A week belongs to the year of its Thursday. -/
def isoWeek (d : Date) : Int × Nat :=
  let thursday := ofDays (d.toDays - d.isoWeekday + 4)
  (thursday.year, (thursday.ordinal + 6) / 7)

end Date

end Stencil.Calendar
