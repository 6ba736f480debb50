import Stencil.Calendar.Instant
import Stencil.Calendar.Pattern

/-! Writing points in time, by a pattern or as a stamp such as `2024-03-05T14:30:00+01:00`. -/

namespace Stencil.Calendar

def monthNames : List String :=
  ["January", "February", "March", "April", "May", "June", "July", "August", "September",
    "October", "November", "December"]

def weekdayNames : List String :=
  ["Sunday", "Monday", "Tuesday", "Wednesday", "Thursday", "Friday", "Saturday"]

/-- digits with `0`s in front, up to a width -/
def digitsTo (width n : Nat) : List Char :=
  let ds := Nat.toDigits 10 n
  List.replicate (width - ds.length) '0' ++ ds

/-- An integer with a sign if it is negative or `plus` is set. The width includes the sign; zeros go
behind the sign and spaces before it. -/
def writeInt (width : Nat) (pad : Pad) (plus : Bool) (n : Int) : List Char :=
  let sign := if n < 0 then ['-'] else if plus then ['+'] else []
  let ds := Nat.toDigits 10 n.natAbs
  match pad with
  | .none => sign ++ ds
  | .zero => sign ++ digitsTo (width - sign.length) n.natAbs
  | .space => List.replicate (width - (sign.length + ds.length)) ' ' ++ sign ++ ds

/-- Two places for a number below 256. From a hundred on the first place holds what follows `9` in
the character table. -/
def writePair (pad : Pad) (n : Nat) : List Char :=
  let ones := Char.ofNat ('0'.toNat + n % 10)
  match n / 10, pad with
  | 0, .none => [ones]
  | 0, .space => [' ', ones]
  | tens, _ => [Char.ofNat ('0'.toNat + tens), ones]

/-- Four places. Years that need more, and those before year 0, have a sign. -/
def writeYear (pad : Pad) (year : Int) : List Char :=
  if 0 ≤ year && year ≤ 9999 then writeInt 4 pad false year else writeInt 5 pad true year

def writeOffset (colons : Nat) (offset : Int) : List Char :=
  let size := offset.natAbs
  let sep := if colons == 0 then [] else [':']
  (if offset < 0 then '-' else '+') :: digitsTo 2 (size / 3600) ++ sep ++
    digitsTo 2 (size / 60 % 60) ++ (if 2 ≤ colons then ':' :: digitsTo 2 (size % 60) else [])

/-- a point and three, six or nine digits, nothing for none -/
def writeFraction (nanos : Nat) : List Char :=
  if nanos == 0 then []
  else if nanos % 1000000 == 0 then '.' :: digitsTo 3 (nanos / 1000000)
  else if nanos % 1000 == 0 then '.' :: digitsTo 6 (nanos / 1000)
  else '.' :: digitsTo 9 nanos

namespace Instant

/-- date, time and offset: the form in which stamps are exchanged -/
def stampChars (t : Instant) : List Char :=
  writeYear .zero t.date.year ++ '-' :: digitsTo 2 t.date.month ++ '-' :: digitsTo 2 t.date.day ++
    'T' :: digitsTo 2 t.hour ++ ':' :: digitsTo 2 t.minute ++ ':' :: digitsTo 2 t.second ++
    writeFraction t.fraction ++ writeOffset 1 t.offset

def stamp (t : Instant) : String := .ofList t.stampChars

def writeNumber (t : Instant) (pad : Pad) : NumberField → List Char
  | .year => writeYear pad t.date.year
  | .century => writePair pad (t.date.year / 100 % 256).toNat
  | .yearOfCentury => writePair pad (t.date.year % 100).toNat
  | .isoYear => writeYear pad t.date.isoWeek.1
  | .isoYearOfCentury => writePair pad (t.date.isoWeek.1 % 100).toNat
  | .quarter => Nat.toDigits 10 t.date.quarter
  | .month => writePair pad t.date.month
  | .day => writePair pad t.date.day
  | .weekFromSunday => writePair pad t.date.weekFromSunday
  | .weekFromMonday => writePair pad t.date.weekFromMonday
  | .isoWeek => writePair pad t.date.isoWeek.2
  | .weekday => Nat.toDigits 10 t.date.weekday
  | .isoWeekday => Nat.toDigits 10 t.date.isoWeekday
  | .ordinal => writeInt 3 pad false t.date.ordinal
  | .hour => writePair pad t.hour
  | .hour12 => writePair pad t.hour12
  | .minute => writePair pad t.minute
  | .second => writePair pad t.second
  | .nanosecond => writeInt 9 pad false t.fraction
  | .timestamp => writeInt 9 pad false t.seconds

def halfOfDay (t : Instant) : String := if t.hour < 12 then "AM" else "PM"

def writeText? (t : Instant) : TextField → Option (List Char)
  | .shortMonth => some ((monthNames.getD (t.date.month - 1) "").toList.take 3)
  | .longMonth => some (monthNames.getD (t.date.month - 1) "").toList
  | .shortWeekday => some ((weekdayNames.getD t.date.weekday "").toList.take 3)
  | .longWeekday => some (weekdayNames.getD t.date.weekday "").toList
  | .lowerHalf => some (t.halfOfDay.toList.map Char.toLower)
  | .upperHalf => some t.halfOfDay.toList
  | .fraction => some (writeFraction t.fraction)
  | .pointAnd n => some ('.' :: digitsTo n (t.fraction / Nat.pow 10 (9 - n)))
  | .fractionDigits n => some (digitsTo n (t.fraction / Nat.pow 10 (9 - n)))
  | .zoneName => some (writeOffset 1 t.offset)
  | .offset colons => some (writeOffset colons t.offset)
  | .offsetHours => some ((writeOffset 0 t.offset).take 3)
  | .offsetAny => none
  | .stamp => some t.stampChars

def writeItem? (t : Instant) : Item → Option (List Char)
  | .literal c => some [c]
  | .number f pad => some (t.writeNumber pad f)
  | .text f => t.writeText? f

/-- The time in a pattern, or as a stamp if an item of the pattern cannot be written. -/
def format (t : Instant) (pattern : String) : String :=
  match (Item.ofPattern pattern.toList).mapM t.writeItem? with
  | some parts => .ofList parts.flatten
  | none => t.stamp

end Instant

end Stencil.Calendar
