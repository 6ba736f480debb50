import Stencil.Calendar.Format
import Stencil.Decimal.Numeral
import Stencil.Text.Blank

/-! Pieces that written times are read from: numbers of digits, names, marks and offsets. Each
reader takes what it knows off the front of a text. -/

namespace Stencil.Calendar

open Text (isBlank trimStart)

/-- what has been read of a time so far -/
structure Fields where
  year : Int := 0
  month : Nat := 0
  day : Nat := 0
  weekday : Option Nat := none
  hour : Nat := 0
  minute : Nat := 0
  second : Nat := 0
  fraction : Nat := 0
  offset : Int := 0

namespace Fields

/-- The point in time, if there is one. The sixtieth second is a leap second; a weekday has to be
the right one. -/
def toInstant? (f : Fields) : Option Instant := do
  let date ← Date.ofParts? f.year f.month f.day
  if f.weekday.any (· != date.weekday) then none
  if f.hour ≤ 23 && f.minute ≤ 59 && f.second ≤ 60 && f.offset.natAbs < 86400 then
    let leap := f.second == 60
    Instant.ofLocal? date (3600 * f.hour + 60 * f.minute + if leap then 59 else f.second)
      (f.fraction + if leap then 1000000000 else 0) f.offset
  else none

end Fields

/-- at least `least` and at most `most` digits -/
def readDigits? (least most : Nat) (cs : List Char) : Option (List Char × List Char) :=
  let ds := (cs.take most).takeWhile Char.isDigit
  if least ≤ ds.length then some (ds, cs.drop ds.length) else none

def readNat? (least most : Nat) (cs : List Char) : Option (Nat × List Char) :=
  (readDigits? least most cs).map fun (ds, rest) => (Decimal.natOf ds, rest)

def readChar? (p : Char → Bool) : List Char → Option (List Char)
  | c :: cs => if p c then some cs else none
  | [] => none

/-- at least one blank, and all that follow it -/
def readBlanks? (cs : List Char) : Option (List Char) :=
  if cs.head?.any isBlank then some (trimStart cs) else none

/-- Four digits at most, or after a sign as many as there are. -/
def readYear? : List Char → Option (Int × List Char)
  | '-' :: cs => (readNat? 1 cs.length cs).map fun (n, rest) => (-(n : Int), rest)
  | '+' :: cs => (readNat? 1 cs.length cs).map fun (n, rest) => ((n : Int), rest)
  | cs => (readNat? 1 4 cs).map fun (n, rest) => ((n : Int), rest)

/-- Digits of a fraction, as nanoseconds. Those after the ninth are passed over. -/
def readFraction? (cs : List Char) : Option (Nat × List Char) :=
  (readDigits? 1 9 cs).map fun (ds, rest) =>
    (Decimal.natOf ds * Nat.pow 10 (9 - ds.length), rest.dropWhile Char.isDigit)

/-- Is this name at the front, whatever the case of its letters? If so, what follows it. -/
def readName? (name : String) (cs : List Char) : Option (List Char) :=
  let name := name.toList.map Char.toLower
  if (cs.take name.length).map Char.toLower == name then some (cs.drop name.length) else none

/-- the first of some names that is at the front, by its number -/
def readNameOf? (names : List String) (cs : List Char) : Option (Nat × List Char) :=
  names.zipIdx.findSome? fun (name, i) => (readName? name cs).map (i, ·)

def shortNames (names : List String) : List String := names.map fun n => .ofList (n.toList.take 3)

/-- A month by its first three letters, as 1 to 12. -/
def readShortMonth? (cs : List Char) : Option (Nat × List Char) :=
  (readNameOf? (shortNames monthNames) cs).map fun (i, rest) => (i + 1, rest)

/-- A month by its first three letters or its whole name, as 1 to 12. -/
def readMonth? (cs : List Char) : Option (Nat × List Char) :=
  (readShortMonth? cs).map fun (month, rest) =>
    let tail := .ofList ((monthNames.getD (month - 1) "").toList.drop 3)
    (month, (readName? tail rest).getD rest)

def readWeekday? (cs : List Char) : Option (Nat × List Char) :=
  readNameOf? (shortNames weekdayNames) cs

/-- A sign, two digits of hours, what `between` takes off, and two digits of minutes. -/
def readOffset? (between : List Char → Option (List Char)) (signs : List Char) :
    List Char → Option (Int × List Char)
  | [] => none
  | sign :: cs => do
    if sign != '+' && !signs.contains sign then none
    let (hours, cs) ← readNat? 2 2 cs
    let cs ← between cs
    let (minutes, cs) ← readNat? 2 2 cs
    if 60 ≤ minutes then none
    let size : Int := 3600 * hours + 60 * minutes
    some (if sign == '+' then size else -size, cs)

end Stencil.Calendar
