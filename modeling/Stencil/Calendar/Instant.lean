import Stencil.Calendar.Date

/-! Points in time, seen from an offset to universal time. -/

namespace Stencil.Calendar

/-- A point in time. `nanos` from a thousand million on lie in a leap second. -/
structure Instant where
  seconds : Int
  nanos : Nat
  offset : Int
  deriving DecidableEq, Repr

namespace Instant

/-- does the day of these universal seconds have a date? -/
def inRange (seconds : Int) : Bool :=
  Date.toDays ⟨Date.minYear, 1, 1⟩ ≤ seconds / 86400 &&
    seconds / 86400 ≤ Date.toDays ⟨Date.maxYear, 12, 31⟩

/-- Universal time. A leap second can only follow the last second of a minute. -/
def ofSeconds? (seconds : Int) (nanos : Nat) : Option Instant :=
  if inRange seconds && nanos < 2000000000 && (nanos < 1000000000 || seconds % 60 == 59) then
    some ⟨seconds, nanos, 0⟩
  else none

def ofLocal? (date : Date) (secondOfDay nanos : Nat) (offset : Int) : Option Instant :=
  let seconds := 86400 * date.toDays + secondOfDay - offset
  if inRange seconds then some ⟨seconds, nanos, offset⟩ else none

def localSeconds (t : Instant) : Int := t.seconds + t.offset

def date (t : Instant) : Date := .ofDays (t.localSeconds / 86400)

def secondOfDay (t : Instant) : Nat := (t.localSeconds % 86400).toNat

def hour (t : Instant) : Nat := t.secondOfDay / 3600

def hour12 (t : Instant) : Nat := if t.hour % 12 == 0 then 12 else t.hour % 12

def minute (t : Instant) : Nat := t.secondOfDay / 60 % 60

/-- the second, 60 in a leap second -/
def second (t : Instant) : Nat := t.secondOfDay % 60 + t.nanos / 1000000000

def fraction (t : Instant) : Nat := t.nanos % 1000000000

end Instant

end Stencil.Calendar
