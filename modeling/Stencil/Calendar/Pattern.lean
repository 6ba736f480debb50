/-! Patterns for writing times: text with directives that start with a percent sign. -/

namespace Stencil.Calendar

inductive Pad where
  | none
  | zero
  | space
  deriving DecidableEq, Repr

inductive NumberField where
  | year
  | century
  | yearOfCentury
  | isoYear
  | isoYearOfCentury
  | quarter
  | month
  | day
  | weekFromSunday
  | weekFromMonday
  | isoWeek
  | weekday
  | isoWeekday
  | ordinal
  | hour
  | hour12
  | minute
  | second
  | nanosecond
  | timestamp
  deriving DecidableEq, Repr

inductive TextField where
  | shortMonth
  | longMonth
  | shortWeekday
  | longWeekday
  | lowerHalf
  | upperHalf
  /-- a point and as many groups of three digits as it takes, nothing for a whole second -/
  | fraction
  /-- a point and so many digits -/
  | pointAnd (digits : Nat)
  | fractionDigits (digits : Nat)
  | zoneName
  /-- hours and minutes, with `colons` between them and, from two on, seconds -/
  | offset (colons : Nat)
  | offsetHours
  /-- an offset that is only for reading -/
  | offsetAny
  /-- date, time and offset as internet protocols write them -/
  | stamp
  deriving DecidableEq, Repr

inductive Item where
  | literal (c : Char)
  | number (field : NumberField) (pad : Pad)
  | text (field : TextField)
  deriving DecidableEq, Repr

namespace Item

def zero (f : NumberField) : Item := number f .zero

def space (f : NumberField) : Item := number f .space

def plain (f : NumberField) : Item := number f .none

/-- month, day and year of the century between slashes -/
def slashDate : List Item :=
  [zero .month, literal '/', zero .day, literal '/', zero .yearOfCentury]

def hourMinute : List Item := [zero .hour, literal ':', zero .minute]

def hourMinuteSecond : List Item := hourMinute ++ [literal ':', zero .second]

/-- The items of a directive, and how many characters behind its letter belong to it. A directive
without a meaning has no items. -/
def ofLetter (letter : Char) (behind : List Char) : List Item × Nat :=
  match letter with
  | 'A' => ([text .longWeekday], 0)
  | 'B' => ([text .longMonth], 0)
  | 'C' => ([zero .century], 0)
  | 'D' => (slashDate, 0)
  | 'F' => ([zero .year, literal '-', zero .month, literal '-', zero .day], 0)
  | 'G' => ([zero .isoYear], 0)
  | 'H' => ([zero .hour], 0)
  | 'I' => ([zero .hour12], 0)
  | 'M' => ([zero .minute], 0)
  | 'P' => ([text .lowerHalf], 0)
  | 'R' => (hourMinute, 0)
  | 'S' => ([zero .second], 0)
  | 'T' => (hourMinuteSecond, 0)
  | 'U' => ([zero .weekFromSunday], 0)
  | 'V' => ([zero .isoWeek], 0)
  | 'W' => ([zero .weekFromMonday], 0)
  | 'X' => (hourMinuteSecond, 0)
  | 'Y' => ([zero .year], 0)
  | 'Z' => ([text .zoneName], 0)
  | 'a' => ([text .shortWeekday], 0)
  | 'b' => ([text .shortMonth], 0)
  | 'c' => ([text .shortWeekday, literal ' ', text .shortMonth, literal ' ', space .day,
      literal ' '] ++ hourMinuteSecond ++ [literal ' ', zero .year], 0)
  | 'd' => ([zero .day], 0)
  | 'e' => ([space .day], 0)
  | 'f' => ([zero .nanosecond], 0)
  | 'g' => ([zero .isoYearOfCentury], 0)
  | 'h' => ([text .shortMonth], 0)
  | 'j' => ([zero .ordinal], 0)
  | 'k' => ([space .hour], 0)
  | 'l' => ([space .hour12], 0)
  | 'm' => ([zero .month], 0)
  | 'n' => ([literal '\n'], 0)
  | 'p' => ([text .upperHalf], 0)
  | 'q' => ([plain .quarter], 0)
  | 'r' => ([zero .hour12, literal ':', zero .minute, literal ':', zero .second, literal ' ',
      text .upperHalf], 0)
  | 's' => ([plain .timestamp], 0)
  | 't' => ([literal '\t'], 0)
  | 'u' => ([plain .isoWeekday], 0)
  | 'v' => ([space .day, literal '-', text .shortMonth, literal '-', zero .year], 0)
  | 'w' => ([plain .weekday], 0)
  | 'x' => (slashDate, 0)
  | 'y' => ([zero .yearOfCentury], 0)
  | 'z' => ([text (.offset 0)], 0)
  | '+' => ([text .stamp], 0)
  | '%' => ([literal '%'], 0)
  | ':' => match behind with
    | ':' :: ':' :: 'z' :: _ => ([text .offsetHours], 3)
    | ':' :: 'z' :: _ => ([text (.offset 2)], 2)
    | 'z' :: _ => ([text (.offset 1)], 1)
    | _ => ([], 0)
  | '.' => match behind with
    | 'f' :: _ => ([text .fraction], 1)
    | '3' :: rest => afterDigit 3 rest
    | '6' :: rest => afterDigit 6 rest
    | '9' :: rest => afterDigit 9 rest
    | _ => ([], 1)
  | '3' => digitsOnly 3
  | '6' => digitsOnly 6
  | '9' => digitsOnly 9
  | _ => ([], 0)
where
  afterDigit (n : Nat) (rest : List Char) : List Item × Nat :=
    (if rest.head? == some 'f' then [text (.pointAnd n)] else [], 2)
  digitsOnly (n : Nat) : List Item × Nat :=
    (if behind.head? == some 'f' then [text (.fractionDigits n)] else [], 1)

/-- Another padding for a directive that is one number. Of other directives the first item is lost,
for it takes no padding. -/
def repad (pad : Pad) : List Item → List Item
  | [number f _] => [number f pad]
  | items => items.drop 1

/-- The items of what follows a percent sign, and how many characters it takes. -/
def ofDirective : List Char → List Item × Nat
  | [] => ([], 0)
  | '#' :: cs => (if cs.head? == some 'z' then [text .offsetAny] else [], 2)
  | '-' :: cs => padded .none cs
  | '0' :: cs => padded .zero cs
  | '_' :: cs => padded .space cs
  | c :: cs =>
    let (items, n) := ofLetter c cs
    (items, n + 1)
where
  padded (pad : Pad) : List Char → List Item × Nat
    | [] => ([], 1)
    | c :: cs =>
      let (items, n) := ofLetter c cs
      (repad pad items, n + 2)

def ofPattern : List Char → List Item
  | [] => []
  | '%' :: cs =>
    let (items, n) := ofDirective cs
    items ++ ofPattern (cs.drop n)
  | c :: cs => literal c :: ofPattern cs
termination_by cs => cs.length
decreasing_by all_goals simp only [List.length_cons, List.length_drop]; omega

end Item

end Stencil.Calendar
