import Stencil.Calendar.Fields

/-! Layouts of written times: parts that follow each other. A layout fits a text if its parts read
it to the end. -/

namespace Stencil.Calendar

open Text (isBlank trimStart)

inductive Part where
  | year
  | month
  | monthName
  | day
  | hour
  | minute
  | second
  /-- a point and digits, or nothing -/
  | fraction
  /-- hours and minutes of an offset, with colons or blanks between or not -/
  | offset
  /-- any blanks, maybe none -/
  | gap
  | mark (c : Char)
  deriving DecidableEq, Repr

namespace Part

/-- Reads a part. Blanks may stand before a number. -/
def read? (f : Fields) (cs : List Char) : Part → Option (Fields × List Char)
  | year => (readYear? (trimStart cs)).map fun (n, rest) => ({ f with year := n }, rest)
  | month => (readNat? 1 2 (trimStart cs)).map fun (n, rest) => ({ f with month := n }, rest)
  | monthName => (readMonth? cs).map fun (n, rest) => ({ f with month := n }, rest)
  | day => (readNat? 1 2 (trimStart cs)).map fun (n, rest) => ({ f with day := n }, rest)
  | hour => (readNat? 1 2 (trimStart cs)).map fun (n, rest) => ({ f with hour := n }, rest)
  | minute => (readNat? 1 2 (trimStart cs)).map fun (n, rest) => ({ f with minute := n }, rest)
  | second => (readNat? 1 2 (trimStart cs)).map fun (n, rest) => ({ f with second := n }, rest)
  | fraction =>
    match cs with
    | '.' :: cs => (readFraction? cs).map fun (n, rest) => ({ f with fraction := n }, rest)
    | _ => some (f, cs)
  | offset =>
    (readOffset? (some <| ·.dropWhile fun c => c == ':' || isBlank c) ['-', '\u2212']
      (trimStart cs)).map fun (n, rest) => ({ f with offset := n }, rest)
  | gap => some (f, trimStart cs)
  | mark c => (readChar? (· == c) cs).map (f, ·)

def readAll? (parts : List Part) (f : Fields) (cs : List Char) : Option (Fields × List Char) :=
  parts.foldlM (fun (f, cs) part => part.read? f cs) (f, cs)

def instant? (parts : List Part) (cs : List Char) : Option Instant :=
  match readAll? parts {} cs with
  | some (f, []) => f.toInstant?
  | _ => none

def dashDate : List Part := [year, mark '-', month, mark '-', day]

def slashDate : List Part := [year, mark '/', month, mark '/', day]

def hourMinute : List Part := [hour, mark ':', minute]

def hourMinuteSecond : List Part := [hour, mark ':', minute, mark ':', second]

/-- times with an offset -/
def withOffset : List (List Part) :=
  [dashDate ++ [gap] ++ hourMinuteSecond ++ [fraction, gap, offset],
    dashDate ++ [gap] ++ hourMinute ++ [gap, offset],
    slashDate ++ [gap] ++ hourMinuteSecond ++ [gap, offset]]

/-- times without an offset: they are universal -/
def withoutOffset : List (List Part) :=
  [dashDate ++ [gap] ++ hourMinuteSecond ++ [fraction],
    dashDate ++ [mark 'T'] ++ hourMinuteSecond ++ [fraction],
    dashDate ++ [gap] ++ hourMinute,
    dashDate ++ [mark 'T'] ++ hourMinute,
    slashDate ++ [gap] ++ hourMinuteSecond,
    slashDate ++ [gap] ++ hourMinute]

/-- dates: they are the start of the day -/
def dates : List (List Part) :=
  [dashDate, slashDate, [monthName, gap, day, mark ',', gap, year],
    [day, gap, monthName, gap, year], [monthName, gap, day, gap, year]]

end Part

end Stencil.Calendar
