import Stencil.Calendar.Fields

/-! The two forms in which times are exchanged: stamps as in `2024-03-05T14:30:00.5+01:00` and
headers of mail as in `Tue, 5 Mar 2024 14:30:00 +0100`. -/

namespace Stencil.Calendar

open Text (isBlank trimStart)

def readMark? (c : Char) (cs : List Char) : Option (List Char) := readChar? (· == c) cs

/-- A stamp. Its fields have all their digits; only the fraction may be missing. -/
def stamp? (cs : List Char) : Option Instant := do
  let (year, cs) ← readNat? 4 4 cs
  let cs ← readMark? '-' cs
  let (month, cs) ← readNat? 2 2 cs
  let cs ← readMark? '-' cs
  let (day, cs) ← readNat? 2 2 cs
  let cs ← readChar? (fun c => c == 'T' || c == 't' || c == ' ') cs
  let (hour, cs) ← readNat? 2 2 cs
  let cs ← readMark? ':' cs
  let (minute, cs) ← readNat? 2 2 cs
  let cs ← readMark? ':' cs
  let (second, cs) ← readNat? 2 2 cs
  let (fraction, cs) ← match cs with
    | '.' :: cs => readFraction? cs
    | cs => some (0, cs)
  let (offset, cs) ← match cs with
    | 'Z' :: cs => some (0, cs)
    | 'z' :: cs => some (0, cs)
    | cs => readOffset? (readMark? ':') ['-', '\u2212'] cs
  if cs.isEmpty then
    Fields.toInstant? { year, month, day, hour, minute, second, fraction, offset }
  else none

def namedZones : List (String × Int) :=
  [("gmt", 0), ("ut", 0), ("z", 0), ("edt", -4), ("est", -5), ("cdt", -5), ("cst", -6),
    ("mdt", -6), ("mst", -7), ("pdt", -7), ("pst", -8)]

/-- A zone of mail: a name, a letter other than j, which says nothing, or an offset. -/
def readZone? (cs : List Char) : Option (Int × List Char) :=
  let name := cs.takeWhile Char.isAlpha
  let rest := cs.drop name.length
  let lower := String.ofList (name.map Char.toLower)
  if name.isEmpty then readOffset? some ['-'] cs
  else match namedZones.lookup lower with
    | some hours => some (3600 * hours, rest)
    | none => if name.length == 1 && lower != "j" then some (0, rest) else none

/-- What follows the parenthesis that closes a comment with so many open. A backslash takes the
character behind it out of the count. -/
def afterComment? : Nat → List Char → Option (List Char)
  | _, [] => none
  | depth, '\\' :: _ :: cs => afterComment? depth cs
  | depth, '(' :: cs => afterComment? (depth + 1) cs
  | depth, ')' :: cs => if depth == 1 then some cs else afterComment? (depth - 1) cs
  | depth, _ :: cs => afterComment? depth cs

theorem length_afterComment? {depth : Nat} {cs rest : List Char}
    (h : afterComment? depth cs = some rest) : rest.length < cs.length := by
  fun_induction afterComment? depth cs with
  | case1 => simp at h
  | case2 _ _ _ ih => have := ih h; simp only [List.length_cons]; omega
  | case3 _ _ ih => have := ih h; simp only [List.length_cons]; omega
  | case4 => simp_all
  | case5 _ _ _ ih => have := ih h; simp only [List.length_cons]; omega
  | case6 _ _ _ _ _ _ ih => have := ih h; simp only [List.length_cons]; omega

def readComment? (cs : List Char) : Option (List Char) :=
  match trimStart cs with
  | '(' :: rest => afterComment? 1 rest
  | _ => none

theorem length_readComment? {cs rest : List Char} (h : readComment? cs = some rest) :
    rest.length < cs.length := by
  have ht := Text.length_trimStart_le cs
  rw [readComment?] at h
  split at h
  · rename_i heq
    have := length_afterComment? h
    rw [heq, List.length_cons] at ht
    omega
  · simp at h

def skipComments (cs : List Char) : List Char :=
  match _h : readComment? cs with
  | some rest => skipComments rest
  | none => cs
termination_by cs.length
decreasing_by exact length_readComment? _h

/-- Years of two digits lie between 1950 and 2049, those of three count from 1900. -/
def fullYear (ds : List Char) : Int :=
  let n := Decimal.natOf ds
  if ds.length == 2 then (if n ≤ 49 then n + 2000 else n + 1900)
  else if ds.length == 3 then n + 1900
  else n

/-- A date and time as mail has them. Weekday and seconds may be missing, and comments may follow. -/
def mailDate? (cs : List Char) : Option Instant := do
  let (weekday, cs) ← match readWeekday? (trimStart cs) with
    | some (d, cs) => (readMark? ',' cs).map (some d, ·)
    | none => some (none, cs)
  let (day, cs) ← readNat? 1 2 (trimStart cs)
  let cs ← readBlanks? cs
  let (month, cs) ← readShortMonth? cs
  let cs ← readBlanks? cs
  let (digits, cs) ← readDigits? 2 cs.length cs
  let cs ← readBlanks? cs
  let (hour, cs) ← readNat? 2 2 cs
  let cs ← readMark? ':' (trimStart cs)
  let (minute, cs) ← readNat? 2 2 (trimStart cs)
  let (second, cs) ← match readMark? ':' (trimStart cs) with
    | some cs => readNat? 2 2 cs
    | none => some (0, cs)
  let cs ← readBlanks? cs
  let (offset, cs) ← readZone? cs
  if (skipComments cs).isEmpty then
    Fields.toInstant? { year := fullYear digits, month, day, weekday, hour, minute, second, offset }
  else none

end Stencil.Calendar
