import Stencil.Decimal.Numeral

/-! Reading floating-point numbers in any usual form: digits with a point in any place, an exponent,
and names for infinity and what is no number. -/

namespace Stencil.Decimal

/-- A number as written, before it is rounded to a format. -/
inductive Written where
  | nan
  | infinite
  | size (digits : Nat) (exponent : Int)

/-- The power of ten behind an `e`, which may have a sign. -/
def readExponent? : List Char → Option Int
  | [] => some 0
  | c :: cs =>
    let (negative, digits) := match cs with
      | '+' :: ds => (false, ds)
      | ds => splitSign ds
    if (c == 'e' || c == 'E') && isDigits digits then some (applySign negative (natOf digits))
    else none

def Written.read? (cs : List Char) : Option Written :=
  let lower := cs.map Char.toLower
  if lower == "nan".toList then some .nan
  else if lower == "inf".toList || lower == "infinity".toList then some .infinite
  else
    let before := cs.takeWhile Char.isDigit
    let rest := cs.drop before.length
    let (behind, rest) := match rest with
      | '.' :: rest => (rest.takeWhile Char.isDigit, rest.dropWhile Char.isDigit)
      | rest => ([], rest)
    if before.isEmpty && behind.isEmpty then none
    else (readExponent? rest).map fun e => .size (natOf (before ++ behind)) (e - behind.length)

/-- Takes a sign off and reads what it is the sign of. -/
def readSigned? (s : String) : Option (Bool × Written) :=
  let (negative, cs) := match s.toList with
    | '+' :: cs => (false, cs)
    | cs => splitSign cs
  (Written.read? cs).map (negative, ·)

def readDouble? (s : String) : Option Float :=
  (readSigned? s).map fun (negative, w) =>
    let x : Float := match w with
      | .nan => 0.0 / 0.0
      | .infinite => 1.0 / 0.0
      | .size n e => .ofScientific n (e < 0) e.natAbs
    if negative then -x else x

def readSingle? (s : String) : Option Float32 :=
  (readSigned? s).map fun (negative, w) =>
    let x : Float32 := match w with
      | .nan => 0.0 / 0.0
      | .infinite => 1.0 / 0.0
      | .size n e => .ofScientific n (e < 0) e.natAbs
    if negative then -x else x

end Stencil.Decimal
