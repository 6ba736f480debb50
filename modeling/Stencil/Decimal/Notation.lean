import Stencil.Decimal.Shortest

/-! How numbers are written: the two notations of floating-point numbers, and integers. -/

namespace Stencil.Decimal

/-- The decisions a notation makes. A decimal place outside `lowest` to `highest` is written with
an exponent. -/
structure Notation where
  tie : Tie
  lowest : Option Int
  highest : Option Int

/-- Numbers as templates show them: never an exponent. -/
def shown : Notation := ⟨.up, none, none⟩

/-- Doubles in JSON: an exponent from `1e+16` up and below `1e-5`. -/
def jsonDouble : Notation := ⟨.toEven, some (-5), some 15⟩

/-- Singles in JSON: an exponent from `1e+13` up and below `1e-6`. -/
def jsonSingle : Notation := ⟨.toEven, some (-6), some 12⟩

/-- digits around a point, with at least one on each side -/
def positional (d : Scaled) : List Char :=
  let ds := Nat.toDigits 10 d.digits
  if 0 ≤ d.exponent then ds ++ List.replicate d.exponent.toNat '0' ++ ['.', '0']
  else
    let places := (-d.exponent).toNat
    let padded := List.replicate (places + 1 - ds.length) '0' ++ ds
    padded.take (padded.length - places) ++ '.' :: padded.drop (padded.length - places)

/-- one digit, the others behind a point, and the place of the first with its sign -/
def scientific (d : Scaled) (place : Int) : List Char :=
  let exponent :=
    'e' :: (if place < 0 then '-' else '+') :: Nat.toDigits 10 place.natAbs
  match Nat.toDigits 10 d.digits with
  | [] => exponent
  | [c] => c :: exponent
  | c :: cs => c :: '.' :: cs ++ exponent

def Notation.write (n : Notation) (b : Binary) : List Char :=
  let d := shortest n.tie b
  let place : Int := (Nat.toDigits 10 d.digits).length - 1 + d.exponent
  if n.lowest.any (place < ·) || n.highest.any (· < place) then scientific d place
  else positional d

def signed (negative : Bool) (cs : List Char) : List Char := if negative then '-' :: cs else cs

def Notation.finite? (n : Notation) : Reading → Option String
  | .zero negative => some (.ofList (signed negative ['0', '.', '0']))
  | .finite negative b => some (.ofList (signed negative (n.write b)))
  | _ => none

/-- a double as templates show it: the fewest digits that read back -/
def ofDouble (x : Float) : String :=
  match Reading.ofDouble x with
  | .nan => "NaN"
  | .infinite negative => .ofList (signed negative "Infinity".toList)
  | r => (shown.finite? r).getD ""

def intDigits (n : Int) : List Char := signed (n < 0) (Nat.toDigits 10 n.natAbs)

def ofInt (n : Int) : String := .ofList (intDigits n)

end Stencil.Decimal
