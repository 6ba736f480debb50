/-! Reading numbers from ASCII digits. -/

namespace Stencil.Decimal

def isDigits (cs : List Char) : Bool := !cs.isEmpty && cs.all Char.isDigit

def natOf (cs : List Char) : Nat := Nat.ofDigitChars 10 cs 0

/-- Takes the minus sign off, if there is one. -/
def splitSign : List Char → Bool × List Char
  | '-' :: cs => (true, cs)
  | cs => (false, cs)

def applySign (negative : Bool) (n : Nat) : Int := if negative then -n else n

/-- the double nearest to `digits · 10 ^ -places`, a half going to the even one -/
def nearest (negative : Bool) (digits places : Nat) : Float :=
  let x := Float.ofScientific digits true places
  if negative then -x else x

/-- A number literal: whole, or with digits on both sides of a point. -/
inductive Numeral where
  | whole (n : Int)
  | real (x : Float)

def fitsInt64 (n : Int) : Bool := -Int.pow 2 63 ≤ n && n < Int.pow 2 63

/-- Reads a literal. A whole number outside the 64-bit range is real. -/
def Numeral.read? (cs : List Char) : Option Numeral :=
  let (negative, size) := splitSign cs
  if isDigits size then
    let n := applySign negative (natOf size)
    some (if fitsInt64 n then .whole n else .real (nearest negative (natOf size) 0))
  else
    let (before, rest) := size.span (· != '.')
    match rest with
    | [] => none
    | _ :: behind =>
      if isDigits before && isDigits behind then
        some (.real (nearest negative (natOf (before ++ behind)) behind.length))
      else none

end Stencil.Decimal
