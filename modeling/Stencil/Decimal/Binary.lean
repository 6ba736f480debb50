/-! Positive binary numbers `significand · 2 ^ exponent` as the floating-point formats store them,
and the interval of reals that round to one. -/

namespace Stencil.Decimal

/-- A positive number of a binary format. `atStep` says that the next number below is only half as
far away as the next one above. -/
structure Binary where
  significand : Nat
  exponent : Int
  atStep : Bool
  deriving DecidableEq, Repr

inductive Reading where
  | nan
  | infinite (negative : Bool)
  | zero (negative : Bool)
  | finite (negative : Bool) (size : Binary)
  deriving DecidableEq, Repr

/-- Takes a bit pattern apart: a sign, `exponentBits` of biased exponent and `fractionBits` of
fraction. -/
def Reading.ofBits (exponentBits fractionBits : Nat) (bits : Nat) : Reading :=
  let fraction := bits % Nat.pow 2 fractionBits
  let biased := bits / Nat.pow 2 fractionBits % Nat.pow 2 exponentBits
  let negative := bits / Nat.pow 2 (fractionBits + exponentBits) % 2 == 1
  let bias : Int := Int.pow 2 (exponentBits - 1) - 1 + fractionBits
  if biased == Nat.pow 2 exponentBits - 1 then
    if fraction == 0 then .infinite negative else .nan
  else if biased == 0 then
    if fraction == 0 then .zero negative else .finite negative ⟨fraction, 1 - bias, false⟩
  else .finite negative ⟨Nat.pow 2 fractionBits + fraction, biased - bias, fraction == 0 && biased != 1⟩

def Reading.ofDouble (x : Float) : Reading := .ofBits 11 52 x.toBits.toNat

def Reading.ofSingle (x : Float32) : Reading := .ofBits 8 23 x.toBits.toNat

end Stencil.Decimal
