import Stencil.Decimal.Binary

/-! The fewest decimal digits that read back as a given binary number. Grids of powers of ten are
tried from a coarse one down: on each only the two neighbours of the number can be nearest, and the
first grid with a neighbour that rounds to the number wins. -/

namespace Stencil.Decimal

/-- `digits · 10 ^ exponent` -/
structure Scaled where
  digits : Nat
  exponent : Int
  deriving DecidableEq, Repr

/-- what to do when the two neighbours are equally near -/
inductive Tie where
  | up
  | toEven
  deriving DecidableEq, Repr

/-- A fraction of naturals, the common ground of the comparisons. -/
structure Ratio where
  num : Nat
  den : Nat

namespace Ratio

def scale (n base : Nat) (e : Int) : Ratio :=
  if 0 ≤ e then ⟨n * base.pow e.toNat, 1⟩ else ⟨n, base.pow (-e).toNat⟩

def lt (a b : Ratio) : Bool := a.num * b.den < b.num * a.den

def le (a b : Ratio) : Bool := a.num * b.den ≤ b.num * a.den

end Ratio

namespace Binary

/-- the number times four, so that half and quarter steps stay whole -/
def quarters (b : Binary) (offset : Int) : Ratio :=
  .scale (4 * b.significand + offset).toNat 2 (b.exponent - 2)

/-- Does a decimal round to the number? The ends of the interval do so for an even significand. -/
def covers (b : Binary) (d : Scaled) : Bool :=
  let x := Ratio.scale d.digits 10 d.exponent
  let low := b.quarters (if b.atStep then -1 else -2)
  let high := b.quarters 2
  if b.significand % 2 == 0 then low.le x && x.le high else low.lt x && x.lt high

/-- A place above the leading decimal digit, by less than four: `10 ^ b.above` exceeds the number.
A binary place is worth about 0.30103 decimal ones. -/
def above (b : Binary) : Int :=
  ((b.significand.log2 : Int) + b.exponent + 1) * 30103 / 100000 + 2

/-- the neighbour on the grid of multiples of `10 ^ e` that is nearer among those that round to
the number -/
def onGrid? (b : Binary) (tie : Tie) (e : Int) : Option Scaled :=
  let x := b.quarters 0
  let unit := Ratio.scale 1 10 e
  let below := x.num * unit.den / (x.den * unit.num)
  let down : Scaled := ⟨below, e⟩
  let up : Scaled := ⟨below + 1, e⟩
  match b.covers down, b.covers up with
  | false, false => none
  | true, false => some down
  | false, true => some up
  | true, true =>
    -- twice the number against the sum of both neighbours
    let twice : Ratio := ⟨2 * x.num, x.den⟩
    let middle := Ratio.scale (2 * below + 1) 10 e
    if twice.lt middle then some down
    else if middle.lt twice then some up
    else match tie with
      | .up => some up
      | .toEven => if below % 2 == 0 then some down else some up

/-- tries the grids of `count` more places from `e` down -/
def firstGrid (b : Binary) (tie : Tie) : Nat → Int → Scaled
  | 0, e => (b.onGrid? tie e).getD ⟨0, e⟩
  | n + 1, e => (b.onGrid? tie e).getD (firstGrid b tie n (e - 1))

end Binary

/-- takes `0`s off the end of the digits -/
def Scaled.strip : Nat → Scaled → Scaled
  | 0, d => d
  | n + 1, d => if d.digits % 10 == 0 then strip n ⟨d.digits / 10, d.exponent + 1⟩ else d

/-- The fewest digits that read back. Seventeen always do, and at most four of the grids are coarser
than the first digit. -/
def shortest (tie : Tie) (b : Binary) : Scaled :=
  (b.firstGrid tie 21 b.above).strip 20

end Stencil.Decimal
