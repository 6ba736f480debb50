import Stencil.Condition.Basic
import Stencil.Expr.Eval

/-! Does a condition hold? -/

namespace Stencil

open Calendar (Instant)

/-- Equality is total; the other comparisons fail for values that have no order. -/
def Comparison.holds (op : Comparison) (a b : Value) : Bool :=
  match op with
  | eq => a == b
  | ne => !(a == b)
  | ge => a.partialOrder b == some .gt || a.partialOrder b == some .eq
  | le => a.partialOrder b == some .lt || a.partialOrder b == some .eq
  | gt => a.partialOrder b == some .gt
  | lt => a.partialOrder b == some .lt

def Clause.holds (now : Instant) (ctx : Context) : Clause → Bool
  | empty => false
  | contains l r => (l.eval now ctx).contains (r.eval now ctx)
  | compare op l r => op.holds (l.eval now ctx) (r.eval now ctx)
  | present e => (e.eval now ctx).isTrue

def Condition.holds (now : Instant) (ctx : Context) (c : Condition) : Bool :=
  c.alternatives.any fun clauses => clauses.all (·.holds now ctx)

end Stencil
