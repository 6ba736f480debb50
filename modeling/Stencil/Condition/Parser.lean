import Stencil.Condition.Basic
import Stencil.Expr.Parser

/-! Reading conditions. Every text is one: a clause without an operator asks for a value. -/

namespace Stencil

open Text (trim findTop? findKeyword? splitKeyword)

def Comparison.mark (op : Comparison) : List Char := op.symbol.toList

/-- Both sides of the first comparison in the order of search that the text has at the top level. -/
def Clause.splitComparison? (cs : List Char) : Option (Comparison × List Char × List Char) :=
  Comparison.all.findSome? fun op =>
    (findTop? op.mark cs).map fun (left, rest) => (op, left, rest.drop op.mark.length)

/-- A clause of a trimmed text. Membership goes before comparison. -/
def Clause.read (cs : List Char) : Clause :=
  if cs.isEmpty then empty
  else match findKeyword? "contains".toList cs with
  | some (left, rest) => contains (.read left) (.read (rest.drop "contains".length))
  | none => match splitComparison? cs with
  | some (op, left, right) => compare op (.read left) (.read right)
  | none => present (.read cs)

namespace Condition

/-- Cuts at every `or` and then at every `and`. -/
def read (cs : List Char) : Condition :=
  ⟨(splitKeyword "or".toList (trim cs)).map fun alternative =>
    (splitKeyword "and".toList (trim alternative)).map fun clause => .read (trim clause)⟩

def parse (s : String) : Condition := read s.toList

end Condition

end Stencil
