import Stencil.Decimal.Notation
import Stencil.Text.Quoted
import Stencil.Value.Basic

/-! The text of a value: inspected, as it stands inside a collection, and shown, as a template puts
it out. -/

namespace Stencil.Value

mutual

/-- Texts are quoted and nil has a name. -/
def inspect : Value → String
  | nil => "nil"
  | bool b => if b then "true" else "false"
  | int n => Decimal.ofInt n.toInt
  | float x => Decimal.ofDouble x
  | text s => Text.quoted s
  | seq items => "[" ++ inspectItems items ++ "]"
  | map entries => "\x7b" ++ inspectEntries entries ++ "\x7d"

def inspectItems : List Value → String
  | [] => ""
  | [v] => inspect v
  | v :: w :: vs => inspect v ++ ", " ++ inspectItems (w :: vs)

def inspectEntries : List (String × Value) → String
  | [] => ""
  | [(k, v)] => Text.quoted k ++ ": " ++ inspect v
  | (k, v) :: e :: es => Text.quoted k ++ ": " ++ inspect v ++ ", " ++ inspectEntries (e :: es)

end

/-- Nil shows as nothing, a text as itself, all else as inspected. -/
def display : Value → String
  | nil => ""
  | text s => s
  | v => inspect v

end Stencil.Value
