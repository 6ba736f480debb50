import Stencil.Decimal.Numeral
import Stencil.Text.Search
import Stencil.Value.Order
import Stencil.Value.Show

/-! Looking into values: attributes, sizes, items and membership. -/

namespace Stencil.Value

/-- the number of characters, items or entries -/
def size? : Value → Option Nat
  | text s => some s.length
  | seq items => some items.length
  | map entries => some entries.length
  | _ => none

def asText? : Value → Option String
  | text s => some s
  | _ => none

def asItems? : Value → Option (List Value)
  | seq items => some items
  | _ => none

def asEntries? : Value → Option (List (String × Value))
  | map entries => some entries
  | _ => none

/-- A position in a sequence: digits, maybe after a plus sign, that fit into 64 bits. -/
def index? (name : List Char) : Option Nat :=
  let digits := match name with
    | '+' :: cs => cs
    | cs => cs
  if Decimal.isDigits digits && Decimal.natOf digits < Nat.pow 2 64 then some (Decimal.natOf digits)
  else none

/-- What a segment of a dotted path finds. Maps have their keys; texts have a size; sequences have
a size, a first and a last item, and positions. -/
def attr? : Value → String → Option Value
  | map entries, name => entries.lookup name
  | text s, name => if name == "size" || name == "length" then some (ofNat s.length) else none
  | seq items, name =>
    if name == "size" || name == "length" then some (ofNat items.length)
    else if name == "first" then items.head?
    else if name == "last" then items.getLast?
    else (index? name.toList).bind (items[·]?)
  | _, _ => none

/-- The items a loop goes over. Nil has none, a map has its entries as pairs, and a value that is
no collection is its own only item. -/
def toItems : Value → List Value
  | nil => []
  | seq items => items
  | map entries => entries.map fun (k, v) => seq [text k, v]
  | v => [v]

/-- Membership: a part of a text, an item of a sequence, a key of a map. Nil contains nothing and
is in nothing; any other value contains what its text does. -/
def contains : Value → Value → Bool
  | nil, _ => false
  | _, nil => false
  | seq items, v => items.any (· == v)
  | map entries, v => (entries.lookup v.display).isSome
  | c, v => Text.hasPart v.display.toList c.display.toList

end Stencil.Value
