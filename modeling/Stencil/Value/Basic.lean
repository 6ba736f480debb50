/-! Values: all that a template can see. Variables, literals, results of filters and parameters of
includes are values. -/

namespace Stencil

/-- A dynamically typed value. A map has text keys and keeps their order. -/
inductive Value where
  | nil
  | bool (b : Bool)
  | int (n : Int64)
  | float (x : Float)
  | text (s : String)
  | seq (items : List Value)
  | map (entries : List (String × Value))
  deriving Inhabited

namespace Value

/-- The kinds of values. Integers and floats are one kind. -/
inductive Kind where
  | nil
  | bool
  | number
  | text
  | seq
  | map
  deriving DecidableEq, Repr

def kind : Value → Kind
  | nil => .nil
  | bool _ => .bool
  | int _ => .number
  | float _ => .number
  | text _ => .text
  | seq _ => .seq
  | map _ => .map

def Kind.rank : Kind → Nat
  | nil => 0
  | bool => 1
  | number => 2
  | text => 3
  | seq => 4
  | map => 5

def Kind.name : Kind → String
  | nil => "nil"
  | bool => "bool"
  | number => "number"
  | text => "string"
  | seq => "sequence"
  | map => "map"

def isNil : Value → Bool
  | nil => true
  | _ => false

/-- Nil, the empty text and empty collections are blank. `false` and `0` are not. -/
def isBlank : Value → Bool
  | nil => true
  | text s => s.isEmpty
  | seq items => items.isEmpty
  | map entries => entries.isEmpty
  | _ => false

def isTrue (v : Value) : Bool := !v.isBlank

/-- The 64-bit integer that a natural number is, or the nearest float if there is none. -/
def ofNat (n : Nat) : Value :=
  if n < Nat.pow 2 63 then int (.ofNat n) else float (.ofNat n)

end Value

end Stencil
