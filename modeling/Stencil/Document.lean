import Stencil.Entries
import Stencil.Value.Basic

/-! Documents: the few kinds of data that all data of the host program is brought to before it
becomes values. -/

namespace Stencil

/-- A number of a document. Only negative integers are signed, and all floats are finite. -/
inductive Number where
  | natural (n : UInt64)
  | negative (n : Int64) (neg : n.toInt < 0)
  | real (x : Float) (finite : x.isFinite = true)

/-- Data with keys of text in the order in which they were first written. -/
inductive Document where
  | null
  | bool (b : Bool)
  | number (n : Number)
  | text (s : String)
  | seq (items : List Document)
  | map (entries : List (String × Document))

namespace Number

def ofDouble? (x : Float) : Option Number := if h : x.isFinite = true then some (real x h) else none

/-- an integer as a number, if it has 64 bits, with a sign only where it is negative -/
def ofInteger? (n : Int) : Option Number :=
  if 0 ≤ n ∧ n < Int.pow 2 64 then some (natural (.ofNat n.toNat))
  else if h : -Int.pow 2 63 ≤ n ∧ n < 0 then
    some (negative (.ofInt n) (by rw [Int64.toInt_ofInt_of_le h.1 (by omega)]; exact h.2))
  else none

def toInt64? : Number → Option Int64
  | natural n => if n.toNat < Nat.pow 2 63 then some (.ofNat n.toNat) else none
  | negative n _ => some n
  | real _ _ => none

def toDouble? : Number → Option Float
  | natural n => some (.ofNat n.toNat)
  | negative n _ => some (.ofInt n.toInt)
  | real x _ => some x

end Number

namespace Value

/-- A number that is an integer of 64 bits stays one, others become floats. -/
def ofNumber (n : Number) : Value :=
  match n.toInt64?, n.toDouble? with
  | some i, _ => int i
  | none, some x => float x
  | none, none => nil

mutual

def ofDocument : Document → Value
  | .null => nil
  | .bool b => bool b
  | .number n => ofNumber n
  | .text s => text s
  | .seq items => seq (ofDocuments items)
  | .map entries => map (Entries.ofList (ofMembers entries))

def ofDocuments : List Document → List Value
  | [] => []
  | d :: ds => ofDocument d :: ofDocuments ds

def ofMembers : List (String × Document) → List (String × Value)
  | [] => []
  | (k, d) :: es => (k, ofDocument d) :: ofMembers es

end

end Value

end Stencil
