import Stencil.Context
import Stencil.Document
import Stencil.Error

/-! Data of the host program on its way to become values. It has more kinds of numbers than
documents do, and maps with keys of any kind. -/

namespace Stencil

/-- Data before it is a value. Integers may be of any width. -/
inductive Data where
  | unit
  | bool (b : Bool)
  | integer (n : Int)
  | single (x : Float32)
  | double (x : Float)
  | char (c : Char)
  | text (s : String)
  | bytes (bs : List UInt8)
  | present (d : Data)
  | constant (name : String)
  | tagged (name : String) (d : Data)
  | seq (items : List Data)
  | map (entries : List (Data × Data))

namespace Data

inductive Refusal where
  | keyNotText
  | keyNotFinite
  | outOfRange
  deriving DecidableEq, Repr

def Refusal.message : Refusal → String
  | keyNotText => "key must be a string"
  | keyNotFinite => "float key must be finite (got NaN or +/-inf)"
  | outOfRange => "number out of range"

/-- Integers beyond 64 bits are refused. -/
def ofInteger (n : Int) : Except Refusal Document :=
  match Number.ofInteger? n with
  | some n => .ok (.number n)
  | none => .error .outOfRange

/-- Only finite floats are numbers, others become null. -/
def ofDouble (x : Float) : Document :=
  match Number.ofDouble? x with
  | some n => .number n
  | none => .null

private def finiteKey (n : Decimal.Notation) (r : Decimal.Reading) : Except Refusal String :=
  match n.finite? r with
  | some s => .ok s
  | none => .error .keyNotFinite

/-- The text of a key. Collections, absent values and wrapped ones have none. -/
def keyText : Data → Except Refusal String
  | bool b => .ok (if b then "true" else "false")
  | integer n => .ok (Decimal.ofInt n)
  | single x => finiteKey Decimal.jsonSingle (.ofSingle x)
  | double x => finiteKey Decimal.jsonDouble (.ofDouble x)
  | char c => .ok (.singleton c)
  | text s => .ok s
  | constant name => .ok name
  | _ => .error .keyNotText

mutual

def toDocument : Data → Except Refusal Document
  | unit => .ok .null
  | bool b => .ok (.bool b)
  | integer n => ofInteger n
  | single x => .ok (ofDouble x.toFloat)
  | double x => .ok (ofDouble x)
  | char c => .ok (.text (.singleton c))
  | text s => .ok (.text s)
  | bytes bs => .ok (.seq (bs.map fun b => .number (.natural (.ofNat b.toNat))))
  | present d => toDocument d
  | constant name => .ok (.text name)
  | tagged name d => (toDocument d).map fun v => .map [(name, v)]
  | seq items => (toDocuments items).map .seq
  | map entries => (toMembers [] entries).map .map

def toDocuments : List Data → Except Refusal (List Document)
  | [] => .ok []
  | d :: ds => do
    let v ← toDocument d
    let vs ← toDocuments ds
    .ok (v :: vs)

/-- Writes entries in turn: of equal keys the first place and the last document count. -/
def toMembers (done : List (String × Document)) :
    List (Data × Data) → Except Refusal (List (String × Document))
  | [] => .ok done
  | (k, d) :: es => do
    let name ← keyText k
    let v ← toDocument d
    toMembers (Entries.put name v done) es

end

def toValue (d : Data) : Except Refusal Value := d.toDocument.map Value.ofDocument

mutual

def ofValue : Value → Data
  | .nil => unit
  | .bool b => bool b
  | .int n => integer n.toInt
  | .float x => double x
  | .text s => text s
  | .seq items => seq (ofValues items)
  | .map entries => map (ofEntries entries)

def ofValues : List Value → List Data
  | [] => []
  | v :: vs => ofValue v :: ofValues vs

def ofEntries : List (String × Value) → List (Data × Data)
  | [] => []
  | (k, v) :: es => (text k, ofValue v) :: ofEntries es

end

def ofContext (ctx : Context) : Data := map (ofEntries ctx.entries)

end Data

/-- The value of data, or the error that tells why it is none. -/
def Value.ofData (d : Data) : Except Error Value :=
  match d.toValue with
  | .ok v => .ok v
  | .error r =>
    .error { Error.of .badData "unable to convert context data" with
      source := some r.message }

/-- Data that is no value counts as nil. -/
def Value.ofDataOrNil (d : Data) : Value :=
  match d.toValue with
  | .ok v => v
  | .error _ => .nil

/-- The context that data describes: a map of variables, or nil for none. -/
def Context.ofData (d : Data) : Except Error Context := do
  match ← Value.ofData d with
  | .map entries => .ok (.ofEntries entries)
  | .nil => .ok .empty
  | v => .error (.of .badData ("context must be a map, got " ++ v.kind.name))

end Stencil
