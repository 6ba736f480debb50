import Stencil.Decimal.Notation
import Stencil.Value.Basic

/-! The JSON text of a value, without spaces and in the order of its entries. -/

namespace Stencil.Value

/-- Quote, backslash and five controls have an escape of their own, other controls one by number. -/
def jsonEscape (c : Char) : List Char :=
  if c == '"' then ['\\', '"']
  else if c == '\\' then ['\\', '\\']
  else if c == '\x08' then ['\\', 'b']
  else if c == '\x0c' then ['\\', 'f']
  else if c == '\n' then ['\\', 'n']
  else if c == '\r' then ['\\', 'r']
  else if c == '\t' then ['\\', 't']
  else if c.toNat < 0x20 then
    ['\\', 'u', '0', '0', Nat.digitChar (c.toNat / 16), Nat.digitChar (c.toNat % 16)]
  else [c]

def jsonQuoted (s : String) : List Char := '"' :: s.toList.flatMap jsonEscape ++ ['"']

mutual

/-- JSON has no infinities and no NaN: they are written as null. -/
def jsonChars : Value → List Char
  | nil => "null".toList
  | bool b => if b then "true".toList else "false".toList
  | int n => Decimal.intDigits n.toInt
  | float x => ((Decimal.jsonDouble.finite? (.ofDouble x)).getD "null").toList
  | text s => jsonQuoted s
  | seq items => '[' :: jsonItems items ++ [']']
  | map entries => '\x7b' :: jsonEntries entries ++ ['\x7d']

def jsonItems : List Value → List Char
  | [] => []
  | [v] => jsonChars v
  | v :: w :: vs => jsonChars v ++ ',' :: jsonItems (w :: vs)

def jsonEntries : List (String × Value) → List Char
  | [] => []
  | [(k, v)] => jsonQuoted k ++ ':' :: jsonChars v
  | (k, v) :: e :: es => jsonQuoted k ++ ':' :: jsonChars v ++ ',' :: jsonEntries (e :: es)

end

def json (v : Value) : String := .ofList (jsonChars v)

end Stencil.Value
