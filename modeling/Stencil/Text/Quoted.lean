import Stencil.Text.Hidden

/-! Text between double quotes, with escapes, as the inspected forms of values, contexts, trees
and errors show it. -/

namespace Stencil.Text

/-- the code point in hexadecimal, between braces -/
def escapeByNumber (c : Char) : List Char :=
  ['\\', 'u', '\x7b'] ++ Nat.toDigits 16 c.toNat ++ ['\x7d']

/-- Quote, backslash and four controls have an escape of their own; other hidden characters are
written by number. A single quote stays. -/
def escape (c : Char) : List Char :=
  if c == '"' then ['\\', '"']
  else if c == '\\' then ['\\', '\\']
  else if c == '\n' then ['\\', 'n']
  else if c == '\r' then ['\\', 'r']
  else if c == '\t' then ['\\', 't']
  else if c == '\x00' then ['\\', '0']
  else if isHidden c then escapeByNumber c
  else [c]

def quoted (s : String) : String := "\"" ++ .ofList (s.toList.flatMap escape) ++ "\""

end Stencil.Text
