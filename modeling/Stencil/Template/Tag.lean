import Stencil.Text.Blank
import Stencil.Text.Search

/-! What tags mean. A tag that looks like a control tag but is none is malformed; a tag that does
not is raw. -/

namespace Stencil

open Text (firstWord trim isWord)

/-- The meaning of a tag, with the texts of its parts. -/
inductive Tag where
  | ifOpen (condition : List Char)
  | unlessOpen (condition : List Char)
  | elsif (condition : List Char)
  | otherwise
  /-- the end of an if, an unless or a loop -/
  | close
  | loopOpen (target items : List Char)
  | assign (target value : List Char)
  | caseOpen (subject : List Char)
  | when (values : List Char)
  | endCase
  | inclusion (args : List Char)
  | malformed
  | raw
  deriving DecidableEq, Repr

namespace Tag

/-- Tags that start like this are control tags. -/
def controlStarts : List String :=
  ["if", "unless", "elsif", "else", "endif", "endunless", "for", "endfor", "assign"]

def closers : List String := ["endif", "endunless", "endfor"]

def readLoop (rest : List Char) : Tag :=
  let (target, rest) := firstWord rest
  let (preposition, items) := firstWord rest
  if preposition == "in".toList && isWord target && !items.isEmpty then loopOpen target items
  else malformed

def readAssign (rest : List Char) : Tag :=
  match Text.cutAt? ['='] rest with
  | some (target, value) =>
    if isWord (trim target) && !(trim value).isEmpty then assign (trim target) (trim value)
    else malformed
  | none => malformed

/-- a tag that starts like a control tag -/
def readControl (body word rest : List Char) : Tag :=
  if word == "if".toList && !rest.isEmpty then ifOpen rest
  else if word == "unless".toList && !rest.isEmpty then unlessOpen rest
  else if word == "elsif".toList && !rest.isEmpty then elsif rest
  else if body == "else".toList then otherwise
  else if closers.any (body == ·.toList) then close
  else if word == "for".toList then readLoop rest
  else if word == "assign".toList then readAssign rest
  else malformed

/-- the meaning of the body of a tag -/
def read (body : List Char) : Tag :=
  let (word, rest) := firstWord body
  if word == "case".toList && !rest.isEmpty then caseOpen rest
  else if word == "when".toList && !rest.isEmpty then when rest
  else if word == "endcase".toList && rest.isEmpty then endCase
  else if word == "include".toList && !rest.isEmpty then inclusion rest
  else if controlStarts.any (·.toList.isPrefixOf body) then readControl body word rest
  else raw

def opens : Tag → Bool
  | ifOpen _ | unlessOpen _ | loopOpen _ _ | caseOpen _ => true
  | _ => false

def closes : Tag → Bool
  | close | endCase => true
  | _ => false

end Tag

end Stencil
