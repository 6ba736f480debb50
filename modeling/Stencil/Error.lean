import Stencil.Text.Quoted

/-! What can go wrong. Templates are lenient, so errors are few: an include that is missing or
nested too deep, data that is no value, and output that cannot be written. -/

namespace Stencil

namespace Error

inductive Kind where
  | templateNotFound
  | invalidOperation
  | badData
  | writeFailure
  deriving DecidableEq, Repr

def Kind.description : Kind → String
  | templateNotFound => "template not found"
  | invalidOperation => "invalid operation"
  | badData => "could not serialize to internal format"
  | writeFailure => "failed to write output"

def Kind.name : Kind → String
  | templateNotFound => "TemplateNotFound"
  | invalidOperation => "InvalidOperation"
  | badData => "BadSerialization"
  | writeFailure => "WriteFailure"

structure Site where
  template : String
  line : Nat
  deriving DecidableEq, Repr

end Error

/-- An error with the place where it happened and the chain of includes that led there, innermost
first. `source` is the text of the error behind this one. -/
structure Error where
  kind : Error.Kind
  detail : Option String := none
  site : Option Error.Site := none
  includedFrom : List Error.Site := []
  source : Option String := none
  deriving DecidableEq, Repr

namespace Error

def of (kind : Kind) (detail : String) : Error :=
  { kind := kind, detail := some detail }

def notFound (name : String) : Error := of .templateNotFound ("include not found: " ++ name)

def tooDeep (limit : Nat) : Error :=
  of .invalidOperation
    ("includes nested deeper than the recursion limit of " ++ .ofList (Nat.toDigits 10 limit))

def notWritten : Error := of .writeFailure "formatting failed"

/-- Records a place. The innermost one is where the error happened, every further one is a step of
the chain of includes. -/
def locate (e : Error) (site : Site) : Error :=
  match e.site with
  | none => { e with site := some site }
  | some _ => { e with includedFrom := e.includedFrom ++ [site] }

/-- Errors are equal if they are of one kind. -/
instance : BEq Error := ⟨fun a b => a.kind == b.kind⟩

def Site.text (s : Site) : String := s.template ++ ":" ++ .ofList (Nat.toDigits 10 s.line)

def message (e : Error) : String :=
  e.kind.description ++ (e.detail.elim "" (": " ++ ·)) ++
    (e.site.elim "" fun s => " (in " ++ s.text ++ ")")

/-- the message with one line for each step of the chain -/
def fullMessage (e : Error) : String :=
  e.includedFrom.foldl (fun out s => out ++ "\n  included from " ++ s.text) e.message

private def inspectOption : Option String → String
  | none => "None"
  | some s => "Some(" ++ Text.quoted s ++ ")"

def inspect (e : Error) : String :=
  let chain := e.includedFrom.map fun s =>
    "(" ++ Text.quoted s.template ++ ", " ++ .ofList (Nat.toDigits 10 s.line) ++ ")"
  "Error \x7b kind: " ++ e.kind.name ++ ", detail: " ++ inspectOption e.detail ++
    ", name: " ++ inspectOption (e.site.map (·.template)) ++
    ", lineno: " ++ .ofList (Nat.toDigits 10 (e.site.elim 0 (·.line))) ++
    ", included_from: [" ++ ", ".intercalate chain ++ "], source: " ++ inspectOption e.source ++
    " \x7d"

end Error

end Stencil
