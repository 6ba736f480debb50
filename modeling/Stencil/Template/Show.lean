import Stencil.Template.Stmt
import Stencil.Text.Quoted

/-! The inspected form of templates: every field, and the lines and columns of every span. -/

namespace Stencil

open Markup (Span)

private def number (n : Nat) : String := .ofList (Nat.toDigits 10 n)

def Markup.Span.inspect (s : Span) : String :=
  " @ " ++ number s.first.line ++ ":" ++ number s.first.column ++ "-" ++ number s.last.line ++
    ":" ++ number s.last.column

/-- a record with fields that are inspected already -/
def inspectRecord (name : String) (fields : List (String × String)) : String :=
  name ++ " \x7b " ++ ", ".intercalate (fields.map fun (k, v) => k ++ ": " ++ v) ++ " \x7d"

mutual

def Stmt.inspect : Stmt → String
  | .text raw s => inspectRecord "EmitRaw" [("raw", Text.quoted raw)] ++ s.inspect
  | .output e s => inspectRecord "EmitExpr" [("expr", e.inspect)] ++ s.inspect
  | .rawTag raw s => inspectRecord "RawTag" [("raw", Text.quoted raw)] ++ s.inspect
  | .choice branches otherwise s =>
    inspectRecord "IfCond" [("branches", "[" ++ inspectBranches branches ++ "]"),
      ("else_body", "[" ++ inspectStmts otherwise ++ "]")] ++ s.inspect
  | .loop target items body otherwise s =>
    inspectRecord "ForLoop" [("target", Text.quoted target), ("iter", items.inspect),
      ("body", "[" ++ inspectStmts body ++ "]"),
      ("else_body", "[" ++ inspectStmts otherwise ++ "]")] ++ s.inspect
  | .assign target e s =>
    inspectRecord "Assign" [("target", Text.quoted target), ("expr", e.inspect)] ++ s.inspect
  | .inclusion name params s =>
    let pairs := params.map fun (k, v) => "(" ++ Text.quoted k ++ ", " ++ Text.quoted v ++ ")"
    inspectRecord "Include" [("name", Text.quoted name),
      ("params", "[" ++ ", ".intercalate pairs ++ "]")] ++ s.inspect

def inspectStmts : List Stmt → String
  | [] => ""
  | [s] => s.inspect
  | s :: t :: ss => s.inspect ++ ", " ++ inspectStmts (t :: ss)

def Branch.inspect : Branch → String
  | .mk condition negated body =>
    inspectRecord "CondBranch" [("cond", condition.inspect),
      ("negated", if negated then "true" else "false"), ("body", "[" ++ inspectStmts body ++ "]")]

def inspectBranches : List Branch → String
  | [] => ""
  | [b] => b.inspect
  | b :: c :: bs => b.inspect ++ ", " ++ inspectBranches (c :: bs)

end

def Template.inspect (t : Template) : String :=
  inspectRecord "Template" [("children", "[" ++ inspectStmts t.children ++ "]")] ++ t.span.inspect

end Stencil
