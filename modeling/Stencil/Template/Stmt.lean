import Stencil.Condition.Basic
import Stencil.Markup.Position

/-! Templates as trees of statements, each with its span in the source. -/

namespace Stencil

open Markup (Span)

mutual

inductive Stmt where
  | text (raw : String) (span : Span)
  | output (e : Expr) (span : Span)
  /-- a tag without a meaning here, put out as it stands -/
  | rawTag (raw : String) (span : Span)
  /-- the first branch that is taken, or else the other body -/
  | choice (branches : List Branch) (otherwise : List Stmt) (span : Span)
  /-- the body once for each item, or the other body if there is none -/
  | loop (target : String) (items : Expr) (body otherwise : List Stmt) (span : Span)
  | assign (target : String) (e : Expr) (span : Span)
  | inclusion (name : String) (params : List (String × String)) (span : Span)

/-- A branch is taken if its condition holds, or if it does not in a negated branch. -/
inductive Branch where
  | mk (condition : Condition) (negated : Bool) (body : List Stmt)

end

instance : Inhabited Stmt := ⟨.text "" .none⟩

def Stmt.span : Stmt → Span
  | text _ s | output _ s | rawTag _ s | choice _ _ s | loop _ _ _ _ s | assign _ _ s
  | inclusion _ _ s => s

def Branch.condition : Branch → Condition
  | mk c _ _ => c

def Branch.negated : Branch → Bool
  | mk _ n _ => n

def Branch.body : Branch → List Stmt
  | mk _ _ b => b

structure Template where
  children : List Stmt
  span : Span
  deriving Inhabited

end Stencil
