import Stencil.Value.Order
import Stencil.Value.Show

/-! Expressions: a literal or a path of a variable, and the filters that its value passes. -/

namespace Stencil

/-- A filter is applied to the expression before it, with expressions as arguments. -/
inductive Expr where
  | const (v : Value)
  | path (segments : List String)
  | filter (e : Expr) (name : String) (args : List Expr)
  deriving Inhabited

namespace Expr

def var (name : String) : Expr := path [name]

mutual

/-- Expressions are equal if they are built alike from equal literals. -/
def beq : Expr → Expr → Bool
  | const v, const w => v == w
  | path p, path q => p == q
  | filter e n as, filter f m bs => beq e f && n == m && beqArgs as bs
  | _, _ => false

def beqArgs : List Expr → List Expr → Bool
  | [], [] => true
  | a :: as, b :: bs => beq a b && beqArgs as bs
  | _, _ => false

end

instance : BEq Expr := ⟨beq⟩

mutual

def inspect : Expr → String
  | const v => v.inspect
  | path segments => ".".intercalate segments
  | filter e name args => inspect e ++ " | " ++ name ++ inspectArgs ": " args

/-- arguments, each with something in front: a colon for the first, commas for the others -/
def inspectArgs (lead : String) : List Expr → String
  | [] => ""
  | a :: as => lead ++ inspect a ++ inspectArgs ", " as

end

end Expr

end Stencil
