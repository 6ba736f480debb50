import Stencil.Expr.Basic

/-! Conditions: alternatives of which one must hold, each made of clauses that must all hold. -/

namespace Stencil

inductive Comparison where
  | eq
  | ne
  | ge
  | le
  | gt
  | lt
  deriving DecidableEq, Repr

namespace Comparison

def symbol : Comparison → String
  | eq => "=="
  | ne => "!="
  | ge => ">="
  | le => "<="
  | gt => ">"
  | lt => "<"

/-- The comparisons in the order in which a clause is searched for them. -/
def all : List Comparison := [eq, ne, ge, le, gt, lt]

end Comparison

/-- the parts of a condition that hold or not by themselves -/
inductive Clause where
  /-- nothing, which never holds -/
  | empty
  | contains (left right : Expr)
  | compare (op : Comparison) (left right : Expr)
  /-- a value that must not be blank -/
  | present (e : Expr)
  deriving Inhabited

namespace Clause

def beq : Clause → Clause → Bool
  | empty, empty => true
  | contains a b, contains c d => a == c && b == d
  | compare o a b, compare p c d => o == p && a == c && b == d
  | present a, present b => a == b
  | _, _ => false

instance : BEq Clause := ⟨beq⟩

def inspect : Clause → String
  | empty => ""
  | contains l r => l.inspect ++ " contains " ++ r.inspect
  | compare op l r => l.inspect ++ " " ++ op.symbol ++ " " ++ r.inspect
  | present e => e.inspect

end Clause

/-- An or of ands of clauses. -/
structure Condition where
  alternatives : List (List Clause)
  deriving Inhabited

namespace Condition

instance : BEq Condition := ⟨fun a b => a.alternatives == b.alternatives⟩

/-- the condition that an expression equals one of some others -/
def oneOf (e : Expr) (values : List Expr) : Condition :=
  ⟨values.map fun v => [.compare .eq e v]⟩

def inspect (c : Condition) : String :=
  " or ".intercalate (c.alternatives.map fun clauses => " and ".intercalate (clauses.map Clause.inspect))

end Condition

end Stencil
