import Stencil.Expr.Basic
import Stencil.Filter

/-! The value of an expression. -/

namespace Stencil.Expr

open Calendar (Instant)

mutual

/-- Evaluation never fails: what is missing is nil. -/
def eval (now : Instant) (ctx : Context) : Expr → Value
  | const v => v
  | path segments => ctx.resolve segments
  | filter e name args => Filter.apply now ctx name (eval now ctx e) (evalArgs now ctx args)

def evalArgs (now : Instant) (ctx : Context) : List Expr → List Value
  | [] => []
  | e :: es => eval now ctx e :: evalArgs now ctx es

end

end Stencil.Expr
