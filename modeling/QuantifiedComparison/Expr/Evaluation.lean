import QuantifiedComparison.Arithmetic.Outcome
import QuantifiedComparison.Context
import QuantifiedComparison.Expr

/-!
# Evaluation

The value of an expression in a context. Operands are evaluated from left to right, and the first
error is the expression's.
-/

namespace QuantifiedComparison

def Column.eval (ctx : Context) (c : Column) : Except Error Value :=
  match c.binding with
  | some b => ctx.value b.filter b.index
  | none => .error (.unboundColumn c.text)

def Expr.eval (ctx : Context) : Expr → Except Error Value
  | literal v => .ok v
  | column c => c.eval ctx
  | binary o l r => do
    let a ← l.eval ctx
    let b ← r.eval ctx
    o.outcome a b

end QuantifiedComparison
