import QuantifiedComparison.Expr

/-!
# Questions about columns

A question is put to every column of an expression, and holds of the expression if it holds of all
of them.
-/

namespace QuantifiedComparison

inductive Question
  /-- Is nothing read from the filter? -/
  | independentOf (filter : Nat)
  /-- Has every column a value at the level: is it of an outer query, or marked? -/
  | evaluatable (level : QueryLevel)
deriving DecidableEq, Repr

/-- The same question inside a query one level deeper. -/
def Question.descend : Question → Question
  | independentOf f => independentOf f
  | evaluatable level => evaluatable (level + 1)

def Column.satisfies (c : Column) : Question → Bool
  | .independentOf f => c.binding.all (·.filter ≠ f)
  | .evaluatable level => c.binding.any fun b => b.level < level || c.evaluatable

def Expr.satisfies (q : Question) : Expr → Bool
  | literal _ => true
  | column c => c.satisfies q
  | binary _ l r => l.satisfies q && r.satisfies q

end QuantifiedComparison
