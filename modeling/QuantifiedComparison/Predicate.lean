import QuantifiedComparison.Plan
import QuantifiedComparison.Text.Lines

/-!
# Quantified predicates

`left IN (query)`, `left op ANY (query)` and `left op ALL (query)`. Several predicates may share one
query, so a predicate holds the number of its plan, and what changes or reads the plan is given it.
-/

namespace QuantifiedComparison

/-- The number of a plan among those of a statement. -/
abbrev PlanId := Nat

structure Predicate where
  left : Expr
  query : PlanId
  quantifier : Quantifier
  comparison : Comparison
  /-- The deepest level it has been bound at. -/
  level : QueryLevel := 0
deriving DecidableEq

/-- The ways to get from the rows to a truth value. -/
inductive Strategy
  /-- Compare the left value with the rows until one decides. -/
  | scan
  /-- Look the left value up among the distinct rows. -/
  | lookup
deriving DecidableEq, Repr

namespace Predicate

/-- `left IN (query)`, which is `left = ANY (query)`. -/
def isIn (left : Expr) (query : PlanId) : Predicate :=
  { left, query, quantifier := .any, comparison := .equal }

/-- Binds the left operand, and then the query one level deeper. -/
def bind (p : Predicate) (plan : Plan) (s : Scope) (level : QueryLevel) :
    Attempt (Predicate × Plan) :=
  let left := p.left.bind s level
  let bound := { p with left := left.after }
  match left.error with
  | some e => ⟨(bound, plan), some e⟩
  | none =>
    let inner := plan.bind s (level + 1)
    match inner.error with
    | some e => ⟨(bound, inner.after), some e⟩
    | none => ⟨({ bound with level := max p.level level }, inner.after), none⟩

/-- Folds the left operand and prepares the query for lookups. The predicate itself is never folded,
since the query may see other rows the next time. -/
def optimize (p : Predicate) (plan : Plan) : Attempt (Predicate × Plan) :=
  let left := p.left.fold
  let folded := { p with left := left.after }
  match left.error with
  | some e => ⟨(folded, plan), some e⟩
  | none =>
    let ready := (plan.setRandomAccess true).prepare
    match ready.error with
    | some e => ⟨(folded, ready.after), some e⟩
    | none =>
      let columns := ready.after.columnCount
      ⟨(folded, ready.after), if columns = 1 then none else some (.notOneColumn columns)⟩

def mark (p : Predicate) (plan : Plan) (filter : Nat) (flag : Bool) : Predicate × Plan :=
  ({ p with left := p.left.mark filter flag }, plan.mark filter flag)

/-- Costs are counted up to here, as far as 32 bits go. -/
def greatestCost : Nat := 4294967295

def cost (p : Predicate) (plan : Plan) : Nat :=
  min (p.left.cost + plan.cost) greatestCost

def satisfies (p : Predicate) (plan : Plan) (q : Question) : Bool :=
  p.left.satisfies q && plan.satisfies q

/-- The way a value that is not NULL is compared with a query that has rows. -/
def strategy (p : Predicate) (s : Settings) : Strategy :=
  if s.useLookup && p.quantifier = .any && p.comparison.isEquality then .lookup else .scan

/-- The words between the left operand and the query. -/
def phrase (p : Predicate) : String :=
  if p.quantifier = .any ∧ p.comparison = .equal then "IN"
  else p.comparison.symbol ++ " " ++ p.quantifier.name

def text (p : Predicate) (plan : Plan) : String :=
  "(" ++ p.left.text ++ " " ++ p.phrase ++ "(\n" ++
    Text.indented (Text.lines plan.sql.toList) ++ "))"

end Predicate

end QuantifiedComparison
