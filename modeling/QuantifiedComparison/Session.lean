import QuantifiedComparison.TableFilter.Restriction

/-!
# Sessions

The objects of one or more statements, and the steps that can be taken on them. Predicates and index
conditions share plans, and contexts share registries; each is named by its number. A plan keeps
count of what its runs were asked.
-/

namespace QuantifiedComparison

structure MeteredPlan where
  plan : Plan
  usage : Usage := {}

structure Session where
  filters : List TableFilter := []
  plans : List MeteredPlan := []
  predicates : List Predicate := []
  exprs : List Expr := []
  /-- Each context with the number of its registry. -/
  contexts : List (Context × Nat) := [({}, 0)]
  registries : Nat → Registry := fun _ => {}

inductive ExprStep
  | bind (filter : Nat) (level : QueryLevel)
  | fold
  | eval (context : Nat)
  | mark (filter : Nat) (flag : Bool)
  | cost
  | ask (q : Question)
  | text
  | reference

inductive PredicateStep
  | bind (filter : Nat) (level : QueryLevel)
  | optimize
  | mark (filter : Nat) (flag : Bool)
  | cost
  | ask (q : Question)
  | strategy (s : Settings)
  | push (filter : Nat) (s : Settings)
  | evaluate (context : Nat)
  | text
  | describe

inductive PlanStep
  | addRow (row : List Expr)
  | rowCount
  | bind (filter : Nat) (level : QueryLevel)
  | setRandomAccess (flag : Bool)
  | prepare
  | columnCount
  | mark (filter : Nat) (flag : Bool)
  | cost
  | ask (q : Question)
  | sql
  | usage
  /-- A run for all its rows, which is neither registered nor closed. -/
  | run (context : Nat)

inductive FilterStep
  | find (name : String)
  | add (c : IndexCondition)
  | conditions
  | probeValues (condition context : Nat)
  | restrict (rows : List Row) (context : Nat)

inductive ContextStep
  | position (filter : Nat) (row : Row)
  | clear (filter : Nat)
  | value (filter index : Nat)
  | settings

/-- A step names the object it is taken on by its number. -/
inductive Step
  | expr (number : Nat) (t : ExprStep)
  | predicate (number : Nat) (t : PredicateStep)
  | plan (number : Nat) (t : PlanStep)
  | filter (number : Nat) (t : FilterStep)
  | context (number : Nat) (t : ContextStep)
  | registry (number : Nat)

inductive Answer
  /-- The step names an object that is not there. -/
  | missing
  | failed (e : Error)
  | done
  | flag (b : Bool)
  | count (n : Nat)
  | text (s : String)
  | value (v : Value)
  | values (r : Row)
  | rows (rows : List Row)
  | found (column : Option (Nat × ColumnType))
  /-- The column that an expression is, if it is one. -/
  | reference (c : Option Column)
  | description (p : Predicate)
  | strategy (s : Strategy)
  /-- The column and the text of each condition. -/
  | conditions (cs : List (Nat × String))
  | noCondition
  | result (rowCount : Nat) (type : ColumnType) (rows : List Row)
  | settings (s : Settings)
  | usage (u : Usage)
  | registry (r : Registry)

namespace Answer

def ofExcept {α : Type} (f : α → Answer) : Except Error α → Answer
  | .ok a => f a
  | .error e => failed e

def ofAttempt {α : Type} (t : Attempt α) : Answer :=
  t.error.elim done failed

end Answer

end QuantifiedComparison
