import QuantifiedComparison.Predicate

/-!
# Table filters

A table in the FROM list of a query. It is a scope for the names of its columns, and it collects
index conditions, each of which lets through the rows whose value in one column is among the values
of a query.
-/

namespace QuantifiedComparison

/-- `column IN (query)`, with the column's position and name. -/
structure IndexCondition where
  column : Nat
  name : String
  query : PlanId
deriving DecidableEq, Repr

structure TableFilter where
  id : Nat
  name : String
  columns : List (String × ColumnType)
  conditions : List IndexCondition := []
deriving DecidableEq, Repr

def IndexCondition.text (c : IndexCondition) (plan : Plan) : String :=
  c.name ++ " IN(" ++ plan.sql ++ ")"

namespace TableFilter

/-- The first column of that name, in any case. -/
def find? (f : TableFilter) (name : String) : Option (Nat × ColumnType) := do
  let index ← f.columns.findIdx? (Text.equalIgnoringCase ·.1 name)
  let column ← f.columns[index]?
  return (index, column.2)

def scope (f : TableFilter) : Scope :=
  { filter := f.id, name := f.name, find? := f.find? }

/-- The declared type of a column; a column that is not there has no values. -/
def columnType (f : TableFilter) (index : Nat) : ColumnType :=
  (f.columns[index]?.map (·.2)).getD .null

def add (f : TableFilter) (c : IndexCondition) : TableFilter :=
  { f with conditions := f.conditions ++ [c] }

end TableFilter

namespace Predicate

/-- The index condition that the predicate is for the filter: only a plain IN is one, of a column of
the filter itself, over a query that reads nothing from the filter. -/
def indexCondition? (p : Predicate) (plan : Plan) (s : Settings) (f : TableFilter) :
    Option IndexCondition := do
  guard (s.usePushdown ∧ p.quantifier = .any ∧ p.comparison = .equal)
  let .column c := p.left | none
  let b ← c.binding
  guard (b.filter = f.id ∧ plan.satisfies (.independentOf f.id))
  return { column := b.index, name := c.name, query := p.query }

/-- Gives the filter the predicate's index condition, and tells whether there is one. -/
def push (p : Predicate) (plan : Plan) (s : Settings) (f : TableFilter) : Bool × TableFilter :=
  match p.indexCondition? plan s f with
  | some c => (true, f.add c)
  | none => (false, f)

end Predicate

end QuantifiedComparison
