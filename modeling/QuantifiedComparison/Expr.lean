import QuantifiedComparison.Arithmetic
import QuantifiedComparison.Value

/-!
# Expressions

Literals, columns and arithmetic on them. A column is a name until a scope binds it to a position in
the rows of a table filter.

Filters are numbered; a query stands at a level, the outermost at 0, and what it contains one
deeper.
-/

namespace QuantifiedComparison

/-- How deep a query stands, as a machine word. One deeper than the greatest level is 0, since
overflow is not checked. -/
abbrev QueryLevel := UInt64

/-- Where a bound column reads its value, and the level of the query that binds it. -/
structure Binding where
  filter : Nat
  index : Nat
  type : ColumnType
  level : QueryLevel
deriving DecidableEq, Repr

structure Column where
  table : Option String
  name : String
  binding : Option Binding := none
  /-- Set while the column's filter has a row for it. -/
  evaluatable : Bool := false
deriving DecidableEq, Repr

/-- The column as it is written, after its table if it names one. -/
def Column.text (c : Column) : String :=
  match c.table with
  | some t => t ++ "." ++ c.name
  | none => c.name

inductive Expr
  | literal (v : Value)
  | column (c : Column)
  | binary (o : Arithmetic) (left right : Expr)
deriving DecidableEq

namespace Expr

def text : Expr → String
  | literal v => v.literal
  | column c => c.text
  | binary o l r => "(" ++ l.text ++ " " ++ o.symbol ++ " " ++ r.text ++ ")"

/-- The cost of one evaluation: two for a column and one for an operation. -/
def cost : Expr → Nat
  | literal _ => 0
  | column _ => 2
  | binary _ l r => l.cost + r.cost + 1

/-- Its columns from left to right. -/
def columns : Expr → List Column
  | literal _ => []
  | column c => [c]
  | binary _ l r => l.columns ++ r.columns

end Expr

end QuantifiedComparison
