import QuantifiedComparison.Error
import QuantifiedComparison.Value.Equality

/-!
# Result tables

What a query gives when it is run: rows under the declared types of its columns.
-/

namespace QuantifiedComparison

structure ResultTable where
  types : List ColumnType
  rows : List Row
  /-- Whether its distinct rows can be looked up. -/
  randomAccess : Bool
deriving DecidableEq

namespace ResultTable

/-- The declared type of a column; a column that is not there has no values. -/
def columnType (t : ResultTable) (index : Nat) : ColumnType :=
  t.types[index]?.getD .null

/-- Whether a row equals `key`, where NULL equals NULL. -/
def contains (t : ResultTable) (key : Row) : Except Error Bool :=
  if t.randomAccess then .ok (Row.isAmong key t.rows) else .error .noRandomAccess

end ResultTable

end QuantifiedComparison
