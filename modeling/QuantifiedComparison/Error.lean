import QuantifiedComparison.Arithmetic
import QuantifiedComparison.Comparison
import QuantifiedComparison.Value

/-!
# Errors

The reasons for which a query is refused or stops. Each belongs to one category, whose wording opens
its message.
-/

namespace QuantifiedComparison

inductive Error
  | notOneColumn (count : Nat)
  | notConvertible (value : Value) (target : ColumnType)
  | incomparable (left right : ColumnType)
  | incomparableBy (comparison : Comparison) (left right : ColumnType)
  | notBoolean (type : ColumnType)
  | operands (operator : Arithmetic)
  | notPrepared
  | resultClosed
  | noRandomAccess
  | notPositioned (filter : Nat)
  | noSuchColumn (index filter : Nat)
  | unboundColumn (column : String)
  | ambiguousColumn (column : String)
  | rowWidth (row width expected : Nat)
  | unknownSetting (key : String)
  | notAFlag (key value : String)
  | unknownPolicy (name : UnknownName)
  | overflow
  | divisionByZero
  /-- A plan outside this library could not be prepared. -/
  | planning (reason : String)
  /-- A plan outside this library failed while it was run, read or closed. -/
  | execution (reason : String)
deriving DecidableEq

namespace Error

inductive Category
  | shape
  | conversion
  | typing
  | execution
  | planning
  | missingColumn
  | operation
  | overflow
  | divisionByZero
deriving DecidableEq, Repr

def category : Error → Category
  | notOneColumn _ => .shape
  | notConvertible .. => .conversion
  | incomparable .. | incomparableBy .. | notBoolean _ | operands _ => .typing
  | notPrepared | resultClosed | noRandomAccess | notPositioned _ | execution _ => .execution
  | ambiguousColumn _ | rowWidth .. | planning _ => .planning
  | noSuchColumn .. | unboundColumn _ => .missingColumn
  | unknownSetting _ | notAFlag .. | unknownPolicy _ => .operation
  | overflow => .overflow
  | divisionByZero => .divisionByZero

/-- The words a message of the category opens with; the rest is the error's `detail`. -/
def Category.opening : Category → String
  | shape => "Subquery must return exactly one column, got "
  | conversion => "Cannot convert "
  | typing => "Type error: "
  | execution => "Execution error: "
  | planning => "Planning error: "
  | missingColumn => "Column not found: "
  | operation => "Invalid operation: "
  | overflow => "Numeric overflow"
  | divisionByZero => "Division by zero"

def detail : Error → String
  | notOneColumn n => toString n
  | notConvertible v t => v.literal ++ " to " ++ t.name
  | incomparable l r => "Cannot compare incompatible types: " ++ l.name ++ " and " ++ r.name
  | incomparableBy c l r => "Cannot compare " ++ l.name ++ " " ++ c.symbol ++ " " ++ r.name
  | notBoolean t => "Expected a boolean, got " ++ t.name
  | operands o => "Unsupported types for " ++ o.symbol ++ " operator"
  | notPrepared => "Subquery has not been prepared"
  | resultClosed => "Subquery result is already closed"
  | noRandomAccess => "Distinct lookup requires a random access subquery result"
  | notPositioned f => "Table filter " ++ toString f ++ " is not positioned on a row"
  | noSuchColumn i f => "column #" ++ toString i ++ " of table filter " ++ toString f
  | unboundColumn c => c
  | ambiguousColumn c => "Ambiguous column name: " ++ c
  | rowWidth r n expected =>
    "VALUES row " ++ toString r ++ " has " ++ toString n ++ " values, expected " ++
      toString expected
  | unknownSetting k => "Unsupported setting: " ++ k
  | notAFlag k v => "Setting " ++ k ++ " expects a boolean, got '" ++ v ++ "'"
  | unknownPolicy n => n.message
  | overflow | divisionByZero => ""
  | planning reason | execution reason => reason

def message (e : Error) : String :=
  e.category.opening ++ e.detail

end Error

end QuantifiedComparison
