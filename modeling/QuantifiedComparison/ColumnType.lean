import QuantifiedComparison.Text.Keyword
import QuantifiedComparison.UnknownName

/-!
# Column types

The type a column is declared with. Every type has one name of its own and reads several.
-/

namespace QuantifiedComparison

/-- A column of type `null` never holds anything but NULL. -/
inductive ColumnType
  | null
  | integer
  | float
  | text
  | boolean
  | date
  | timestamp
  | blob
deriving DecidableEq, Repr

namespace ColumnType

def name : ColumnType → String
  | null => "NULL"
  | integer => "INTEGER"
  | float => "FLOAT"
  | text => "TEXT"
  | boolean => "BOOLEAN"
  | date => "DATE"
  | timestamp => "TIMESTAMP"
  | blob => "BLOB"

/-- The names of a type, in any case. -/
def ofName (s : String) : Except UnknownName ColumnType :=
  match Text.upper s with
  | "NULL" => .ok null
  | "INT" | "INTEGER" | "BIGINT" => .ok integer
  | "FLOAT" | "REAL" | "DOUBLE" => .ok float
  | "TEXT" | "VARCHAR" | "CHAR" | "STRING" => .ok text
  | "BOOL" | "BOOLEAN" => .ok boolean
  | "DATE" => .ok date
  | "TIMESTAMP" | "DATETIME" => .ok timestamp
  | "BLOB" | "BINARY" => .ok blob
  | _ => .error (.columnType s)

/-- The types whose values compare with each other as numbers. -/
def isNumeric : ColumnType → Bool
  | integer | float => true
  | _ => false

end ColumnType

end QuantifiedComparison
