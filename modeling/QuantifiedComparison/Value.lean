import QuantifiedComparison.ColumnType
import QuantifiedComparison.Double
import QuantifiedComparison.Integer
import QuantifiedComparison.Text.Hex
import QuantifiedComparison.Text.Quoted

/-!
# Values

A value is NULL or carries a datum of one of seven types. It is written as an SQL literal.
-/

namespace QuantifiedComparison

/-- A date and a timestamp are the text they were given as. -/
inductive Value
  | null
  | integer (i : Int64)
  | float (f : Float)
  | text (s : String)
  | boolean (b : Bool)
  | date (s : String)
  | timestamp (s : String)
  | blob (bytes : List UInt8)
deriving DecidableEq

/-- A row of a table or of a query result. -/
abbrev Row := List Value

namespace Value

def type : Value → ColumnType
  | null => .null
  | integer _ => .integer
  | float _ => .float
  | text _ => .text
  | boolean _ => .boolean
  | date _ => .date
  | timestamp _ => .timestamp
  | blob _ => .blob

def isNull : Value → Bool
  | null => true
  | _ => false

def boolean? : Value → Option Bool
  | boolean b => some b
  | _ => none

/-- Quotes inside a text are doubled; a date and a timestamp stand between quotes as they are. -/
def literal : Value → String
  | null => "NULL"
  | integer i => Integer.text i
  | float f => Double.text f
  | text s => Text.Quoted.encode s
  | boolean b => if b then "TRUE" else "FALSE"
  | date s => "DATE '" ++ s ++ "'"
  | timestamp s => "TIMESTAMP '" ++ s ++ "'"
  | blob bytes => "X'" ++ String.ofList (Text.Hex.encode bytes) ++ "'"

end Value

end QuantifiedComparison
