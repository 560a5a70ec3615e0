import QuantifiedComparison.Decimal.Numeral
import QuantifiedComparison.Text.Blank
import QuantifiedComparison.Value.Order

/-!
# Conversion to a declared type

NULL converts to NULL for every type, and a value to itself for its own. The other conversions are a
table of pairs of types; what it leaves out, and a text that does not have the form the type asks
for, is not convertible.
-/

namespace QuantifiedComparison.Value

/-- A whole double as an integer. The bounds are doubles too, and the upper one is one past the
greatest integer, which stands for it. -/
def integerOfFloat? (f : Float) : Option Int64 :=
  (Double.whole? f).bind fun n =>
    if n = Integer.bound then some Int64.maxValue else Integer.ofInt? n

def booleanOfText? (s : String) : Option Bool :=
  match Text.lower s with
  | "true" | "t" | "yes" | "y" | "1" => some true
  | "false" | "f" | "no" | "n" | "0" => some false
  | _ => none

/-- Ten bytes with two dashes among them; the digits are not looked at. -/
def isDate (s : String) : Bool :=
  s.utf8ByteSize = 10 && s.toList.count '-' = 2

def isTimestamp (s : String) : Bool :=
  s.toList.contains '-' && s.toList.contains ':'

def midnight (date : String) : String :=
  date ++ " 00:00:00"

def convert? : Value → ColumnType → Option Value
  | null, _ => some null
  | integer i, .integer => some (integer i)
  | integer i, .float => some (float (Double.ofInteger i))
  | integer i, .text => some (text (Integer.text i))
  | integer i, .boolean => some (boolean (i ≠ 0))
  | float f, .float => some (float f)
  | float f, .integer => (integerOfFloat? f).map integer
  | float f, .text => some (text (Double.text f))
  | float f, .boolean => some (boolean (!(f == 0.0)))
  | text s, .text => some (text s)
  | text s, .integer => (Integer.ofText? (Text.trim s.toList)).map integer
  | text s, .float => (Numeral.toFloat? (Text.trim s.toList)).map float
  | text s, .boolean => (booleanOfText? s).map boolean
  | text s, .date => if isDate s then some (date s) else none
  | text s, .timestamp => if isTimestamp s then some (timestamp s) else none
  | text s, .blob => (Text.Hex.decode? s.toList).map blob
  | boolean b, .boolean => some (boolean b)
  | boolean b, .integer => some (integer (if b then 1 else 0))
  | boolean b, .float => some (float (if b then 1.0 else 0.0))
  | boolean b, .text => some (text (if b then "true" else "false"))
  | date s, .date => some (date s)
  | date s, .text => some (text s)
  | date s, .timestamp => some (timestamp (midnight s))
  | timestamp s, .timestamp => some (timestamp s)
  | timestamp s, .text => some (text s)
  | timestamp s, .date => some (date (dayOf s))
  | blob bytes, .blob => some (blob bytes)
  | blob bytes, .text => some (text (String.ofList (Text.Hex.encode bytes)))
  | _, _ => none

def convert (v : Value) (t : ColumnType) : Except Error Value :=
  match v.convert? t with
  | some w => .ok w
  | none => .error (.notConvertible v t)

end QuantifiedComparison.Value
