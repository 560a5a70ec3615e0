import QuantifiedComparison.Error

/-!
# The order of values

NULL comes before every value. Values of one type have their natural order, but blobs are only ever
equal or not. An integer compares with a double as the double nearest to it, and a date with a
timestamp as the timestamp's day. Nothing else is comparable.
-/

namespace QuantifiedComparison.Value

/-- The part of a timestamp before its first blank. -/
def dayOf (timestamp : String) : String :=
  String.ofList (timestamp.toList.takeWhile (· ≠ ' '))

def compare? : Value → Value → Option Ordering
  | null, null => some .eq
  | null, _ => some .lt
  | _, null => some .gt
  | integer a, integer b => some (compare a.toInt b.toInt)
  | float a, float b => Double.compare? a b
  | integer a, float b => Double.compare? (Double.ofInteger a) b
  | float a, integer b => Double.compare? a (Double.ofInteger b)
  | text a, text b => some (compare a b)
  | boolean a, boolean b => some (compare a b)
  | date a, date b => some (compare a b)
  | timestamp a, timestamp b => some (compare a b)
  | date a, timestamp b => some (compare a (dayOf b))
  | timestamp a, date b => some (compare (dayOf a) b)
  | blob a, blob b => if a = b then some .eq else none
  | _, _ => none

/-- The order of two values, or the types that have none. -/
def order (a b : Value) : Except Error Ordering :=
  match a.compare? b with
  | some o => .ok o
  | none => .error (.incomparable a.type b.type)

end QuantifiedComparison.Value
