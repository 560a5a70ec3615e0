import QuantifiedComparison.Value

/-!
# Equality of values

Two values are equal if they have the same type and the same datum, where the two zeros are one
number and not-a-number equals nothing. NULL equals NULL here: this is the equality of distinct
rows, not that of SQL.

A set of values files each under its `canonical` form and compares it only with those filed there.
Equal values have one canonical form, so `isAmong` finds every equal value.
-/

namespace QuantifiedComparison

namespace Value

def equals : Value → Value → Bool
  | null, null => true
  | integer a, integer b => a == b
  | float a, float b => a == b
  | text a, text b => a == b
  | boolean a, boolean b => a == b
  | date a, date b => a == b
  | timestamp a, timestamp b => a == b
  | blob a, blob b => a == b
  | _, _ => false

def canonical : Value → Value
  | float f => float (Double.canonical f)
  | v => v

/-- Whether a set of the values has one equal to `v`. -/
def isAmong (v : Value) (values : List Value) : Bool :=
  (values.filter (·.canonical = v.canonical)).any (·.equals v)

end Value

namespace Row

/-- Equal in width and value by value. -/
def equals : Row → Row → Bool
  | [], [] => true
  | v :: r, w :: s => v.equals w && equals r s
  | _, _ => false

def canonical (r : Row) : Row :=
  r.map Value.canonical

/-- Whether a set of the rows has one equal to `r`. -/
def isAmong (r : Row) (rows : List Row) : Bool :=
  (rows.filter (canonical · = canonical r)).any (equals · r)

end Row

end QuantifiedComparison
