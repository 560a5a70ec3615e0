import QuantifiedComparison.Error

/-!
# Truth

The three truth values of a predicate. As a value, unknown is NULL.
-/

namespace QuantifiedComparison

inductive Truth
  | holds
  | fails
  | unknown
deriving DecidableEq, Repr

namespace Truth

def ofBool (b : Bool) : Truth :=
  if b then holds else fails

def name : Truth → String
  | holds => "TRUE"
  | fails => "FALSE"
  | unknown => "UNKNOWN"

def toValue : Truth → Value
  | holds => .boolean true
  | fails => .boolean false
  | unknown => .null

def ofValue : Value → Except Error Truth
  | .null => .ok unknown
  | .boolean b => .ok (ofBool b)
  | v => .error (.notBoolean v.type)

end Truth

end QuantifiedComparison
