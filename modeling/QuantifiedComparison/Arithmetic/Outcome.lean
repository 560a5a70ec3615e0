import QuantifiedComparison.Error

/-!
# The outcome of an arithmetic operation

NULL on either side gives NULL. Two integers give the exact integer, or overflow; a quotient is cut
off towards zero. If a double takes part the other operand becomes one. Division by a zero of either
type is refused.
-/

namespace QuantifiedComparison.Arithmetic

/-- The exact result; a divisor is not zero here. -/
def onIntegers (o : Arithmetic) (a b : Int) : Int :=
  match o with
  | add => a + b
  | subtract => a - b
  | multiply => a * b
  | divide => a.tdiv b

def onFloats (o : Arithmetic) (a b : Float) : Float :=
  match o with
  | add => a + b
  | subtract => a - b
  | multiply => a * b
  | divide => a / b

def integers (o : Arithmetic) (a b : Int64) : Except Error Value :=
  if o = divide ∧ b = 0 then .error .divisionByZero
  else
    match Integer.ofInt? (o.onIntegers a.toInt b.toInt) with
    | some i => .ok (.integer i)
    | none => .error .overflow

def floats (o : Arithmetic) (a b : Float) : Except Error Value :=
  if o = divide ∧ (b == 0.0) = true then .error .divisionByZero else .ok (.float (o.onFloats a b))

def outcome (o : Arithmetic) : Value → Value → Except Error Value
  | .null, _ => .ok .null
  | _, .null => .ok .null
  | .integer a, .integer b => o.integers a b
  | .float a, .float b => o.floats a b
  | .integer a, .float b => o.floats (Double.ofInteger a) b
  | .float a, .integer b => o.floats a (Double.ofInteger b)
  | _, _ => .error (.operands o)

end QuantifiedComparison.Arithmetic
