import QuantifiedComparison.UnknownName

/-!
# Comparisons

The seven comparisons of two values, and the symbols they are written with.
-/

namespace QuantifiedComparison

/-- `identical` is the comparison that holds of two NULLs; on values it is `equal`. -/
inductive Comparison
  | equal
  | identical
  | unequal
  | less
  | lessEqual
  | greater
  | greaterEqual
deriving DecidableEq, Repr

namespace Comparison

def symbol : Comparison → String
  | equal => "="
  | identical => "<=>"
  | unequal => "<>"
  | less => "<"
  | lessEqual => "<="
  | greater => ">"
  | greaterEqual => ">="

def ofSymbol (s : String) : Except UnknownName Comparison :=
  match s with
  | "=" | "==" => .ok equal
  | "<=>" => .ok identical
  | "<>" | "!=" => .ok unequal
  | "<" => .ok less
  | "<=" => .ok lessEqual
  | ">" => .ok greater
  | ">=" => .ok greaterEqual
  | _ => .error (.comparison s)

/-- The comparisons that a lookup among distinct values can answer. -/
def isEquality : Comparison → Bool
  | equal | identical => true
  | _ => false

end Comparison

end QuantifiedComparison
