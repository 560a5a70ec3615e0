/-!
# Arithmetic operators
-/

namespace QuantifiedComparison

inductive Arithmetic
  | add
  | subtract
  | multiply
  | divide
deriving DecidableEq, Repr

def Arithmetic.symbol : Arithmetic → String
  | add => "+"
  | subtract => "-"
  | multiply => "*"
  | divide => "/"

end QuantifiedComparison
