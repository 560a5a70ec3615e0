/-!
# Numbers written in decimal digits

Only the digits of ASCII count. A number has at least one, and may begin with a sign.
-/

namespace QuantifiedComparison.Text

def natural? (cs : List Char) : Option Nat :=
  if cs ≠ [] ∧ cs.all Char.isDigit then some (Nat.ofDigitChars 10 cs 0) else none

def integer? : List Char → Option Int
  | '+' :: cs => (natural? cs).map fun n => (n : Int)
  | '-' :: cs => (natural? cs).map fun n => -(n : Int)
  | cs => (natural? cs).map fun n => (n : Int)

end QuantifiedComparison.Text
