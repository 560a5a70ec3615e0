import QuantifiedComparison.Decimal.Shortest

/-!
# Doubles

What values need to know about a double: how it compares, whether it is a whole number and which
one, and how it is written.
-/

namespace QuantifiedComparison.Double

/-- The order of the numbers: the two zeros are equal, and not-a-number compares with nothing. -/
def compare? (a b : Float) : Option Ordering :=
  a.toModel.compare b.toModel

/-- The double nearest to an integer, of two the one with an even mantissa. -/
def ofInteger (i : Int64) : Float :=
  .ofModel (.ofInt64 i)

def signed (s : Float.Model.UnpackedFloat.Sign) (n : Nat) : Int :=
  match s with
  | .positive => n
  | .negative => -n

/-- The integer that the double is, if it is one. -/
def whole? (f : Float) : Option Int :=
  match f.toModel.unpack with
  | .zero _ => some 0
  | .finite s m e _ =>
    let unit := Nat.pow 2 (-e).toNat
    if 0 ≤ e then some (signed s (m * Nat.pow 2 e.toNat))
    else if m % unit = 0 then some (signed s (m / unit))
    else none
  | _ => none

def signText : Float.Model.UnpackedFloat.Sign → String
  | .positive => ""
  | .negative => "-"

/-- The shortest digits that read back, written out in full. -/
def text (f : Float) : String :=
  match f.toModel.unpack with
  | .notANumber => "NaN"
  | .infinity s => signText s ++ "inf"
  | .zero s => signText s ++ "0"
  | .finite s m e _ => signText s ++ (Decimal.shortest m e).positional

/-- One double for each class of equal ones, and one for all that are not a number. -/
def canonical (f : Float) : Float :=
  if f == 0.0 then 0.0 else if f.isNaN then 0.0 / 0.0 else f

end QuantifiedComparison.Double
