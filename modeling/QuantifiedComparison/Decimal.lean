/-!
# Decimal numbers

A decimal number is a count of units, each a power of ten. It can be written out in full, without an
exponent, and rounded to the nearest double.
-/

namespace QuantifiedComparison

/-- The number `coefficient · 10 ^ exponent`. -/
structure Decimal where
  coefficient : Nat
  exponent : Int
deriving DecidableEq, Repr

namespace Decimal

/-- The nearest double, of two the one with an even mantissa; past the largest, infinity. -/
def toFloat (d : Decimal) : Float :=
  Float.ofScientific d.coefficient (d.exponent < 0) d.exponent.natAbs

def zeros (n : Nat) : String :=
  String.ofList (List.replicate n '0')

/-- All digits of the number, and no point after a whole one. -/
def positional (d : Decimal) : String :=
  let digits := (toString d.coefficient).toList
  let places := (-d.exponent).toNat
  if places = 0 then String.ofList digits ++ zeros d.exponent.toNat
  else if places < digits.length then
    let whole := digits.length - places
    String.ofList (digits.take whole) ++ "." ++ String.ofList (digits.drop whole)
  else "0." ++ zeros (places - digits.length) ++ String.ofList digits

end Decimal

end QuantifiedComparison
