import QuantifiedComparison.Decimal
import QuantifiedComparison.Text.Digits

/-!
# Numerals

The written forms of a double: digits with an optional point and exponent, infinity and
not-a-number, each after an optional sign. The point may stand first or last, but not alone.
-/

namespace QuantifiedComparison

inductive Magnitude
  | finite (d : Decimal)
  | infinite
  | notANumber
deriving DecidableEq, Repr

namespace Magnitude

def exponent? : List Char → Option Int
  | [] => some 0
  | c :: cs => if c = 'e' ∨ c = 'E' then Text.integer? cs else none

/-- The digits after a point, if there is one, and what follows. -/
def fraction : List Char → List Char × List Char
  | '.' :: cs => (cs.takeWhile Char.isDigit, cs.dropWhile Char.isDigit)
  | cs => ([], cs)

def digits? (cs : List Char) : Option Decimal := do
  let whole := cs.takeWhile Char.isDigit
  let (places, rest) := fraction (cs.dropWhile Char.isDigit)
  let coefficient ← Text.natural? (whole ++ places)
  let exponent ← exponent? rest
  return ⟨coefficient, exponent - places.length⟩

def ofChars? (cs : List Char) : Option Magnitude :=
  match String.ofList (cs.map Char.toLower) with
  | "inf" => some infinite
  | "infinity" => some infinite
  | "nan" => some notANumber
  | _ => (digits? cs).map finite

def toFloat : Magnitude → Float
  | finite d => d.toFloat
  | infinite => 1.0 / 0.0
  | notANumber => 0.0 / 0.0

end Magnitude

/-- The double that a whole text writes. -/
def Numeral.toFloat? : List Char → Option Float
  | '+' :: cs => (Magnitude.ofChars? cs).map Magnitude.toFloat
  | '-' :: cs => (Magnitude.ofChars? cs).map fun m => -m.toFloat
  | cs => (Magnitude.ofChars? cs).map Magnitude.toFloat

end QuantifiedComparison
