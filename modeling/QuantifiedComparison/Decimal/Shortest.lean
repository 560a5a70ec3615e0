import QuantifiedComparison.Decimal

/-!
# The shortest decimal that rounds to a double

The numbers that round to `mantissa · 2 ^ exponent` lie between the midpoints to the two
neighbouring doubles, the midpoints included if the mantissa is even. Below a power of two the
neighbour is half as far away. Of the decimals in that interval the shortest are those on the
coarsest grid of powers of ten that has any, and of those the nearest is taken; the greater one if
two are equally near.

All quantities are natural numbers over one denominator, so nothing is rounded on the way.
-/

namespace QuantifiedComparison.Decimal

/-- The numbers that round to one double, as natural numbers over `unit`. -/
structure Neighbourhood where
  low : Nat
  value : Nat
  high : Nat
  unit : Nat
  /-- Whether the two ends round to the double as well. -/
  closed : Bool

namespace Neighbourhood

/-- The smallest exponent of a double. -/
def leastExponent : Int := -1074

/-- The mantissa from which on a double has all its 53 bits. -/
def leastNormal : Nat := Nat.pow 2 52

def ofDouble (mantissa : Nat) (exponent : Int) : Neighbourhood :=
  let scale := Nat.pow 2 (exponent - 2).toNat
  let below := if mantissa = leastNormal ∧ leastExponent < exponent then 1 else 2
  { low := (4 * mantissa - below) * scale
    value := 4 * mantissa * scale
    high := (4 * mantissa + 2) * scale
    unit := Nat.pow 2 (2 - exponent).toNat
    closed := mantissa % 2 = 0 }

/-- Whether `n / unit` rounds to the double. -/
def contains (h : Neighbourhood) (n : Nat) : Bool :=
  if h.closed then h.low ≤ n && n ≤ h.high else h.low < n && n < h.high

/-- The same numbers counted in units of `10 ^ power`. -/
def inTens (h : Neighbourhood) (power : Int) : Neighbourhood :=
  let up := Nat.pow 10 (-power).toNat
  { low := h.low * up
    value := h.value * up
    high := h.high * up
    unit := h.unit * Nat.pow 10 power.toNat
    closed := h.closed }

/-- The whole number of units nearest to the double, of the two around it that round to it. -/
def nearest? (h : Neighbourhood) : Option Nat :=
  let floor := h.value / h.unit
  let below := h.contains (floor * h.unit)
  let above := h.contains ((floor + 1) * h.unit)
  if below && above then
    some (if 2 * (h.value % h.unit) < h.unit then floor else floor + 1)
  else if below then some floor
  else if above then some (floor + 1)
  else none

end Neighbourhood

/-- A power of ten above every number below `2 ^ bits`, by 30103/100000 for the logarithm of 2. -/
def powerAbove (bits : Int) : Int :=
  bits * 30103 / 100000 + 2

/-- Seventeen digits tell every double from its neighbours, so one of these grids has a hit. -/
def shortest (mantissa : Nat) (exponent : Int) : Decimal :=
  let h := Neighbourhood.ofDouble mantissa exponent
  let top := powerAbove (mantissa.log2 + 1 + exponent)
  let hits := (List.range 22).findSome? fun (i : Nat) =>
    let power := top - i
    (h.inTens power).nearest?.map fun n => ⟨n, power⟩
  hits.getD ⟨mantissa, 0⟩

end QuantifiedComparison.Decimal
