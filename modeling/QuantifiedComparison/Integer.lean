import QuantifiedComparison.Text.Digits

/-!
# Integers of 64 bits

An integer has a value from `-2 ^ 63` to `2 ^ 63 - 1`. Arithmetic on integers is arithmetic on their
values, which `ofInt?` brings back where it can.
-/

namespace QuantifiedComparison.Integer

/-- One past the greatest value, `2 ^ 63`. -/
def bound : Int := 9223372036854775808

/-- The integer with value `n`, if `n` is in range. -/
def ofInt? (n : Int) : Option Int64 :=
  if -bound ≤ n ∧ n < bound then some (Int64.ofInt n) else none

theorem ofInt?_eq_some_iff {n : Int} {i : Int64} : ofInt? n = some i ↔ i.toInt = n := by
  have hlo := i.le_toInt
  have hhi := i.toInt_lt
  unfold ofInt? bound
  constructor
  · intro h
    split at h
    · rename_i hn
      obtain rfl := Option.some.inj h
      exact Int64.toInt_ofInt_of_le (by omega) (by omega)
    · cases h
  · rintro rfl
    rw [if_pos (by omega), Int64.ofInt_toInt]

theorem ofInt?_eq_none_iff {n : Int} : ofInt? n = none ↔ n < -bound ∨ bound ≤ n := by
  unfold ofInt?
  split
  · exact iff_of_false nofun (by omega)
  · exact iff_of_true rfl (by omega)

def ofText? (cs : List Char) : Option Int64 :=
  (Text.integer? cs).bind ofInt?

def text (i : Int64) : String :=
  toString i.toInt

end QuantifiedComparison.Integer
