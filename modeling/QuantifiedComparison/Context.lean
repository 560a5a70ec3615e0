import QuantifiedComparison.Settings

/-!
# Contexts

What an evaluation is given: the settings, and the row on which each table filter stands.
-/

namespace QuantifiedComparison

structure Context where
  settings : Settings := {}
  /-- The current row of a filter, if it stands on one. -/
  rows : Nat → Option Row := fun _ => none

namespace Context

def position (c : Context) (filter : Nat) (row : Row) : Context :=
  { c with rows := fun f => if f = filter then some row else c.rows f }

def clear (c : Context) (filter : Nat) : Context :=
  { c with rows := fun f => if f = filter then none else c.rows f }

/-- The value of a column in the current row of a filter. -/
def value (c : Context) (filter index : Nat) : Except Error Value :=
  match c.rows filter with
  | none => .error (.notPositioned filter)
  | some row =>
    match row[index]? with
    | some v => .ok v
    | none => .error (.noSuchColumn index filter)

end Context

end QuantifiedComparison
