import QuantifiedComparison.Error

/-!
# Attempts

A change that may stop half-way keeps what it has changed so far. An attempt holds what the change
left behind, and the error that stopped it.
-/

namespace QuantifiedComparison

structure Attempt (α : Type) where
  after : α
  error : Option Error := none

namespace Attempt

variable {α β : Type}

def map (f : α → β) (t : Attempt α) : Attempt β :=
  ⟨f t.after, t.error⟩

/-- A change made to each element in turn; from the one that stops it on, the rest is kept. -/
def each (change : α → Attempt α) : List α → Attempt (List α)
  | [] => ⟨[], none⟩
  | a :: as =>
    let t := change a
    match t.error with
    | some e => ⟨t.after :: as, some e⟩
    | none => (each change as).map (t.after :: ·)

end Attempt

end QuantifiedComparison
