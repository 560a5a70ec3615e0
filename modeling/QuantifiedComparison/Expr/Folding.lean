import QuantifiedComparison.Arithmetic.Outcome
import QuantifiedComparison.Attempt
import QuantifiedComparison.Expr

/-!
# Folding

An operation on two literals is replaced by its outcome, from the leaves up. One that fails stays as
it is and stops the folding.
-/

namespace QuantifiedComparison.Expr

/-- The operation on two folded operands. -/
def foldNode (o : Arithmetic) (l r : Expr) : Attempt Expr :=
  match l, r with
  | literal v, literal w =>
    match o.outcome v w with
    | .ok u => ⟨literal u, none⟩
    | .error e => ⟨binary o l r, some e⟩
  | _, _ => ⟨binary o l r, none⟩

def fold : Expr → Attempt Expr
  | binary o l r =>
    let left := l.fold
    match left.error with
    | some e => ⟨binary o left.after r, some e⟩
    | none =>
      let right := r.fold
      match right.error with
      | some e => ⟨binary o left.after right.after, some e⟩
      | none => foldNode o left.after right.after
  | e => ⟨e, none⟩

end QuantifiedComparison.Expr
