import QuantifiedComparison.Quantifier
import QuantifiedComparison.Text.Keyword
import QuantifiedComparison.Truth

/-!
# Null-row policies

What a scan that met NULL rows says when nothing proved its predicate.
-/

namespace QuantifiedComparison

inductive NullRowPolicy
  /-- Whatever is not proved is unknown, even an ALL with a counterexample. -/
  | demote
  /-- An ALL that is not proved has a counterexample and stays false. -/
  | certify
deriving DecidableEq, Repr

namespace NullRowPolicy

/-- The truth of a scan that ended with `result`. -/
def resolve (p : NullRowPolicy) (q : Quantifier) (result sawNull : Bool) : Truth :=
  if result || !sawNull then .ofBool result
  else
    match p, q with
    | certify, .all => .fails
    | _, _ => .unknown

def ofName (s : String) : Except UnknownName NullRowPolicy :=
  match Text.upper s with
  | "DEMOTE" | "DEMOTE_TO_UNKNOWN" => .ok demote
  | "CERTIFY" | "CERTIFY_COUNTEREXAMPLE" => .ok certify
  | _ => .error (.nullRowPolicy s)

/-- The name in a document, which is read as it is written. -/
def variant : NullRowPolicy → String
  | demote => "DemoteToUnknown"
  | certify => "CertifyCounterexample"

end NullRowPolicy

end QuantifiedComparison
