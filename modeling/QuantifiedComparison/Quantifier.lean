/-!
# Quantifiers
-/

namespace QuantifiedComparison

/-- Whether one row has to satisfy a comparison or every row. -/
inductive Quantifier
  | any
  | all
deriving DecidableEq, Repr

namespace Quantifier

/-- What holds of no rows at all, and of rows none of which decides. -/
def vacuous : Quantifier → Bool
  | any => false
  | all => true

def name : Quantifier → String
  | any => "ANY"
  | all => "ALL"

end Quantifier

end QuantifiedComparison
