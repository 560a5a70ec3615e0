/-!
# Names that stand for nothing

What is said of a text that should name a column type, a comparison or a null-row policy and names
none.
-/

namespace QuantifiedComparison

inductive UnknownName
  | columnType (text : String)
  | comparison (text : String)
  | nullRowPolicy (text : String)
deriving DecidableEq, Repr

def UnknownName.message : UnknownName → String
  | columnType s => "Unknown data type: " ++ s
  | comparison s => "Unknown comparison operator: " ++ s
  | nullRowPolicy s => "Unknown null row policy: " ++ s

end QuantifiedComparison
