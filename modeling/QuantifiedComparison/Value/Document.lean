import QuantifiedComparison.Document
import QuantifiedComparison.Value

/-!
# Values as documents

A value is the choice of its type's name with the datum as content; NULL has no content.
-/

namespace QuantifiedComparison

def Document.double? : Document → Option Float
  | integer n => some (.ofModel (.ofInt n))
  | decimal f => some f
  | _ => none

def Document.byte? : Document → Option UInt8
  | integer n => if 0 ≤ n ∧ n < 256 then some (UInt8.ofNat n.toNat) else none
  | _ => none

namespace Value

def ofContent (name : String) (d : Document) : Option Value :=
  match name, d with
  | "Null", .null => some null
  | "Integer", .integer n => (Integer.ofInt? n).map integer
  | "Float", d => d.double?.map float
  | "Text", .text s => some (text s)
  | "Boolean", .boolean b => some (boolean b)
  | "Date", .text s => some (date s)
  | "Timestamp", .text s => some (timestamp s)
  | "Blob", .list parts => (parts.mapM Document.byte?).map blob
  | _, _ => none

def ofDocument (d : Document) : Option Value := do
  let (name, content) ← d.choice?
  match content with
  | some c => ofContent name c
  | none => if name = "Null" then some null else none

end Value

end QuantifiedComparison
