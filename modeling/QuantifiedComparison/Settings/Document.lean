import QuantifiedComparison.Document
import QuantifiedComparison.Settings

/-!
# Settings as documents

An object with a field for each setting, or a list of them in a fixed order. A setting that is left
out has its default, and a field that is no setting is passed over.
-/

namespace QuantifiedComparison

/-- A policy's name, or an object with that name and no content. -/
def NullRowPolicy.ofDocument (d : Document) : Option NullRowPolicy := do
  let (name, content) ← d.choice?
  guard (content.all fun c => c matches .null)
  [demote, certify].find? (·.variant = name)

namespace Settings

def lookupField : String := "optimize_in_select"
def pushdownField : String := "optimize_in_list"
def nullRowsField : String := "null_row_policy"

/-- What `read` makes of a part, or the default where there is none. -/
def part {α : Type} (read : Document → Option α) (default : α) : Option Document → Option α
  | none => some default
  | some d => read d

def ofParts (lookup pushdown nullRows : Option Document) : Option Settings := do
  let defaults : Settings := {}
  let useLookup ← part Document.boolean? defaults.useLookup lookup
  let usePushdown ← part Document.boolean? defaults.usePushdown pushdown
  let nullRows ← part NullRowPolicy.ofDocument defaults.nullRows nullRows
  return { useLookup, usePushdown, nullRows }

def ofDocument (d : Document) : Option Settings :=
  match d with
  | .object _ => ofParts (d.field? lookupField) (d.field? pushdownField) (d.field? nullRowsField)
  | .list parts =>
    if parts.length ≤ 3 then ofParts parts[0]? parts[1]? parts[2]? else none
  | _ => none

def toDocument (s : Settings) : Document :=
  .object [(lookupField, .boolean s.useLookup), (pushdownField, .boolean s.usePushdown),
    (nullRowsField, .text s.nullRows.variant)]

end Settings

end QuantifiedComparison
