import QuantifiedComparison.NullRowPolicy

/-!
# Settings

The switches for the ways to evaluate a predicate, read from pairs of a key and a value. Keys and
values are taken in any case; the first pair that cannot be read stops the reading.
-/

namespace QuantifiedComparison

structure Settings where
  /-- Whether an equality with ANY may look its value up among the distinct rows. -/
  useLookup : Bool := true
  /-- Whether `column IN query` may become a condition on the column's index. -/
  usePushdown : Bool := true
  nullRows : NullRowPolicy := .demote
deriving DecidableEq, Repr

namespace Settings

def flag (key value : String) : Except Error Bool :=
  match Text.lower value with
  | "true" | "1" => .ok true
  | "false" | "0" => .ok false
  | _ => .error (.notAFlag key value)

def set (s : Settings) (key value : String) : Except Error Settings :=
  match Text.upper key with
  | "OPTIMIZE_IN_SELECT" => (flag key value).map fun b => { s with useLookup := b }
  | "OPTIMIZE_IN_LIST" => (flag key value).map fun b => { s with usePushdown := b }
  | "NULL_ROW_POLICY" =>
    match NullRowPolicy.ofName value with
    | .ok p => .ok { s with nullRows := p }
    | .error n => .error (.unknownPolicy n)
  | _ => .error (.unknownSetting key)

/-- The defaults, changed by each pair in turn. -/
def ofPairs (pairs : List (String × String)) : Except Error Settings :=
  pairs.foldlM (fun s p => s.set p.1 p.2) {}

end Settings

end QuantifiedComparison
