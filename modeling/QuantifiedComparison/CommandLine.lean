import QuantifiedComparison.CommandLine.Arguments
import QuantifiedComparison.Predicate.Evaluation

/-!
# The command line

Evaluates one predicate over a list of values, and prints the predicate and its truth.
-/

namespace QuantifiedComparison.CommandLine

/-- The text between quotes, if the whole text is that. A quote inside is left as it is. -/
def unquoted? (cs : List Char) : Option (List Char) :=
  match cs with
  | c :: rest =>
    if c = Text.Quoted.quote ∧ rest.getLast? = some Text.Quoted.quote then some rest.dropLast
    else none
  | [] => none

def word (cs : List Char) : Value :=
  let s := String.ofList cs
  match Text.lower s with
  | "true" => .boolean true
  | "false" => .boolean false
  | "null" => .null
  | _ => .text s

/-- The first that the text reads as: an integer, a double, a quoted text, a word. -/
def valueOf (s : List Char) : Value :=
  let cs := Text.trim s
  match Integer.ofText? cs with
  | some i => .integer i
  | none =>
    match Numeral.toFloat? cs with
    | some f => .float f
    | none =>
      match unquoted? cs with
      | some t => .text (String.ofList t)
      | none => word cs

/-- The values between commas; a blank text has none. -/
def valuesOf (s : String) : List Value :=
  if Text.trim s.toList = [] then [] else (s.toList.splitOn ',').map valueOf

/-- How a run of the program ends. -/
inductive Outcome
  | printed (text : String)
  /-- The request cannot be carried out; the text goes to the error output. -/
  | failed (text : String)
  /-- The arguments are not understood. -/
  | refused
deriving DecidableEq, Repr

def failure (reason : String) : String :=
  "Error: " ++ reason ++ "\n"

/-- A failure with the error that caused it on lines of its own, which may be empty. -/
def failureBy (reason : String) (cause : Error) : String :=
  let lines := cause.message.toList.splitOn '\n'
  failure (reason ++ "\n\nCaused by:\n" ++ Text.indented lines)

def predicateOf (w : QuantifierWord) (left : Expr) (c : Comparison) : Except String Predicate :=
  match w with
  | .isIn =>
    if c = .equal then .ok (.isIn left 0) else .error (failure "IN only supports the = operator")
  | .quantified quantifier => .ok { left, query := 0, quantifier, comparison := c }

def nameOr {α : Type} (r : Except UnknownName α) : Except String α :=
  r.mapError fun n => failure n.message

/-- The predicate and its truth, or what is printed on failure. -/
def Request.evaluate (r : Request) : Except String String := do
  let comparison ← nameOr (Comparison.ofSymbol r.op)
  let type ← nameOr (ColumnType.ofName r.type)
  let plan := Plan.values (.ofValues "v" type (valuesOf r.rows))
  let predicate ← predicateOf r.quantifier (.literal (valueOf r.left.toList)) comparison
  let optimized := predicate.optimize plan
  if let some e := optimized.error then
    throw (failureBy "Failed to prepare predicate" e)
  let (predicate, plan) := optimized.after
  let settings : Settings :=
    { useLookup := !r.slow, nullRows := if r.certifyCounterexample then .certify else .demote }
  let run := predicate.evaluate plan { settings } {}
  let value ← run.outcome.mapError (failureBy "Failed to evaluate predicate")
  let truth ← (Truth.ofValue value).mapError fun e => failure e.message
  return predicate.text plan ++ "\n" ++ truth.name ++ "\n"

def run (args : List String) : Outcome :=
  match Request.ofArguments args with
  | none => .refused
  | some r =>
    match r.evaluate with
    | .ok text => .printed text
    | .error text => .failed text

end QuantifiedComparison.CommandLine
