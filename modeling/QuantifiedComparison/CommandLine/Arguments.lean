import QuantifiedComparison.Quantifier

/-!
# Arguments of the command line

A parameter takes a value, either in the same argument (`--rows=1,2`, `-r=1,2`, `-r1,2`) or in the
next one, which then must not look like a parameter itself. A switch takes none. Each may be given
once, and nothing else may be given.
-/

namespace QuantifiedComparison.CommandLine

inductive Parameter
  | left
  | op
  | quantifier
  | rows
  | type
deriving DecidableEq, Repr

inductive Switch
  | slow
  | certifyCounterexample
deriving DecidableEq, Repr

def Parameter.ofLong (name : String) : Option Parameter :=
  match name with
  | "left" => some left
  | "op" => some op
  | "quantifier" => some quantifier
  | "rows" => some rows
  | "type" => some type
  | _ => none

def Parameter.ofShort : Char → Option Parameter
  | 'l' => some left
  | 'o' => some op
  | 'q' => some quantifier
  | 'r' => some rows
  | 't' => some type
  | _ => none

def Switch.ofLong (name : String) : Option Switch :=
  match name with
  | "slow" => some slow
  | "certify-counterexample" => some certifyCounterexample
  | _ => none

/-- What one argument says. -/
inductive Argument
  | switch (s : Switch)
  | setting (p : Parameter) (value : String)
  /-- A parameter whose value is the next argument. -/
  | opening (p : Parameter)
  /-- Two dashes: no parameter or switch follows. -/
  | stop
  | other
deriving DecidableEq, Repr

namespace Argument

/-- After two dashes: a name, and a value after the first equals sign. -/
def ofLong (cs : List Char) : Argument :=
  let name := String.ofList (cs.takeWhile (· ≠ '='))
  match Parameter.ofLong name, Switch.ofLong name, cs.dropWhile (· ≠ '=') with
  | some p, _, [] => opening p
  | some p, _, _ :: value => setting p (String.ofList value)
  | none, some s, [] => switch s
  | _, _, _ => other

/-- After one dash: a letter, and a value that may begin with an equals sign. -/
def ofShort (c : Char) (cs : List Char) : Argument :=
  match Parameter.ofShort c, cs with
  | some p, [] => opening p
  | some p, '=' :: value => setting p (String.ofList value)
  | some p, value => setting p (String.ofList value)
  | none, _ => other

def ofText (s : String) : Argument :=
  match s.toList with
  | ['-', '-'] => stop
  | '-' :: '-' :: cs => ofLong cs
  | '-' :: c :: cs => ofShort c cs
  | _ => other

end Argument

/-- Whether an argument can be the value of the parameter before it; a single dash can. -/
def isValue (s : String) : Bool :=
  match s.toList with
  | '-' :: _ :: _ => false
  | _ => true

structure Arguments where
  settings : List (Parameter × String) := []
  switches : List Switch := []

namespace Arguments

def value? (a : Arguments) (p : Parameter) : Option String :=
  a.settings.lookup p

def set (a : Arguments) (p : Parameter) (value : String) : Option Arguments :=
  if (a.value? p).isSome then none else some { a with settings := (p, value) :: a.settings }

def turnOn (a : Arguments) (s : Switch) : Option Arguments :=
  if a.switches.contains s then none else some { a with switches := s :: a.switches }

def read (a : Arguments) : List String → Option Arguments
  | [] => some a
  | arg :: rest =>
    match Argument.ofText arg with
    | .switch s => (a.turnOn s).bind fun b => b.read rest
    | .setting p value => (a.set p value).bind fun b => b.read rest
    | .opening p =>
      match rest with
      | value :: rest =>
        if isValue value then (a.set p value).bind fun b => b.read rest else none
      | [] => none
    | .stop => if rest = [] then some a else none
    | .other => none

end Arguments

/-- IN is a quantifier of its own on the command line. -/
inductive QuantifierWord
  | isIn
  | quantified (q : Quantifier)
deriving DecidableEq, Repr

def QuantifierWord.ofText (s : String) : Option QuantifierWord :=
  match s with
  | "in" => some isIn
  | "any" => some (quantified .any)
  | "all" => some (quantified .all)
  | _ => none

/-- What the command line asks for; everything but the left operand has a default. -/
structure Request where
  left : String
  op : String
  quantifier : QuantifierWord
  rows : String
  type : String
  slow : Bool
  certifyCounterexample : Bool

/-- The request of the arguments, unless they are refused. -/
def Request.ofArguments (args : List String) : Option Request := do
  let a ← Arguments.read {} args
  let left ← a.value? .left
  let quantifier ← QuantifierWord.ofText ((a.value? .quantifier).getD "in")
  return {
    left
    op := (a.value? .op).getD "="
    quantifier
    rows := (a.value? .rows).getD ""
    type := (a.value? .type).getD "INTEGER"
    slow := a.switches.contains .slow
    certifyCounterexample := a.switches.contains .certifyCounterexample }

end QuantifiedComparison.CommandLine
