import QuantifiedComparison.CommandLine

/-!
# The program

Runs the command line: a request that fails ends with exit code 1, and arguments that are not
understood with 2.
-/

open QuantifiedComparison

def main (args : List String) : IO UInt32 := do
  match CommandLine.run args with
  | .printed text =>
    IO.print text
    return 0
  | .failed text =>
    IO.eprint text
    return 1
  | .refused =>
    IO.eprintln "usage: --left VALUE [--op OP] [--quantifier in|any|all] [--rows VALUES]"
    return 2
