/-!
# Quoted text

A text between single quotes, in which a quote of the text itself is written twice.
-/

namespace QuantifiedComparison.Text.Quoted

def quote : Char := '\x27'

/-- The characters between the quotes. -/
def body (cs : List Char) : List Char :=
  cs.flatMap fun c => if c = quote then [quote, quote] else [c]

def encode (s : String) : String :=
  String.ofList (quote :: body s.toList ++ [quote])

end QuantifiedComparison.Text.Quoted
