/-!
# Lines

A text cut after each line feed. A line that a line feed ends loses it, and with it one carriage
return before it; a text that ends in a line feed has no empty last line.
-/

namespace QuantifiedComparison.Text

def lines : List Char → List (List Char)
  | [] => []
  | '\n' :: cs => [] :: lines cs
  | '\x0d' :: '\n' :: cs => [] :: lines cs
  | c :: cs =>
    match lines cs with
    | [] => [[c]]
    | l :: ls => (c :: l) :: ls

/-- The lines one below the other, each after four blanks. -/
def indented (ls : List (List Char)) : String :=
  String.intercalate "\n" (ls.map fun l => "    " ++ String.ofList l)

end QuantifiedComparison.Text
