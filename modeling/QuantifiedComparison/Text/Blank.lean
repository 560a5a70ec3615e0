/-!
# Blanks

The characters with the Unicode property White_Space, and a text without the blanks at its ends.
-/

namespace QuantifiedComparison.Text

/-- The blanks past the control characters, in the order of their code points. -/
def blanks : List Char :=
  [' ', '\u0085', '\u00a0', '\u1680', '\u2000', '\u2001', '\u2002', '\u2003', '\u2004', '\u2005',
    '\u2006', '\u2007', '\u2008', '\u2009', '\u200a', '\u2028', '\u2029', '\u202f', '\u205f',
    '\u3000']

def isBlank (c : Char) : Bool :=
  ('\t' ≤ c && c ≤ '\x0d') || blanks.contains c

/-- The text without the blanks at either end. -/
def trim (cs : List Char) : List Char :=
  ((cs.dropWhile isBlank).reverse.dropWhile isBlank).reverse

end QuantifiedComparison.Text
