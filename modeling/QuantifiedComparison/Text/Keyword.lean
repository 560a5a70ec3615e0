/-!
# Keywords in any case

A keyword is written in ASCII letters, but a text may spell it in either case, and Unicode has a few
characters outside ASCII whose other case is ASCII. `upper` and `lower` are exact on every text
whose changed form is ASCII; a character that no ASCII text comes from is left as it is.
-/

namespace QuantifiedComparison.Text

/-- The upper case of one character; a ligature has several. -/
def upperOf : Char → List Char
  | 'ı' => ['I']
  | 'ſ' => ['S']
  | 'ß' => ['S', 'S']
  | 'ﬀ' => ['F', 'F']
  | 'ﬁ' => ['F', 'I']
  | 'ﬂ' => ['F', 'L']
  | 'ﬃ' => ['F', 'F', 'I']
  | 'ﬄ' => ['F', 'F', 'L']
  | 'ﬅ' => ['S', 'T']
  | 'ﬆ' => ['S', 'T']
  | c => [c.toUpper]

/-- The lower case of one character; the Kelvin sign is a second capital `k`. -/
def lowerOf : Char → Char
  | '\u212a' => 'k'
  | c => c.toLower

def upper (s : String) : String :=
  String.ofList (s.toList.flatMap upperOf)

def lower (s : String) : String :=
  String.ofList (s.toList.map lowerOf)

/-- Equal up to the case of ASCII letters; no other character has a second case here. -/
def equalIgnoringCase (s t : String) : Bool :=
  s.toList.map Char.toLower == t.toList.map Char.toLower

end QuantifiedComparison.Text
