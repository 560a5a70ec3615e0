/-!
# Documents

Data as it is exchanged with other programs: a tree of named and listed parts.
-/

namespace QuantifiedComparison

inductive Document
  | null
  | boolean (b : Bool)
  | integer (n : Int)
  | decimal (f : Float)
  | text (s : String)
  | list (parts : List Document)
  | object (fields : List (String × Document))
deriving Inhabited

namespace Document

/-- The field of that name; of several, the last. -/
def field? (name : String) : Document → Option Document
  | object fields => (fields.reverse.find? (·.1 = name)).map (·.2)
  | _ => none

def boolean? : Document → Option Bool
  | boolean b => some b
  | _ => none

def text? : Document → Option String
  | text s => some s
  | _ => none

/-- A choice of one of several names is the name alone, or an object that gives it the field. -/
def choice? : Document → Option (String × Option Document)
  | text s => some (s, none)
  | object [(name, d)] => some (name, some d)
  | _ => none

end Document

end QuantifiedComparison
