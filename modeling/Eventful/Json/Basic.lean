/-
  Eventful.Json.Basic — JSON documents as written.

  A numeral stays the text it is and an object keeps its members in order with repetitions.
  A string with half a surrogate pair is kept apart, and so is an object with a member of
  such a name: they are well-formed but have no value.
-/

namespace Eventful

inductive Json where
  | null
  | boolean (b : Bool)
  | numeral (text : String)
  | text (s : String)
  | broken
  | array (items : List Json)
  | object (members : List (String × Json))

instance : Inhabited Json := ⟨.null⟩

namespace Json

/-- The member of an object, the last one of that name. -/
def member? (name : String) : Json → Option Json
  | .object ms => (ms.reverse.find? (·.1 == name)).map (·.2)
  | _ => none

def text? : Json → Option String
  | .text s => some s
  | _ => none

def boolean? : Json → Option Bool
  | .boolean b => some b
  | _ => none

def items? : Json → Option (List Json)
  | .array xs => some xs
  | _ => none

/-- The natural number that a numeral without sign, fraction and exponent writes. -/
def natural? : Json → Option Nat
  | .numeral s => if s.toList.all Char.isDigit then s.toNat? else none
  | _ => none

end Json
end Eventful
