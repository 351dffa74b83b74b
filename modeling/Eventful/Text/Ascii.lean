/-
  Eventful.Text.Ascii — case of the letters A to Z alone.
-/

namespace Eventful.Text

/-- The text with A to Z made small. -/
def lower (s : String) : String := String.ofList (s.toList.map Char.toLower)

/-- Equal but for the case of A to Z. -/
def eqIgnoringCase (a b : String) : Bool := lower a == lower b

end Eventful.Text
