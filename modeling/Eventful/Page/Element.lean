import Eventful.Text.Ascii
import Eventful.Text.Blank

/-
  Eventful.Page.Element — an element's attributes and what scripts see of it.

  Attributes keep their order and have distinct names. The `id` and the classes are kept
  beside the attributes they come from; setting `checked` or `value` also sets the state
  of that name, which removing the attribute leaves alone.
-/

namespace Eventful.Page

/-- The offset box; an element that was never laid out has an empty one. -/
structure Box where
  top : Float
  left : Float
  width : Float
  height : Float

/-- The box of a size at the origin. -/
def Box.sized (width height : Float) : Box := ⟨0, 0, width, height⟩

def Box.empty : Box := .sized 0 0

/-- The box covers some area. -/
def Box.isVisible (b : Box) : Bool := b.width ≥ 1 || b.height ≥ 1

structure Element where
  /-- The tag, its ASCII letters small. -/
  tag : String
  attrs : List (String × String)
  id : Option String
  classes : List String
  box : Box
  checked : Bool
  value : String

namespace Element

def ofTag (tag : String) : Element := ⟨Text.lower tag, [], none, [], .empty, false, ""⟩

def attr? (e : Element) (name : String) : Option String := (e.attrs.find? (·.1 == name)).map (·.2)

/-- Writes an attribute in its old place, a new one at the end. -/
def putAttr (name value : String) : List (String × String) → List (String × String)
  | [] => [(name, value)]
  | (n, v) :: rest => if n == name then (n, value) :: rest else (n, v) :: putAttr name value rest

def setAttr (e : Element) (name value : String) : Element :=
  let e := match name with
    | "id" => { e with id := some value }
    | "class" => { e with classes := Text.words value }
    | "checked" => { e with checked := true }
    | "value" => { e with value := value }
    | _ => e
  { e with attrs := putAttr name value e.attrs }

/-- The value that was removed, if there was one. -/
def removeAttr (e : Element) (name : String) : Option String × Element :=
  match e.attr? name with
  | none => (none, e)
  | some old =>
    let e := match name with
      | "id" => { e with id := none }
      | "class" => { e with classes := [] }
      | _ => e
    (some old, { e with attrs := e.attrs.eraseP (·.1 == name) })

def hasClass (e : Element) (c : String) : Bool := e.classes.contains c

/-- Replaces the classes and writes the `class` attribute anew. -/
def withClasses (e : Element) (classes : List String) : Element :=
  { e with classes, attrs := putAttr "class" (" ".intercalate classes) e.attrs }

def addClass (e : Element) (c : String) : Element :=
  if e.hasClass c then e else e.withClasses (e.classes ++ [c])

def removeClass (e : Element) (c : String) : Element :=
  if e.hasClass c then e.withClasses (e.classes.filter (· != c)) else e

def setSize (e : Element) (width height : Float) : Element :=
  { e with box := { e.box with width, height } }

/-- `<input type="checkbox">` -/
def isCheckbox (e : Element) : Bool :=
  e.tag == "input" && (e.attr? "type").any (Text.eqIgnoringCase · "checkbox")

end Element
end Eventful.Page
