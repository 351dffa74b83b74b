import Eventful.Directive.Config
import Eventful.Directive.Modifier

/-
  Eventful.Directive.Basic — an attribute read as an event directive.

  `x-on:click.prevent`, `on:keydown.enter` and `@click` are directives. The event name
  runs from the beginning that the configuration knows up to the first dot; the modifier
  chain follows it, and the attribute's value is the expression.
-/

namespace Eventful

structure Directive where
  /-- The attribute name as written. -/
  attr : String
  event : String
  modifiers : List Directive.Modifier
  expression : String
  deriving Repr, DecidableEq

namespace Directive

/-- The text after a given beginning. -/
def after? (beginning s : String) : Option String :=
  (beginning.toList.isPrefixOf? s.toList).map String.ofList

/-- What follows the first beginning of the configuration that the attribute has. -/
def rest? (c : Config) (attr : String) : Option String :=
  let short := if c.shorthand == "" then [] else [c.shorthand]
  (c.prefixes ++ short).findSome? (after? · attr)

def isDirective (c : Config) (attr : String) : Bool := (rest? c attr).isSome

/-- The event name and the chain after its first dot. -/
def splitName (rest : String) : String × String :=
  let cs := rest.toList
  (String.ofList (cs.takeWhile (· != '.')), String.ofList ((cs.dropWhile (· != '.')).drop 1))

def parse (c : Config) (attr expression : String) : Except Error Directive :=
  match rest? c attr with
  | none => .error (.notADirective attr)
  | some rest =>
    let (event, chain) := splitName rest
    if event == "" then .error (.noEventName attr)
    else
      (readChain (if c.strictModifiers then some attr else none) chain).map fun modifiers =>
        ⟨attr, event, modifiers, expression⟩

def summary (d : Directive) : Summary := .ofModifiers d.modifiers

end Directive
end Eventful
