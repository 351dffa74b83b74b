import Eventful.Json.Parser
import Eventful.Number.Decimal
import Eventful.Text.Quoted

/-
  Eventful.Directive.Config — the settings of a directive runtime and their JSON form.

  An object gives settings by name (unknown names are ignored, a setting must not be given
  twice); an array gives the first of them in order. What is not given keeps its default;
  a value of the wrong kind refuses the whole configuration.
-/

namespace Eventful.Directive

/-- What to do with a directive that asks for both the window and the document. -/
inductive TargetConflict where
  | preferWindow
  | reject
  deriving Repr, DecidableEq

structure Config where
  /-- Long beginnings of directive attributes, tried in order. -/
  prefixes : List String
  /-- The short beginning; none if empty. -/
  shorthand : String
  /-- The wait of a `debounce` without duration, in milliseconds. -/
  defaultWait : Nat
  targetConflict : TargetConflict
  /-- Unknown modifiers are refused instead of read as key names. -/
  strictModifiers : Bool
  /-- Listeners of scrolling and pointer movement are passive unless they prevent. -/
  passiveHighFrequency : Bool
  deriving Repr, DecidableEq

namespace Config

def default : Config := ⟨["x-on:", "on:"], "@", 250, .preferWindow, false, true⟩

instance : Inhabited Config := ⟨default⟩

def conflict? (word : String) : Option TargetConflict :=
  if word == "prefer-window" then some .preferWindow
  else if word == "reject" then some .reject
  else none

/-- A policy is its name, or an object with its name alone and null. -/
def readConflict? : Json → Option TargetConflict
  | .text s => conflict? s
  | .object [(name, .null)] => conflict? name
  | _ => none

/-- A count of milliseconds that fits 64 bits. -/
def readWait? (j : Json) : Option Nat := j.natural?.filter (· < UInt64.size)

/-- The settings in the order of the array form. -/
def settings : List (String × (Json → Config → Option Config)) := [
  ("prefixes", fun j c => do
    let items ← j.items?
    return { c with prefixes := ← items.mapM Json.text? }),
  ("shorthand", fun j c => j.text?.map fun s => { c with shorthand := s }),
  ("default_debounce_ms", fun j c => (readWait? j).map fun n => { c with defaultWait := n }),
  ("target_conflict", fun j c => (readConflict? j).map fun p => { c with targetConflict := p }),
  ("strict_modifiers", fun j c => j.boolean?.map fun b => { c with strictModifiers := b }),
  ("passive_high_frequency", fun j c => j.boolean?.map fun b => { c with passiveHighFrequency := b })]

/-- Applies the members of an object; `given` are the settings already read. -/
def readMembers (given : List String) (c : Config) : List (String × Json) → Option Config
  | [] => some c
  | (name, j) :: rest =>
    match settings.find? (·.1 == name) with
    | none => readMembers given c rest
    | some (_, read) =>
      if given.contains name then none
      else match read j c with
        | none => none
        | some c => readMembers (name :: given) c rest

/-- Applies the items of an array to the settings in order. -/
def readItems (c : Config) : List (String × (Json → Config → Option Config)) → List Json → Option Config
  | _, [] => some c
  | [], _ :: _ => none
  | (_, read) :: rest, j :: items =>
    match read j c with
    | none => none
    | some c => readItems c rest items

def ofJson? : Json → Option Config
  | .object ms => readMembers [] default ms
  | .array xs => readItems default settings xs
  | _ => none

def ofText? (text : String) : Option Config := (Json.parse? text).bind ofJson?

def TargetConflict.label : TargetConflict → String
  | .preferWindow => "PreferWindow"
  | .reject => "Reject"

/-- The configuration in a report of a runtime. -/
def debug (c : Config) : String :=
  let bool (b : Bool) : String := if b then "true" else "false"
  "DirectiveConfig \x7b prefixes: [" ++ ", ".intercalate (c.prefixes.map Text.quote)
    ++ "], shorthand: " ++ Text.quote c.shorthand
    ++ ", default_debounce_ms: " ++ toString c.defaultWait
    ++ ", target_conflict: " ++ TargetConflict.label c.targetConflict
    ++ ", strict_modifiers: " ++ bool c.strictModifiers
    ++ ", passive_high_frequency: " ++ bool c.passiveHighFrequency ++ " \x7d"

end Config
end Eventful.Directive
