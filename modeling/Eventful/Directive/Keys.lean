import Eventful.Page.Event
import Eventful.Text.Casing

/-
  Eventful.Directive.Keys — the key names of a directive and the keys they accept.

  A name of a modifier key (`ctrl`, `cmd`, …) asks for the key to be held. Any other name
  accepts a reported key if an alias of the name is that key, if the key in kebab case is
  the name's canonical spelling, or if the two are equal but for ASCII case. A filter
  wants all its modifier keys held and, from a keyboard event, one of its other keys.
-/

namespace Eventful.Directive

open Page

inductive ModifierKey where
  | ctrl | shift | alt | super
  deriving Repr, DecidableEq

/-- The modifier key of a name. -/
def ModifierKey.ofName? (name : String) : Option ModifierKey :=
  match Text.lower name with
  | "ctrl" | "control" => some .ctrl
  | "shift" => some .shift
  | "alt" | "option" => some .alt
  | "meta" | "cmd" | "command" | "super" => some .super
  | _ => none

def ModifierKey.isHeld (h : Held) : ModifierKey → Bool
  | .ctrl => h.ctrl
  | .shift => h.shift
  | .alt => h.alt
  | .super => h.super

/-- Canonical names and the keys they stand for. -/
def keysOfName : List (String × List String) := [
  ("space", [" ", "Spacebar"]),
  ("enter", ["Enter"]),
  ("escape", ["Escape", "Esc"]),
  ("tab", ["Tab"]),
  ("backspace", ["Backspace"]),
  ("delete", ["Delete", "Del"]),
  ("arrow-up", ["ArrowUp", "Up"]),
  ("arrow-down", ["ArrowDown", "Down"]),
  ("arrow-left", ["ArrowLeft", "Left"]),
  ("arrow-right", ["ArrowRight", "Right"]),
  ("page-up", ["PageUp"]),
  ("page-down", ["PageDown"]),
  ("home", ["Home"]),
  ("end", ["End"]),
  ("period", ["."]),
  ("comma", [","]),
  ("slash", ["/"]),
  ("equal", ["="]),
  ("minus", ["-"])]

/-- Other spellings of canonical names. -/
def spellings : List (String × String) := [
  ("esc", "escape"),
  ("return", "enter"),
  ("spacebar", "space"),
  ("del", "delete"),
  ("up", "arrow-up"),
  ("down", "arrow-down"),
  ("left", "arrow-left"),
  ("right", "arrow-right")]

/-- Named keys without aliases that strict chains know. -/
def plainNames : List String := [
  "caps-lock", "insert", "context-menu", "num-lock", "scroll-lock", "pause",
  "print-screen", "dead", "unidentified"]

/-- The canonical spelling of a name in small letters. -/
def canonical (name : String) : String := (spellings.lookup name).getD name

/-- The keys that a name stands for by the table. -/
def aliases (name : String) : List String := (keysOfName.lookup (canonical (Text.lower name))).getD []

/-- `PageDown` as `page-down`: a hyphen before a capital that follows a small letter or a
    digit, and for an underscore. -/
def kebab (afterSmall : Bool) : List Char → List Char
  | [] => []
  | c :: cs =>
    let hyphen := if Text.isUppercase c && afterSmall then ['-'] else []
    let shown := if c == '_' then ['-'] else Text.toLower c
    hyphen ++ shown ++ kebab (Text.isLowercase c || c.isDigit) cs

def kebabCase (key : String) : String := String.ofList (kebab false key.toList)

/-- The declared name accepts the reported key. -/
def accepts (declared key : String) : Bool :=
  let declared := Text.lower declared
  (aliases declared).contains key || kebabCase key == canonical declared || Text.eqIgnoringCase key declared

/-- The number that digits with an optional plus write, if it fits a byte. -/
def byte? (cs : List Char) : Option Nat :=
  let digits := match cs with
    | '+' :: r => r
    | r => r
  if digits.isEmpty || !digits.all Char.isDigit then none
  else
    let n := digits.foldl (fun n c => n * 10 + (c.toNat - '0'.toNat)) 0
    if n < 256 then some n else none

/-- `f1` to `f24`. -/
def isFunctionKey (name : String) : Bool :=
  match name.toList with
  | 'f' :: digits => (byte? digits).any fun n => 1 ≤ n && n ≤ 24
  | _ => false

/-- A name that strict chains take as a key. -/
def isKnownKey (name : String) : Bool :=
  let name := Text.lower name
  (ModifierKey.ofName? name).isSome || !(aliases name).isEmpty || name.length == 1
    || plainNames.contains name || isFunctionKey name

structure KeyFilter where
  keys : List String
  held : List ModifierKey
  deriving Repr, DecidableEq

namespace KeyFilter

/-- Sorts one more name in; a modifier key counts once. -/
def add (f : KeyFilter) (name : String) : KeyFilter :=
  match ModifierKey.ofName? name with
  | some m => if f.held.contains m then f else { f with held := f.held ++ [m] }
  | none => { f with keys := f.keys ++ [Text.lower name] }

def ofNames (names : List String) : KeyFilter := names.foldl add ⟨[], []⟩

def isEmpty (f : KeyFilter) : Bool := f.keys.isEmpty && f.held.isEmpty

/-- All modifier keys are held, and if other keys are declared and the event has a key, it
    is one of them. -/
def passes (f : KeyFilter) (e : Event) : Bool :=
  f.held.all (·.isHeld e.held) &&
    (f.keys.isEmpty || match e.key? with
      | some key => f.keys.any (accepts · key)
      | none => true)

end KeyFilter
end Eventful.Directive
