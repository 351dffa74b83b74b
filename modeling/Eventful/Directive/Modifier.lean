import Eventful.Directive.Error
import Eventful.Directive.Keys

/-
  Eventful.Directive.Modifier — the modifier chain of a directive.

  The words between dots are read from left to right in small letters, empty ones left
  out. A control word is a modifier of its own; a duration (`100ms`, `2s`, a bare number)
  refines a `debounce` right before it; a bare number anywhere else and any other word is
  a key name. A stray duration is dropped, in a strict chain it is refused, as is a word
  that no key has. What a binding does depends on the `Summary` alone.
-/

namespace Eventful.Directive

inductive Modifier where
  | stop | prevent | window | document | outside | once
  /-- A wait in milliseconds, or the default one. -/
  | debounce (wait : Option Nat)
  | key (name : String)
  deriving Repr, DecidableEq

def controlWord? : String → Option Modifier
  | "stop" => some .stop
  | "prevent" => some .prevent
  | "window" => some .window
  | "document" => some .document
  | "outside" | "away" => some .outside
  | "once" => some .once
  | "debounce" => some (.debounce none)
  | _ => none

/-- What a word that is no control word looks like; durations in milliseconds. -/
inductive Word where
  | duration (wait : Nat)
  | number (n : Nat)
  | other
  deriving Repr, DecidableEq

/-- The number that digits alone write, if it fits 64 bits. -/
def count? (cs : List Char) : Option Nat :=
  if cs.isEmpty || !cs.all Char.isDigit then none
  else
    let n := cs.foldl (fun n c => n * 10 + (c.toNat - '0'.toNat)) 0
    if n < UInt64.size then some n else none

/-- The text before a given ending. -/
def before? (ending cs : List Char) : Option (List Char) :=
  (ending.reverse.isPrefixOf? cs.reverse).map List.reverse

def Word.ofText (s : String) : Word :=
  let cs := s.toList
  match (before? ['m', 's'] cs).bind count? with
  | some n => .duration n
  | none =>
    match (before? ['s'] cs).bind count? with
    | some n => .duration (n * 1000)
    | none =>
      match count? cs with
      | some n => .number n
      | none => .other

/-- The wait that a word gives to a `debounce` right before it. -/
def Word.wait? : Word → Option Nat
  | .duration n | .number n => some n
  | .other => none

/-- One more word after the modifiers `read`, last first. `strict` names the directive in
    a strict chain. -/
def readWord (strict : Option String) (read : List Modifier) (word : String) : Except Error (List Modifier) :=
  match controlWord? word with
  | some m => .ok (m :: read)
  | none =>
    let w := Word.ofText word
    match w.wait?, read with
    | some n, .debounce none :: rest => .ok (.debounce (some n) :: rest)
    | _, _ =>
      match w, strict with
      | .duration _, some attr => .error (.unknownModifier word attr)
      | .duration _, none => .ok read
      | .number _, _ => .ok (.key word :: read)
      | .other, some attr =>
        if isKnownKey word then .ok (.key word :: read) else .error (.unknownModifier word attr)
      | .other, none => .ok (.key word :: read)

/-- The non-empty words of a chain in small letters. -/
def wordsOf (raw : String) : List String := (((raw.toList.splitOn '.').map String.ofList).filter (· != "")).map Text.lower

def readWords (strict : Option String) (read : List Modifier) : List String → Except Error (List Modifier)
  | [] => .ok read.reverse
  | w :: ws =>
    match readWord strict read w with
    | .error e => .error e
    | .ok read => readWords strict read ws

/-- The modifiers of a chain, the first one read first. -/
def readChain (strict : Option String) (raw : String) : Except Error (List Modifier) :=
  readWords strict [] (wordsOf raw)

/-- A permissive chain always reads. -/
def modifiersOf (raw : String) : List Modifier :=
  match readChain none raw with
  | .ok ms => ms
  | .error _ => []

/-- What a list of modifiers asks for, whatever its order. -/
structure Summary where
  stop : Bool
  prevent : Bool
  window : Bool
  document : Bool
  outside : Bool
  once : Bool
  /-- Whether there is a `debounce`, and the first wait given with one. -/
  debounce : Option (Option Nat)
  /-- Key names in order, each once. -/
  keys : List String
  deriving Repr, DecidableEq

namespace Summary

def empty : Summary := ⟨false, false, false, false, false, false, none, []⟩

def add (s : Summary) : Modifier → Summary
  | .stop => { s with stop := true }
  | .prevent => { s with prevent := true }
  | .window => { s with window := true }
  | .document => { s with document := true }
  | .outside => { s with outside := true }
  | .once => { s with once := true }
  | .debounce wait =>
    match s.debounce with
    | some (some _) => s
    | _ => { s with debounce := some wait }
  | .key name => if s.keys.contains name then s else { s with keys := s.keys ++ [name] }

def ofModifiers (ms : List Modifier) : Summary := ms.foldl add empty

/-- The wait of the binding, if it is debounced. -/
def wait? (s : Summary) (default : Nat) : Option Nat := s.debounce.map (·.getD default)

end Summary
end Eventful.Directive
