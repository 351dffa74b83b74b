import Eventful.Page.Tree

/-
  Eventful.Page.Event — events and what listeners may do to them.

  An event can be stopped, stopped at once (also for the listeners that remain on the
  same target) and prevented. Preventing counts only for a cancelable event and outside
  passive listeners.
-/

namespace Eventful.Page

/-- What listeners are attached to. -/
inductive Target where
  | window
  | document
  | node (n : NodeId)
  deriving Repr, DecidableEq

/-- The modifier keys held. -/
structure Held where
  shift : Bool
  ctrl : Bool
  alt : Bool
  super : Bool
  deriving Repr, DecidableEq

def Held.none : Held := ⟨false, false, false, false⟩

def Held.any (h : Held) : Bool := h.shift || h.ctrl || h.alt || h.super

inductive Button where
  | primary | auxiliary | secondary
  deriving Repr, DecidableEq

structure Mouse where
  x : Float
  y : Float
  button : Button
  held : Held

structure Keyboard where
  /-- The key as the platform reports it: `Enter`, a blank, `a`. -/
  key : String
  code : String
  held : Held
  repeated : Bool

/-- What an event carries. -/
inductive Detail where
  | plain
  | mouse (m : Mouse)
  | keyboard (k : Keyboard)
  /-- The value of a control. -/
  | input (value : String)
  | custom (detail : Option String)

inductive Phase where
  | none | capturing | atTarget | bubbling
  deriving Repr, DecidableEq

structure Event where
  name : String
  target : Target
  /-- The target whose listeners are running. -/
  current : Target
  phase : Phase
  bubbles : Bool
  cancelable : Bool
  detail : Detail
  time : Float
  prevented : Bool
  stopped : Bool
  stoppedAtOnce : Bool
  /-- The running listener is passive. -/
  passive : Bool

namespace Event

/-- A bubbling, cancelable event. -/
def new (name : String) (detail : Detail) : Event :=
  ⟨name, .document, .document, .none, true, true, detail, 0, false, false, false, false⟩

def custom (name : String) (detail : Option String) : Event :=
  { new name (.custom detail) with bubbles := false, cancelable := false }

def click : Event := new "click" (.mouse ⟨0, 0, .primary, .none⟩)

def keyDown (k : Keyboard) : Event := new "keydown" (.keyboard k)

def keyUp (k : Keyboard) : Event := new "keyup" (.keyboard k)

/-- Bubbles and is not cancelable. -/
def input (value : String) : Event := { new "input" (.input value) with cancelable := false }

def prevent (e : Event) : Event := if e.cancelable && !e.passive then { e with prevented := true } else e

def stop (e : Event) : Event := { e with stopped := true }

def stopAtOnce (e : Event) : Event := { e with stopped := true, stoppedAtOnce := true }

/-- The key of a keyboard event. -/
def key? (e : Event) : Option String :=
  match e.detail with
  | .keyboard k => some k.key
  | _ => none

def held (e : Event) : Held :=
  match e.detail with
  | .keyboard k => k.held
  | .mouse m => m.held
  | _ => .none

/-- The node an event was dispatched at. -/
def node? (e : Event) : Option NodeId :=
  match e.target with
  | .node n => some n
  | _ => none

end Event
end Eventful.Page
