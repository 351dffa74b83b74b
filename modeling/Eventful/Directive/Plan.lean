import Eventful.Directive.Basic
import Eventful.Page.Listeners

/-
  Eventful.Directive.Plan — how a directive listens.

  The plan says where the listener goes, with which options, and which guards an event has
  to pass before the expression is evaluated. The guards have one fixed order: key, stop,
  prevent, outside, debounce, once.
-/

namespace Eventful.Directive

open Page

inductive Place where
  | element | window | document
  deriving Repr, DecidableEq

def Place.label : Place → String
  | .element => "element"
  | .window => "window"
  | .document => "document"

def Place.target (element : NodeId) : Place → Target
  | .element => .node element
  | .window => .window
  | .document => .document

inductive Guard where
  /-- Only events that pass the filter. -/
  | key (f : KeyFilter)
  | stop
  | prevent
  /-- Only events that started outside of the element. -/
  | outside
  /-- Wait for the end of a burst. -/
  | debounce (wait : Nat)
  /-- Only the first time. -/
  | once
  deriving Repr, DecidableEq

structure Plan where
  event : String
  place : Place
  options : Options
  guards : List Guard
  deriving Repr, DecidableEq

namespace Plan

/-- Events so frequent that a listener which may prevent them slows scrolling. -/
def frequent : List String := ["scroll", "wheel", "touchstart", "touchmove", "mousemove"]

/-- Outside listens on the document, whatever else is asked for. -/
def placeOf (c : Config) (d : Directive) (s : Summary) : Except Error Place :=
  if s.outside then .ok .document
  else if s.window && s.document then
    match c.targetConflict with
    | .preferWindow => .ok .window
    | .reject => .error (.conflictingTargets d.attr)
  else if s.window then .ok .window
  else if s.document then .ok .document
  else .ok .element

/-- An outside binding runs before the event reaches its target; stopping there would keep
    the event from everyone else, so it does not stop. -/
def guardsOf (c : Config) (s : Summary) : List Guard :=
  let filter := KeyFilter.ofNames s.keys
  (if filter.isEmpty then [] else [.key filter])
    ++ (if s.stop && !s.outside then [.stop] else [])
    ++ (if s.prevent then [.prevent] else [])
    ++ (if s.outside then [.outside] else [])
    ++ ((s.wait? c.defaultWait).map Guard.debounce).toList
    ++ (if s.once then [.once] else [])

def build (c : Config) (d : Directive) : Except Error Plan :=
  let s := d.summary
  (placeOf c d s).map fun place =>
    let passive := c.passiveHighFrequency && !s.prevent && frequent.contains d.event
    ⟨d.event, place, ⟨false, passive, false⟩, guardsOf c s⟩

def isOutside (p : Plan) : Bool := p.guards.contains .outside

def isOnce (p : Plan) : Bool := p.guards.contains .once

def stops (p : Plan) : Bool := p.guards.contains .stop

def wait? (p : Plan) : Option Nat :=
  p.guards.findSome? fun
    | .debounce wait => some wait
    | _ => none

def filter? (p : Plan) : Option KeyFilter :=
  p.guards.findSome? fun
    | .key f => some f
    | _ => none

end Plan
end Eventful.Directive
