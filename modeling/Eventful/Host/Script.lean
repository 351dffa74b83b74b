import Eventful.Binding.Basic
import Eventful.Json.Basic

/-
  Eventful.Host.Script — what a host can do, as data.

  An action is one thing that a host does to its page, scopes, timers and runtimes. A
  script is what a callback does: under its label, a list of actions one after the other.
  Every action that registers a callback carries its script.
-/

namespace Eventful.Host

open Page

/-- A clock: the session's, or that of a runtime. -/
abbrev ClockOf := Option Nat

/-- A tracker: one made by itself, or that of a runtime. -/
inductive TrackerOf where
  | shared (i : Nat)
  | runtime (rt : Nat)

/-- An event to dispatch: a given one, or a copy of the last one that came back. -/
inductive Source where
  | event (e : Event)
  | last

/-- What a report shows. -/
inductive Subject where
  | page
  | scope (i : Nat)
  | clock (c : ClockOf)
  | runtime (rt : Nat)
  | cache

/-- How a runtime is made. -/
structure Setup where
  config : Option Json
  ownClock : Bool
  tracker : Option Nat
  evaluator : Binding.Evaluator

mutual

inductive Action where
  -- the tree
  | createElement (tag : String)
  | createText (s : String)
  | makeComment (n : NodeId) (s : String)
  | appendElement (parent : NodeId) (tag : String)
  | appendChild (parent child : NodeId)
  | removeNode (n : NodeId)
  | detachNode (n : NodeId)
  | setAttr (n : NodeId) (name value : String)
  | attr (n : NodeId) (name : String)
  | removeAttr (n : NodeId) (name : String)
  | addClass (n : NodeId) (c : String)
  | removeClass (n : NodeId) (c : String)
  | hasClass (n : NodeId) (c : String)
  | setSize (n : NodeId) (width height : Float)
  | setBox (n : NodeId) (width height : Float)
  | hasBox (n : NodeId)
  | textContent (n : NodeId)
  | setText (n : NodeId) (s : String)
  | findTag (n : NodeId) (tag : String)
  | queryTag (tag : String)
  | byId (id : String)
  | subtree (n : NodeId)
  | ancestors (n : NodeId)
  | children (n : NodeId)
  | parent (n : NodeId)
  | contains (a n : NodeId)
  | isConnected (n : NodeId)
  | tag (n : NodeId)
  | element (n : NodeId)
  | node (n : NodeId)
  | dump
  | document
  -- listeners and dispatch
  | globals
  | hasGlobal (t : Target)
  | listen (t : Target) (event : String) (options : Options) (script : Script)
  | unlisten (id : Nat)
  | hasListener (id : Nat)
  | listenerCount (t : Target) (event : String)
  | totalListeners
  | observe (script : Script)
  | disconnect (o : Nat)
  | dispatch (t : Target) (source : Source)
  | click (n : NodeId)
  | keyDown (n : NodeId) (k : Keyboard)
  | keyUp (n : NodeId) (k : Keyboard)
  | input (n : NodeId) (value : String)
  | isChecked (n : NodeId)
  | lastValue
  -- the event of the running callback
  | stop
  | stopAtOnce
  | prevent
  | event
  | eventValue
  -- scopes
  | newScope (v : Value)
  | has (scope : Nat) (name : String)
  | get (scope : Nat) (name : String)
  | getPath (scope : Nat) (path : String)
  | set (scope : Nat) (name : String) (v : Value)
  | setPath (scope : Nat) (path : List String) (v : Value)
  | version (scope : Nat)
  | snapshot (scope : Nat)
  | subscribe (scope : Nat) (path : Option String) (script : Script)
  | unsubscribe (sub : Nat)
  | eval (scope : Nat) (source : String) (locals : List (String × Value)) (fresh : Bool)
  | compile (source : String)
  | cached
  -- timers
  | timeout (c : ClockOf) (delay : Nat) (script : Script)
  | clear (c : ClockOf) (id : Nat)
  | timerPending (c : ClockOf) (id : Nat)
  | advance (c : ClockOf) (delta : Nat)
  | advanceTo (c : ClockOf) (instant : Nat)
  | runUntilIdle (c : ClockOf) (limit : Nat)
  | clock (c : ClockOf)
  -- debouncers
  | newDebouncer (wait : Nat)
  | schedule (d : Nat) (source : Source) (script : Script)
  | cancelDebouncer (d : Nat)
  | debouncer (d : Nat)
  | dropDebouncer (d : Nat)
  -- runtimes
  | newRuntime (s : Setup)
  | dropRuntime (rt : Nat)
  | bind (rt : Nat) (n : NodeId) (attr expression : String) (scope : Nat)
  | bindDirective (rt : Nat) (n : NodeId) (d : Directive) (scope : Nat)
  | bindAttributes (rt : Nat) (n : NodeId) (scope : Nat)
  | unbind (rt id : Nat)
  | unbindElement (rt : Nat) (n : NodeId)
  | isBound (rt id : Nat)
  | isPending (rt id : Nat)
  | bindingsFor (rt : Nat) (n : NodeId)
  | planOf (rt id : Nat)
  | directiveOf (rt id : Nat)
  | onError (rt : Nat) (script : Script)
  | resetOutside (rt : Nat)
  | runtimeState (rt : Nat)
  -- outside trackers
  | newTracker
  | registerOutside (t : TrackerOf) (id : Nat) (n : NodeId) (event : String) (script : Script)
  | unregisterOutside (t : TrackerOf) (id : Nat)
  | resetTracker (t : TrackerOf)
  | trackerState (t : TrackerOf)
  | hasOutside (t : TrackerOf) (id : Nat)
  | isInstalled (t : TrackerOf) (event : String)
  | outside (n : NodeId) (t : Target)
  -- reports
  | debug (s : Subject)

inductive Script where
  | mk (label : String) (actions : List Action)

end

instance : Inhabited Script := ⟨.mk "" []⟩

def Script.label : Script → String
  | .mk label _ => label

def Script.actions : Script → List Action
  | .mk _ actions => actions

end Eventful.Host
