import Eventful.Page.Tree
import Eventful.Page.Event

/-
  Eventful.Binding.Outside — elements that wait for events outside of them.

  A tracker keeps one entry per waiting binding and one capture listener on the document
  per event name. An entry is called for an event that started outside of its element,
  while the element is connected and has a box. Unregistering takes all entries of an id;
  the document listener stays until the tracker is reset. A tracker that nobody holds any
  more loses its entries, but not before the walks through them have ended.
-/

namespace Eventful.Binding

open Page

/-- A waiting binding; what is called for it is data of type `κ`. -/
structure Entry (κ : Type) where
  binding : Nat
  element : NodeId
  event : String
  action : κ

structure Tracker (κ : Type) where
  entries : List (Entry κ)
  /-- The document listeners by event name. -/
  installed : List (String × Nat)
  /-- A handle to it can be had. -/
  held : Bool
  /-- How many walks through its entries are under way. -/
  walks : Nat

namespace Tracker

variable {κ : Type}

def empty : Tracker κ := ⟨[], [], true, 0⟩

/-- Without entries and listeners. -/
def reset (t : Tracker κ) : Tracker κ := { t with entries := [], installed := [] }

/-- Lets go of the entries if nobody needs them any more. -/
def settle (t : Tracker κ) : Tracker κ := if t.held || 0 < t.walks then t else { t with entries := [] }

def release (t : Tracker κ) : Tracker κ := { t with held := false }.settle

def beginWalk (t : Tracker κ) : Tracker κ := { t with walks := t.walks + 1 }

def endWalk (t : Tracker κ) : Tracker κ := { t with walks := t.walks - 1 }.settle

def add (t : Tracker κ) (e : Entry κ) : Tracker κ := { t with entries := t.entries ++ [e] }

def isRegistered (t : Tracker κ) (binding : Nat) : Bool := t.entries.any (·.binding == binding)

def unregister (t : Tracker κ) (binding : Nat) : Bool × Tracker κ :=
  (t.isRegistered binding, { t with entries := t.entries.filter (·.binding != binding) })

def isInstalled (t : Tracker κ) (event : String) : Bool := t.installed.any (·.1 == event)

def select (t : Tracker κ) (event : String) : List (Entry κ) := t.entries.filter (·.event == event)

def debug (t : Tracker κ) : String :=
  "OutsideClickTracker \x7b entries: " ++ toString t.entries.length ++ ", installed: "
    ++ toString t.installed.length ++ " \x7d"

end Tracker

def isOutside (t : Tree) (element : NodeId) : Target → Bool
  | .node n => !t.contains element n
  | .window | .document => true

/-- The element is in the document and has a box. -/
def isInteractable (t : Tree) (element : NodeId) : Bool :=
  t.isConnected element && (t.element? element).any (·.box.isVisible)

def acceptsOutside (t : Tree) (element : NodeId) (target : Target) : Bool :=
  isOutside t element target && isInteractable t element

end Eventful.Binding
