import Eventful.Page.Listeners
import Eventful.Text.Quoted

/-
  Eventful.Page.Basic — a document with its listeners, and the way of an event through it.

  A host may lack the window, the document or both as targets. The way of an event to a
  node is the window and the document (if the node is connected and the host has them)
  and the node's ancestors below the document node, outermost first; dispatch then makes
  its rounds: capture listeners down the way, the target's capture listeners, the target's
  other listeners, and, if the event bubbles, the other listeners back up the way.
-/

namespace Eventful.Page

/-- The targets beside nodes that the host has. -/
structure Globals where
  window : Bool
  document : Bool
  deriving Repr, DecidableEq

def Globals.browser : Globals := ⟨true, true⟩

def Globals.headless : Globals := ⟨false, false⟩

def Globals.has (g : Globals) : Target → Bool
  | .window => g.window
  | .document => g.document
  | .node _ => true

/-- One round of a dispatch: the listeners of one target for one direction. -/
structure Round where
  target : Target
  phase : Phase
  capture : Bool
  deriving Repr, DecidableEq

/-- The rounds of an event that comes down `way` to `target`. -/
def roundsDown (way : List Target) (target : Target) : List Round :=
  way.map (⟨·, .capturing, true⟩) ++ [⟨target, .atTarget, true⟩, ⟨target, .atTarget, false⟩]

/-- The rounds of an event that goes back up `way`. -/
def roundsUp (way : List Target) : List Round := way.reverse.map (⟨·, .bubbling, false⟩)

end Eventful.Page

namespace Eventful

open Page

/-- A page whose listeners are described by `κ` and its removal observers by `ω`. -/
structure Page (κ ω : Type) where
  tree : Tree
  url : String
  html : NodeId
  head : NodeId
  body : NodeId
  listeners : Listeners κ
  observers : List (Nat × ω)
  lastObserver : Nat
  globals : Globals

end Eventful

namespace Eventful.Page

variable {κ ω : Type}

/-- An `html` element with a `head` and a `body`. -/
def new (url : String) (globals : Globals) : Page κ ω :=
  let (html, t) := Tree.empty.createElement "html"
  let t := t.link root html
  let (head, t) := t.createElement "head"
  let t := t.link html head
  let (body, t) := t.createElement "body"
  let t := t.link html body
  ⟨t, url, html, head, body, .empty, [], 0, globals⟩

/-- The targets that an event to `target` passes, outermost first. -/
def way (p : Page κ ω) : Target → List Target
  | .window => []
  | .document => if p.globals.window then [.window] else []
  | .node n =>
    (if p.tree.isConnected n then
      (if p.globals.window then [.window] else []) ++ (if p.globals.document then [.document] else [])
    else []) ++ (((p.tree.ancestors n).reverse.filter (· != root)).map Target.node)

def observe (p : Page κ ω) (what : ω) : Nat × Page κ ω :=
  let id := p.lastObserver + 1
  (id, { p with observers := p.observers ++ [(id, what)], lastObserver := id })

def disconnect (p : Page κ ω) (id : Nat) : Bool × Page κ ω :=
  (p.observers.any (·.1 == id), { p with observers := p.observers.filter (·.1 != id) })

/-- Removes a node; what the removal observers are told left the document. -/
def removeNode (p : Page κ ω) (n : NodeId) : Except TreeError (List NodeId × Page κ ω) :=
  let wasConnected := p.tree.isConnected n
  (p.tree.removeChild n).map fun t => (if wasConnected then t.subtree n else [], { p with tree := t })

def debug (p : Page κ ω) : String :=
  let bool (b : Bool) : String := if b then "true" else "false"
  "Dom \x7b url: " ++ Text.quote p.url ++ ", globals: HostGlobals \x7b window: " ++ bool p.globals.window
    ++ ", document: " ++ bool p.globals.document ++ " \x7d, listeners: " ++ toString p.listeners.size ++ " \x7d"

end Eventful.Page
