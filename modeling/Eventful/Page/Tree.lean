import Eventful.Page.Element

/-
  Eventful.Page.Tree — the nodes of a document.

  Nodes are numbered in the order of their making; number 0 is the document node. A node
  has five links: to its parent, to its first and last child, to the siblings before and
  after it. What was removed stays as a tree of its own and can be put back. The document
  node is never a child, and no node goes under itself.
-/

namespace Eventful.Page

abbrev NodeId := Nat

/-- The document node. -/
def root : NodeId := 0

/-- The number that stands for no node. -/
def noNode : NodeId := 4294967295

def NodeId.label (n : NodeId) : String := "NodeId(" ++ toString n ++ ")"

inductive Content where
  | document
  | element (e : Element)
  | text (s : String)
  | comment (s : String)

def Content.element? : Content → Option Element
  | .element e => some e
  | _ => none

def Content.text? : Content → Option String
  | .text s => some s
  | _ => none

/-- Where a node hangs. -/
structure Links where
  parent : Option NodeId
  firstChild : Option NodeId
  lastChild : Option NodeId
  previous : Option NodeId
  next : Option NodeId
  deriving Repr, DecidableEq

/-- A node by itself. -/
def Links.alone : Links := ⟨none, none, none, none, none⟩

structure Node where
  links : Links
  content : Content

inductive TreeError where
  | unknownNode (n : NodeId)
  | notAnElement (n : NodeId)
  | hierarchy (parent child : NodeId)
  deriving Repr, DecidableEq

def TreeError.message : TreeError → String
  | .unknownNode n => "Unknown node: " ++ NodeId.label n
  | .notAnElement n => "Node " ++ NodeId.label n ++ " is not an element"
  | .hierarchy parent child => "Cannot insert " ++ NodeId.label child ++ " under " ++ NodeId.label parent

structure Tree where
  nodes : List Node

namespace Tree

/-- The document node alone. -/
def empty : Tree := ⟨[⟨.alone, .document⟩]⟩

def size (t : Tree) : Nat := t.nodes.length

def get? (t : Tree) (n : NodeId) : Option Node := t.nodes[n]?

def has (t : Tree) (n : NodeId) : Bool := n < t.size

def update (t : Tree) (n : NodeId) (f : Node → Node) : Tree := ⟨t.nodes.modify n f⟩

/-- A new node without parent. -/
def add (t : Tree) (content : Content) : NodeId × Tree := (t.size, ⟨t.nodes ++ [⟨.alone, content⟩]⟩)

def createElement (t : Tree) (tag : String) : NodeId × Tree := t.add (.element (.ofTag tag))

def createText (t : Tree) (s : String) : NodeId × Tree := t.add (.text s)

/-! ## Links -/

def links? (t : Tree) (n : NodeId) : Option Links := (t.get? n).map (·.links)

def relink (t : Tree) (n : NodeId) (f : Links → Links) : Tree := t.update n fun x => { x with links := f x.links }

def parent? (t : Tree) (n : NodeId) : Option NodeId := (t.links? n).bind (·.parent)

def firstChild? (t : Tree) (n : NodeId) : Option NodeId := (t.links? n).bind (·.firstChild)

def lastChild? (t : Tree) (n : NodeId) : Option NodeId := (t.links? n).bind (·.lastChild)

def previousSibling? (t : Tree) (n : NodeId) : Option NodeId := (t.links? n).bind (·.previous)

def nextSibling? (t : Tree) (n : NodeId) : Option NodeId := (t.links? n).bind (·.next)

/-! ## Walks -/

/-- The nodes from `start` on by a link, `limit` at most. -/
def follow (link : NodeId → Option NodeId) : Nat → Option NodeId → List NodeId
  | limit + 1, some n => n :: follow link limit (link n)
  | _, _ => []

def children (t : Tree) (n : NodeId) : List NodeId := follow t.nextSibling? t.size (t.firstChild? n)

/-- The ancestors of a node, nearest first. -/
def ancestors (t : Tree) (n : NodeId) : List NodeId := follow t.parent? t.size (t.parent? n)

/-- The node is `a` or lies under it. -/
def contains (t : Tree) (a n : NodeId) : Bool := n == a || (t.ancestors n).contains a

/-- A node and what lies under it down to `depth` levels, parents first. -/
def downward (t : Tree) : Nat → NodeId → List NodeId
  | 0, _ => []
  | depth + 1, n => n :: (t.children n).flatMap (t.downward depth)

/-- A node and all that lies under it in document order. -/
def subtree (t : Tree) (n : NodeId) : List NodeId := if t.has n then t.downward t.size n else []

/-- The node is the document node or lies under it. -/
def isConnected (t : Tree) (n : NodeId) : Bool := t.has n && t.contains root n

/-! ## Edits -/

/-- What comes after `previous` among the children of `p`; first of all if that is none. -/
def setNext (t : Tree) (p : NodeId) (previous n : Option NodeId) : Tree :=
  match previous with
  | some q => t.relink q fun l => { l with next := n }
  | none => t.relink p fun l => { l with firstChild := n }

/-- What comes before `next` among the children of `p`; last of all if that is none. -/
def setPrevious (t : Tree) (p : NodeId) (next n : Option NodeId) : Tree :=
  match next with
  | some q => t.relink q fun l => { l with previous := n }
  | none => t.relink p fun l => { l with lastChild := n }

/-- Takes a node off its parent; its own subtree stays as it is. -/
def detach (t : Tree) (n : NodeId) : Tree :=
  match t.parent? n with
  | none => t
  | some p =>
    let previous := t.previousSibling? n
    let next := t.nextSibling? n
    ((t.setNext p previous next).setPrevious p next previous).relink n fun l =>
      { l with parent := none, previous := none, next := none }

/-- Puts a node without parent after the last child. -/
def link (t : Tree) (p n : NodeId) : Tree :=
  let last := t.lastChild? p
  let t := t.relink n fun l => { l with parent := some p, previous := last, next := none }
  (t.setNext p last (some n)).setPrevious p none (some n)

def appendChild (t : Tree) (parent child : NodeId) : Except TreeError Tree :=
  if !t.has parent then .error (.unknownNode parent)
  else if !t.has child then .error (.unknownNode child)
  else if child == root || t.contains child parent then .error (.hierarchy parent child)
  else .ok ((t.detach child).link parent child)

/-- Makes an element as the last child; if that fails, the element stays by itself. -/
def appendElement (t : Tree) (parent : NodeId) (tag : String) : Except TreeError NodeId × Tree :=
  let (n, t) := t.createElement tag
  match t.appendChild parent n with
  | .error e => (.error e, t)
  | .ok t => (.ok n, t)

def removeChild (t : Tree) (n : NodeId) : Except TreeError Tree :=
  if t.has n then .ok (t.detach n) else .error (.unknownNode n)

/-- Replaces the children by one text, or by nothing for the empty text. -/
def setText (t : Tree) (n : NodeId) (s : String) : Except TreeError Tree :=
  if t.has n then
    let bare := (t.children n).foldl detach t
    if s == "" then .ok bare
    else
      let (node, t) := bare.createText s
      t.appendChild n node
  else .error (.unknownNode n)

/-! ## Content -/

def content? (t : Tree) (n : NodeId) : Option Content := (t.get? n).map (·.content)

def element? (t : Tree) (n : NodeId) : Option Element := (t.content? n).bind Content.element?

def setContent (t : Tree) (n : NodeId) (c : Content) : Tree := t.update n fun x => { x with content := c }

/-- Changes an element, which must exist. -/
def editElement (t : Tree) (n : NodeId) (f : Element → Element) : Except TreeError Tree :=
  match t.content? n with
  | none => .error (.unknownNode n)
  | some (.element e) => .ok (t.setContent n (.element (f e)))
  | some _ => .error (.notAnElement n)

/-- Changes an element if there is one. -/
def mapElement (t : Tree) (n : NodeId) (f : Element → Element) : Tree :=
  match t.element? n with
  | some e => t.setContent n (.element (f e))
  | none => t

def removeAttr (t : Tree) (n : NodeId) (name : String) : Except TreeError (Option String × Tree) :=
  (t.editElement n fun e => (e.removeAttr name).2).map fun t' => ((t.element? n).bind (·.attr? name), t')

/-- The texts under a node, joined. -/
def textContent (t : Tree) (n : NodeId) : String :=
  String.join ((t.subtree n).filterMap fun m => (t.content? m).bind Content.text?)

/-- The first element with a tag, the node itself included. -/
def findTag? (t : Tree) (start : NodeId) (tag : String) : Option NodeId :=
  (t.subtree start).find? fun m => (t.element? m).any fun e => Text.eqIgnoringCase e.tag tag

/-- The first element of the document with an id. -/
def findId? (t : Tree) (id : String) : Option NodeId :=
  (t.subtree root).find? fun m => ((t.element? m).bind (·.id)) == some id

end Tree
end Eventful.Page
