import Eventful.Expr.Term

/-
  Eventful.Expr.Listing — a program as a numbered list of nodes.

  Nodes are numbered from zero in the order in which they close: the parts of a node come
  before it, from left to right, and the program comes last. A node refers to its parts by
  number.
-/

namespace Eventful.Expr

/-- A node whose parts are numbers. -/
inductive Node where
  | program (body : List Nat)
  | statement (e : Nat)
  | empty
  | name (name : String)
  | literal (value : Literal)
  | object (entries : List (String × Nat))
  | member (object : Nat) (key : String)
  | index (object key : Nat)
  | unary (op : UnaryOp) (arg : Nat)
  | update (op : UpdateOp) (before : Bool) (target : Nat)
  | binary (op : BinaryOp) (left right : Nat)
  | logical (op : LogicalOp) (left right : Nat)
  | conditional (test yes no : Nat)
  | assign (op : AssignOp) (target value : Nat)
  | sequence (items : List Nat)

variable {μ : Type}

/-- Nodes with their marks, in order. -/
abbrev Listing (μ : Type) := List (Node × μ)

mutual

/-- How many nodes an expression has. -/
def Term.count : Term μ → Nat
  | .name .. => 1
  | .literal .. => 1
  | .object _ es => countEntries es + 1
  | .member _ o _ => o.count + 1
  | .index _ o k => o.count + k.count + 1
  | .unary _ _ a => a.count + 1
  | .update _ _ _ t => t.count + 1
  | .binary _ _ l r => l.count + r.count + 1
  | .logical _ _ l r => l.count + r.count + 1
  | .conditional _ t y n => t.count + y.count + n.count + 1
  | .assign _ _ t v => t.count + v.count + 1
  | .sequence _ es => countItems es + 1

def countEntries : List (String × Term μ) → Nat
  | [] => 0
  | (_, e) :: es => e.count + countEntries es

def countItems : List (Term μ) → Nat
  | [] => 0
  | e :: es => e.count + countItems es

end

/-- The number of an expression whose first node is numbered `start`. -/
def Term.number (start : Nat) (e : Term μ) : Nat := start + e.count - 1

def numberEntries (start : Nat) : List (String × Term μ) → List (String × Nat)
  | [] => []
  | (k, e) :: es => (k, e.number start) :: numberEntries (start + e.count) es

def numberItems (start : Nat) : List (Term μ) → List Nat
  | [] => []
  | e :: es => e.number start :: numberItems (start + e.count) es

mutual

/-- The nodes of an expression, the first one numbered `start`. -/
def Term.listing (start : Nat) : Term μ → Listing μ
  | .name m s => [(.name s, m)]
  | .literal m v => [(.literal v, m)]
  | .object m es => listEntries start es ++ [(.object (numberEntries start es), m)]
  | .member m o k => o.listing start ++ [(.member (o.number start) k, m)]
  | .index m o k =>
    o.listing start ++ k.listing (start + o.count) ++ [(.index (o.number start) (k.number (start + o.count)), m)]
  | .unary m op a => a.listing start ++ [(.unary op (a.number start), m)]
  | .update m op b t => t.listing start ++ [(.update op b (t.number start), m)]
  | .binary m op l r =>
    l.listing start ++ r.listing (start + l.count) ++ [(.binary op (l.number start) (r.number (start + l.count)), m)]
  | .logical m op l r =>
    l.listing start ++ r.listing (start + l.count) ++ [(.logical op (l.number start) (r.number (start + l.count)), m)]
  | .conditional m t y n =>
    let atYes := start + t.count
    let atNo := atYes + y.count
    t.listing start ++ y.listing atYes ++ n.listing atNo ++
      [(.conditional (t.number start) (y.number atYes) (n.number atNo), m)]
  | .assign m op t v =>
    t.listing start ++ v.listing (start + t.count) ++ [(.assign op (t.number start) (v.number (start + t.count)), m)]
  | .sequence m es => listItems start es ++ [(.sequence (numberItems start es), m)]

def listEntries (start : Nat) : List (String × Term μ) → Listing μ
  | [] => []
  | (_, e) :: es => e.listing start ++ listEntries (start + e.count) es

def listItems (start : Nat) : List (Term μ) → Listing μ
  | [] => []
  | e :: es => e.listing start ++ listItems (start + e.count) es

end

def Statement.count : Statement μ → Nat
  | .expression _ e => e.count + 1
  | .empty _ => 1

def Statement.listing (start : Nat) : Statement μ → Listing μ
  | .expression m e => e.listing start ++ [(.statement (e.number start), m)]
  | .empty m => [(.empty, m)]

def listStatements (start : Nat) : List (Statement μ) → Listing μ
  | [] => []
  | s :: ss => s.listing start ++ listStatements (start + s.count) ss

def numberStatements (start : Nat) : List (Statement μ) → List Nat
  | [] => []
  | s :: ss => (start + s.count - 1) :: numberStatements (start + s.count) ss

/-- How many nodes a program has, itself included. -/
def Program.count (p : Program μ) : Nat := p.body.foldr (fun s n => s.count + n) 0 + 1

def Program.listing (p : Program μ) : Listing μ :=
  listStatements 0 p.body ++ [(.program (numberStatements 0 p.body), p.mark)]

end Eventful.Expr
