import Eventful.Expr.Span

/-
  Eventful.Expr.Term — the trees of the expression language.

  Every node carries a mark: the parser marks it with its span, and nothing but the
  numbering of the nodes and error messages looks at marks. A program is a list of
  statements; parentheses leave no trace.
-/

namespace Eventful.Expr

inductive Literal where
  | number (x : Float)
  | text (s : String)
  | boolean (b : Bool)
  | null
  | undefined

inductive UnaryOp where
  | not | minus | plus | typeof
  deriving Repr, DecidableEq

inductive UpdateOp where
  | increment | decrement
  deriving Repr, DecidableEq

inductive BinaryOp where
  | add | sub | mul | div | mod
  | less | greater | lessEq | greaterEq
  | looseEq | looseNe | strictEq | strictNe
  deriving Repr, DecidableEq

inductive LogicalOp where
  | and | or | nullish
  deriving Repr, DecidableEq

inductive AssignOp where
  | plain | add | sub | mul | div
  deriving Repr, DecidableEq

/-- The operator that a compound assignment applies to the old value. -/
def AssignOp.binary? : AssignOp → Option BinaryOp
  | .plain => none
  | .add => some .add
  | .sub => some .sub
  | .mul => some .mul
  | .div => some .div

inductive Term (μ : Type) where
  | name (mark : μ) (name : String)
  | literal (mark : μ) (value : Literal)
  | object (mark : μ) (entries : List (String × Term μ))
  /-- `object.key` -/
  | member (mark : μ) (object : Term μ) (key : String)
  /-- `object[key]` -/
  | index (mark : μ) (object key : Term μ)
  | unary (mark : μ) (op : UnaryOp) (arg : Term μ)
  /-- `++target` (`before`) or `target++` -/
  | update (mark : μ) (op : UpdateOp) (before : Bool) (target : Term μ)
  | binary (mark : μ) (op : BinaryOp) (left right : Term μ)
  | logical (mark : μ) (op : LogicalOp) (left right : Term μ)
  | conditional (mark : μ) (test yes no : Term μ)
  | assign (mark : μ) (op : AssignOp) (target value : Term μ)
  | sequence (mark : μ) (items : List (Term μ))

inductive Statement (μ : Type) where
  | expression (mark : μ) (e : Term μ)
  | empty (mark : μ)

structure Program (μ : Type) where
  mark : μ
  body : List (Statement μ)

def Term.mark {μ : Type} : Term μ → μ
  | .name m .. | .literal m .. | .object m .. | .member m .. | .index m .. | .unary m ..
  | .update m .. | .binary m .. | .logical m .. | .conditional m .. | .assign m ..
  | .sequence m .. => m

/-- What an assignment or an update can write to. -/
def Term.isTarget {μ : Type} : Term μ → Bool
  | .name .. | .member .. | .index .. => true
  | _ => false

end Eventful.Expr
