import Eventful.Expr.Parser
import Eventful.Scope.Basic

/-
  Eventful.Expr.Fault — why an expression has no value.
-/

namespace Eventful

inductive FaultKind where
  | malformed | unresolved | illTyped | internal
  deriving Repr, DecidableEq

inductive Fault where
  | malformed (e : Expr.ParseError)
  /-- A name that is neither a local nor in the scope. -/
  | unresolved (name : String)
  /-- A property read of `holder`, undefined or null. -/
  | noProperties (holder : Value) (key : String)
  | blocked (b : Blocked)
  | constantName (name : String)
  | notATarget
  /-- What an evaluator of the host's own reports. -/
  | reported (kind : FaultKind) (text : String)

namespace Fault

def kind : Fault → FaultKind
  | .malformed _ => .malformed
  | .unresolved _ => .unresolved
  | .noProperties .. | .blocked _ | .constantName _ | .notATarget => .illTyped
  | .reported k _ => k

/-- What the fault says, without its kind. -/
def text : Fault → String
  | .malformed e => e.text
  | .unresolved name => name
  | .noProperties holder key => "Cannot read properties of " ++ holder.toText ++ " (reading '" ++ key ++ "')"
  | .blocked b => b.message
  | .constantName name => "Assignment to constant variable '" ++ name ++ "'"
  | .notATarget => "Invalid assignment target"
  | .reported _ text => text

def message (f : Fault) : String :=
  match f.kind with
  | .malformed => "Syntax error: " ++ f.text
  | .unresolved => "ReferenceError: " ++ f.text ++ " is not defined"
  | .illTyped => "TypeError: " ++ f.text
  | .internal => "JavaScript error: " ++ f.text

end Fault

/-- The value of an expression or why it has none. -/
abbrev Outcome := Except Fault Value

end Eventful
