import Eventful.Directive.Plan
import Eventful.Expr.Cache

/-
  Eventful.Binding.Basic — bound directives and the runtime that owns them.

  A binding waits either as a listener of the page or, for `.outside`, as an entry of the
  runtime's tracker. Its ids grow and are never given twice. A binding that is unbound
  while its expression is evaluated stays in reach of events already on their way to it
  until that evaluation ends. A runtime whose handle was dropped goes on while a binding
  of it is evaluated and is torn down after that. What its error hooks do is the host's:
  it is data of type `κ`.
-/

namespace Eventful.Binding

open Page

/-- An expression that failed while an event was handled. -/
structure Failure where
  binding : Nat
  element : NodeId
  event : String
  expression : String
  fault : Fault

def label (binding : Nat) : String := "binding#" ++ toString binding

def Failure.message (f : Failure) : String :=
  label f.binding ++ " (" ++ f.event ++ " on " ++ NodeId.label f.element ++ ") failed to evaluate `"
    ++ f.expression ++ "`: " ++ f.fault.message

/-- How a runtime evaluates expressions. -/
inductive Evaluator where
  /-- As scripts, with the event under `$event`. -/
  | script (cache : Expr.Cache)
  /-- By a rule of the host's own; the host notes every request. -/
  | custom (rule : String → Event → Expr.Dialogue Outcome)

structure Bound where
  id : Nat
  element : NodeId
  directive : Directive
  plan : Directive.Plan
  /-- The number of the scope. -/
  scope : Nat
  /-- Its page listener; none for `.outside`. -/
  listener : Option Nat
  /-- A `once` binding that ran. -/
  fired : Bool
  /-- The timer of a debounced event. -/
  waiting : Option Nat
  /-- How many evaluations of its expression are running. -/
  running : Nat

inductive Status where
  | held
  /-- The handle is gone. -/
  | released
  /-- Everything it registered is gone. -/
  | ended
  deriving Repr, DecidableEq

structure Runtime (κ : Type) where
  config : Directive.Config
  /-- The number of its clock. -/
  clock : Nat
  /-- The number of its tracker, and whether it is the runtime's own. -/
  tracker : Nat
  ownsTracker : Bool
  evaluator : Evaluator
  bindings : List Bound
  /-- The unbound ones whose expressions are still being evaluated. -/
  leaving : List Bound
  lastId : Nat
  hooks : List κ
  /-- Its removal observer on the page. -/
  observer : Nat
  status : Status

namespace Runtime

variable {κ : Type}

def find? (r : Runtime κ) (id : Nat) : Option Bound := r.bindings.find? (·.id == id)

def isBound (r : Runtime κ) (id : Nat) : Bool := (r.find? id).isSome

/-- The binding of an id that events can still reach. -/
def reachable? (r : Runtime κ) (id : Nat) : Option Bound := (r.bindings ++ r.leaving).find? (·.id == id)

/-- The runtime after an unbinding. -/
def without (r : Runtime κ) (id : Nat) : Runtime κ :=
  { r with
    bindings := r.bindings.filter (·.id != id)
    leaving := r.leaving ++
      (r.bindings.filter fun b => b.id == id && 0 < b.running).map fun b => { b with waiting := none } }

def edit (r : Runtime κ) (id : Nat) (f : Bound → Bound) : Runtime κ :=
  let change (b : Bound) : Bound := if b.id == id then f b else b
  { r with bindings := r.bindings.map change, leaving := r.leaving.map change }

/-- The leaving binding of an id, once its last evaluation ended. -/
def gone? (r : Runtime κ) (id : Nat) : Option Bound := r.leaving.find? fun b => b.id == id && b.running == 0

def forget (r : Runtime κ) (id : Nat) : Runtime κ := { r with leaving := r.leaving.filter (·.id != id) }

/-- None of its expressions is being evaluated. -/
def isIdle (r : Runtime κ) : Bool := r.leaving.isEmpty && r.bindings.all (·.running == 0)

/-- The bindings of the elements, oldest first. -/
def boundTo (r : Runtime κ) (elements : List NodeId) : List Nat :=
  (r.bindings.filter fun b => elements.contains b.element).map (·.id)

def outsideBindings (r : Runtime κ) : List Nat := (r.bindings.filter (·.plan.isOutside)).map (·.id)

def isPending (r : Runtime κ) (id : Nat) : Bool := ((r.find? id).bind (·.waiting)).isSome

def debug (r : Runtime κ) : String :=
  "DirectiveRuntime \x7b bindings: " ++ toString r.bindings.length ++ ", config: " ++ r.config.debug ++ " \x7d"

end Runtime

/-- Evaluation as a script: a blank expression is undefined. -/
def evaluateScript (cache : Expr.Cache) (expression : String) (event : Value) : Expr.Dialogue Outcome × Expr.Cache :=
  if Text.isBlankText expression then (.done (.ok .undefined), cache)
  else cache.evaluate expression [("$event", event)]

end Eventful.Binding
