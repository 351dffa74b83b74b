import Eventful.Scope.Basic

/-
  Eventful.Expr.Dialogue — an evaluation as questions and orders to a scope.

  `ask` wants the value of a top-level name, `tell` wants a write; `done` is the answer.
  Between two moves the scope may change under the evaluation (a write may set off
  subscribers), so a dialogue knows nothing of the scope but what it asked for. `runOn`
  holds a dialogue with a scope whose subscribers do nothing.
-/

namespace Eventful.Expr

inductive Dialogue (α : Type) where
  | done (a : α)
  | ask (name : String) (k : Option Value → Dialogue α)
  | tell (path : List String) (value : Value) (k : Except Blocked Unit → Dialogue α)

namespace Dialogue

variable {α β : Type}

def bind : Dialogue α → (α → Dialogue β) → Dialogue β
  | .done a, f => f a
  | .ask name k, f => .ask name fun v => (k v).bind f
  | .tell path value k, f => .tell path value fun r => (k r).bind f

instance : Monad Dialogue where
  pure := .done
  bind := bind

/-- The answer, the scope afterwards and the changes in order. -/
def runOn {σ : Type} : Dialogue α → Scope σ → α × Scope σ × List Change
  | .done a, s => (a, s, [])
  | .ask name k, s => (k (s.data.get? name)).runOn s
  | .tell path value k, s =>
    match s.write path value with
    | .error b => (k (.error b)).runOn s
    | .ok (s', change) =>
      let (a, s'', changes) := (k (.ok ())).runOn s'
      (a, s'', change.toList ++ changes)

end Dialogue
end Eventful.Expr
