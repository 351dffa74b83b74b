import Eventful.Host.Proc

/-
  Eventful.Host.Writing — expressions against a scope that is watched.

  A write that changed a scope tells the subscribers that stood there when it was made, in
  the order of their subscription, before the evaluation goes on.
-/

namespace Eventful.Host

open Binding

def tellAll (c : Change) : List (Nat × Watcher) → Proc Unit
  | [] => return ()
  | (_, w) :: rest => do
    call (.watch w c)
    tellAll c rest

/-- Writes to a scope and tells its subscribers. -/
def write (scope : Nat) (path : List String) (v : Value) : Proc (Except Blocked Unit) := do
  match ((← get).scope scope).write path v with
  | .error b => return .error b
  | .ok (s, change) =>
    modify fun h => h.setScope scope s
    if let some c := change then tellAll c s.subscribers
    return .ok ()

/-- Holds a dialogue with a scope. -/
def converse {α : Type} (scope : Nat) : Expr.Dialogue α → Proc α
  | .done a => return a
  | .ask name k => do converse scope (k (((← get).scope scope).data.get? name))
  | .tell path v k => do converse scope (k (← write scope path v))

/-- Evaluates a source with the session's cache, or with a fresh one. -/
def evaluate (scope : Nat) (source : String) (locals : List (String × Value)) (fresh : Bool) : Proc Outcome := do
  let locals := Expr.Locals.ofList locals
  if fresh then converse scope (Expr.Cache.empty.evaluate source []).1
  else
    let (dialogue, cache) := (← get).cache.evaluate source locals
    modify fun h => { h with cache }
    converse scope dialogue

end Eventful.Host
