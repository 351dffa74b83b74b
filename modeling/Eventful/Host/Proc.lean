import Eventful.Host.Basic

/-
  Eventful.Host.Proc — procedures of a host and the calls they make.

  A procedure reads and writes the host and calls tasks. A task is everything that may run
  a callback, and thus anything at all: a listener, an outside entry, an effect, a scope
  subscriber, a removal observer, an error hook, a timer; the rest of an advance of a
  clock; and an action of a script. Procedures are finite trees; only calls make a run
  unbounded.
-/

namespace Eventful.Host

open Page Binding

/-- What a task comes back with. -/
inductive Kind where
  | unit | event | outcome | count | answer
  deriving Repr, DecidableEq

abbrev Kind.Carrier : Kind → Type
  | .unit => Unit
  | .event => Event
  | .outcome => Outcome
  | .count => Nat
  | .answer => Answer

inductive Task : Kind → Type where
  /-- A listener is called. -/
  | listen (l : Listener Reaction) (e : Event) : Task .event
  /-- A tracker entry is called. -/
  | outside (w : Entry Waiter) (e : Event) : Task .event
  /-- A binding's expression is evaluated. -/
  | effect (rt : Nat) (b : Bound) (e : Event) : Task .outcome
  /-- A scope subscriber is told of a change. -/
  | watch (w : Watcher) (c : Change) : Task .unit
  /-- A removal observer is told what left. -/
  | observe (o : Observer) (ns : List NodeId) : Task .unit
  /-- An error hook is told of a failure. -/
  | hook (s : Script) (f : Failure) : Task .unit
  /-- A timer of a clock runs. -/
  | ring (c : Nat) (t : Timer Alarm) : Task .unit
  /-- The timers due by an instant run; how many. -/
  | advance (c : Nat) (instant : Nat) : Task .count
  /-- An action is done. -/
  | act (a : Action) : Task .answer

inductive Proc (α : Type) : Type where
  | done (a : α)
  | get (k : Host → Proc α)
  | set (h : Host) (k : Proc α)
  | call {κ : Kind} (t : Task κ) (k : κ.Carrier → Proc α)

namespace Proc

variable {α β : Type}

def bind : Proc α → (α → Proc β) → Proc β
  | .done a, f => f a
  | .get k, f => .get fun h => (k h).bind f
  | .set h k, f => .set h (k.bind f)
  | .call t k, f => .call t fun r => (k r).bind f

instance : Monad Proc where
  pure := .done
  bind := bind

instance : MonadStateOf Host Proc where
  get := .get .done
  set h := .set h (.done ())
  modifyGet f := .get fun h => let (a, h') := f h; .set h' (.done a)

end Proc

def call {κ : Kind} (t : Task κ) : Proc κ.Carrier := .call t .done

/-- Runs a procedure with a way to run the tasks it calls; nothing if a task gives up. -/
def Proc.runWith {α : Type} (task : (κ : Kind) → Task κ → Host → Option (κ.Carrier × Host)) :
    Proc α → Host → Option (α × Host)
  | .done a, h => some (a, h)
  | .get k, h => (k h).runWith task h
  | .set h' k, _ => k.runWith task h'
  | .call t k, h =>
    match task _ t h with
    | none => none
    | some (r, h') => (k r).runWith task h'

end Eventful.Host
