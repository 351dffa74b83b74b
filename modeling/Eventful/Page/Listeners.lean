import Eventful.Page.Event

/-
  Eventful.Page.Listeners — who listens where.

  Listeners stand in one bucket per target, in the order of their adding; an index leads
  from an id to the bucket. No bucket is empty and ids are never given twice. What a
  listener does is the host's: it is data of type `κ` here.
-/

namespace Eventful.Page

structure Options where
  capture : Bool
  passive : Bool
  once : Bool
  deriving Repr, DecidableEq

def Options.default : Options := ⟨false, false, false⟩

structure Listener (κ : Type) where
  id : Nat
  event : String
  options : Options
  action : κ

structure Listeners (κ : Type) where
  buckets : List (Target × List (Listener κ))
  index : List (Nat × Target)
  lastId : Nat

namespace Listeners

variable {κ : Type}

def empty : Listeners κ := ⟨[], [], 0⟩

/-- The listeners of a target in order. -/
def of (s : Listeners κ) (target : Target) : List (Listener κ) :=
  ((s.buckets.find? (·.1 == target)).map (·.2)).getD []

/-- Appends to the bucket of a target, a new one if it has none. -/
def putLast (target : Target) (l : Listener κ) :
    List (Target × List (Listener κ)) → List (Target × List (Listener κ))
  | [] => [(target, [l])]
  | (t, ls) :: rest => if t == target then (t, ls ++ [l]) :: rest else (t, ls) :: putLast target l rest

def add (s : Listeners κ) (target : Target) (event : String) (options : Options) (action : κ) :
    Nat × Listeners κ :=
  let id := s.lastId + 1
  (id, ⟨putLast target ⟨id, event, options, action⟩ s.buckets, s.index ++ [(id, target)], id⟩)

/-- Takes an id out of the bucket of a target, and the bucket away once it is empty. -/
def takeOut (target : Target) (id : Nat) (buckets : List (Target × List (Listener κ))) :
    List (Target × List (Listener κ)) :=
  buckets.filterMap fun (t, ls) =>
    if t == target then
      let rest := ls.filter (·.id != id)
      if rest.isEmpty then none else some (t, rest)
    else some (t, ls)

def target? (s : Listeners κ) (id : Nat) : Option Target := (s.index.find? (·.1 == id)).map (·.2)

def remove (s : Listeners κ) (id : Nat) : Bool × Listeners κ :=
  match s.target? id with
  | none => (false, s)
  | some target =>
    (true, { s with buckets := takeOut target id s.buckets, index := s.index.filter (·.1 != id) })

/-- Removes all listeners of a target and says how many they were. -/
def clear (s : Listeners κ) (target : Target) : Nat × Listeners κ :=
  let gone := (s.of target).map (·.id)
  (gone.length, { s with
    buckets := s.buckets.filter (·.1 != target)
    index := s.index.filter fun e => !gone.contains e.1 })

def contains (s : Listeners κ) (id : Nat) : Bool := (s.target? id).isSome

def count (s : Listeners κ) (target : Target) (event : String) : Nat :=
  ((s.of target).filter (·.event == event)).length

def size (s : Listeners κ) : Nat := s.index.length

def isEmpty (s : Listeners κ) : Bool := s.index.isEmpty

/-- The listeners of a target for one event and phase, in order. -/
def select (s : Listeners κ) (target : Target) (event : String) (capture : Bool) : List (Listener κ) :=
  (s.of target).filter fun l => l.options.capture == capture && l.event == event

def debug (s : Listeners κ) : String :=
  "ListenerStore \x7b targets: " ++ toString s.buckets.length ++ ", listeners: " ++ toString s.size ++ " \x7d"

end Listeners
end Eventful.Page
