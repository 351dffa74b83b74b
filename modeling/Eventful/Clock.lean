/-
  Eventful.Clock — timers on a clock that moves only when it is told to.

  Times are milliseconds in 64 bits: a delay counts by its low 64 bits and no instant lies
  past the last one. Timers run in the order of their instants, and those of one instant
  in the order of their starting, which is the order of their ids. Taking the next timer
  moves the clock to its instant. What a timer does is the host's: it is data of type `κ`.
-/

namespace Eventful

structure Timer (κ : Type) where
  id : Nat
  due : Nat
  action : κ

structure Clock (κ : Type) where
  now : Nat
  timers : List (Timer κ)
  lastId : Nat

namespace Clock

variable {κ : Type}

def new : Clock κ := ⟨0, [], 0⟩

def lastInstant : Nat := UInt64.size - 1

/-- The instant a delay from now on. -/
def instant (c : Clock κ) (delay : Nat) : Nat := min (c.now + delay % UInt64.size) lastInstant

def start (c : Clock κ) (delay : Nat) (action : κ) : Nat × Clock κ :=
  let id := c.lastId + 1
  (id, { c with timers := c.timers ++ [⟨id, c.instant delay, action⟩], lastId := id })

def isPending (c : Clock κ) (id : Nat) : Bool := c.timers.any (·.id == id)

/-- Whether the timer was still to run, and the clock without it. -/
def cancel (c : Clock κ) (id : Nat) : Bool × Clock κ :=
  (c.isPending id, { c with timers := c.timers.filter (·.id != id) })

def pending (c : Clock κ) : Nat := c.timers.length

/-- The timer runs before the other. -/
def Timer.before (a b : Timer κ) : Bool := a.due < b.due || (a.due == b.due && a.id < b.id)

/-- The timer that runs first. -/
def first? : List (Timer κ) → Option (Timer κ)
  | [] => none
  | t :: ts =>
    match first? ts with
    | none => some t
    | some u => if Timer.before u t then some u else some t

/-- The time until the next timer is due. -/
def untilNext? (c : Clock κ) : Option Nat := (first? c.timers).map fun t => t.due - c.now

/-- Takes out the first timer, with the clock moved to its instant. -/
def takeFirst? (c : Clock κ) : Option (Timer κ × Clock κ) :=
  (first? c.timers).map fun t =>
    (t, { c with now := max c.now t.due, timers := c.timers.filter (·.id != t.id) })

/-- Takes out the first timer if it is due by `limit`. -/
def takeDue? (c : Clock κ) (limit : Nat) : Option (Timer κ × Clock κ) :=
  c.takeFirst?.filter fun (t, _) => t.due ≤ limit

/-- Moves the clock forward; never back. -/
def moveTo (c : Clock κ) (instant : Nat) : Clock κ := { c with now := max c.now instant }

def debug (c : Clock κ) : String :=
  "TimerManager \x7b now_ms: " ++ toString c.now ++ ", pending: " ++ toString c.pending ++ " \x7d"

end Clock
end Eventful
