import Eventful.Host.Proc

/-
  Eventful.Host.Dispatch — an event on its way through the page.

  A dispatch makes the rounds of its way. In each round the listeners that stood there
  when the round began are called in order, but for those removed meanwhile; a `once`
  listener is removed before it is called. A stopped event makes no further round, one
  stopped at once calls no further listener.
-/

namespace Eventful.Host

open Page Binding

/-- Calls the listeners in order. -/
def callListeners (e : Event) : List (Listener Reaction) → Proc Event
  | [] => return e
  | l :: rest => do
    if (← get).page.listeners.contains l.id then
      if l.options.once then
        modify fun h => (h.unlisten l.id).2
      let e ← call (.listen l { e with passive := l.options.passive })
      let e := { e with passive := false }
      if e.stoppedAtOnce then return e else callListeners e rest
    else callListeners e rest

def makeRounds (e : Event) : List Round → Proc Event
  | [] => return e
  | r :: rest => do
    let e := { e with phase := r.phase, current := r.target }
    let e ← callListeners e ((← get).page.listeners.select r.target e.name r.capture)
    if e.stopped then return e else makeRounds e rest

/-- The event as it comes back from all its rounds. -/
def deliver (target : Target) (e : Event) : Proc Event := do
  let way := (← get).page.way target
  let e ← makeRounds { e with target } (roundsDown way target)
  let e ← if e.stopped || !e.bubbles then pure e else makeRounds e (roundsUp way)
  return { e with phase := .none, current := target }

/-- A click toggles a checkbox first; preventing the click takes that back. -/
def click (n : NodeId) : Proc Event := do
  let before := ((← get).page.tree.element? n).bind fun e => if e.isCheckbox then some e.checked else none
  let check (b : Bool) : Proc Unit := modify fun h =>
    h.setTree (h.page.tree.mapElement n fun e => { e with checked := b })
  if let some b := before then check !b
  let e ← deliver (.node n) .click
  if let some b := before then
    if e.prevented then check b
  return e

def input (n : NodeId) (value : String) : Proc Event := do
  modify fun h => h.setTree (h.page.tree.mapElement n fun e => { e with value := value })
  deliver (.node n) (.input value)

end Eventful.Host
