import Eventful.Host.Perform

/-
  Eventful.Host.Run — what the tasks of a host do, and running it.

  An event that reaches a binding passes its guards in order: the key filter, stop,
  prevent, outside; a debounced binding then starts its wait anew, any other is completed.
  Completing evaluates the expression: `false` prevents the event, a failure goes to the
  error hooks, and a `once` binding is unbound whatever came of it. While an effect runs
  its runtime does not end.
-/

namespace Eventful.Host

open Page Binding

/-! ## Scripts -/

/-- Does the actions in order, noting each; the event of the callback as they leave it. -/
def runActions (e : Option Event) : List Action → Proc (Option Event)
  | [] => return e
  | a :: rest => do
    let (e, r) ← match e.bind (onEvent? · a) with
      | some (e, r) => pure (some e, r)
      | none => do
        let r ← call (.act a)
        pure (e, r)
    modify (·.note (.did a r))
    runActions e rest

def runScript (s : Script) : Proc Unit := do
  let _ ← runActions none s.actions

def runWithEvent (s : Script) (e : Event) : Proc Event := do
  let e' ← runActions (some e) s.actions
  return e'.getD e

/-! ## Bindings -/

/-- A reachable binding of a runtime that has not ended. -/
def live? (h : Host) (rt id : Nat) : Option (Runtime Script × Bound) :=
  (h.alive? rt).bind fun r => (r.reachable? id).map fun b => (r, b)

def report (f : Failure) : List Script → Proc Unit
  | [] => return ()
  | s :: rest => do
    call (.hook s f)
    report f rest

/-- Evaluates a binding's expression for an event, unless it is a `once` binding that
    already ran; the event as that leaves it. -/
def complete (rt id : Nat) (e : Event) : Proc Event := do
  match live? (← get) rt id with
  | none => return e
  | some (_, b) =>
    let once := b.plan.isOnce
    if once && b.fired then return e
    else
      modify (·.editRuntime rt (·.edit id fun b => { b with fired := once, running := b.running + 1 }))
      let e ← match ← call (.effect rt b e) with
        | .ok (.boolean false) => pure e.prevent
        | .ok _ => pure e
        | .error fault => do
          let hooks := (((← get).runtime? rt).map (·.hooks)).getD []
          report ⟨id, b.element, b.plan.event, b.directive.expression, fault⟩ hooks
          pure e
      if once then
        modify fun h => (h.unbind rt id).2
      modify fun h => (h.endEvaluation rt id).endIfIdle rt
      return e

/-- Starts the wait of a debounced binding anew, with a copy of the event. -/
def arm (h : Host) (rt id wait : Nat) (e : Event) : Host :=
  match live? h rt id with
  | none => h
  | some (r, b) =>
    let h := (h.cancelWaiting r.clock b.waiting).2
    let (timer, h) := h.startTimer r.clock wait (.binding rt id e)
    h.editRuntime rt (·.edit id fun b => { b with waiting := some timer })

/-- The guards of a binding that an event still has to pass. -/
def passGuards (rt : Nat) (b : Bound) (e : Event) : List Directive.Guard → Proc Event
  | [] => complete rt b.id e
  | .key f :: rest => if f.passes e then passGuards rt b e rest else return e
  | .stop :: rest => passGuards rt b e.stop rest
  | .prevent :: rest => passGuards rt b e.prevent rest
  | .outside :: rest => do
    if acceptsOutside (← get).page.tree b.element e.target then passGuards rt b e rest else return e
  | .debounce wait :: _ => do
    modify (·.arm rt b.id wait e)
    return e
  | .once :: rest => passGuards rt b e rest

/-- An event reaches a binding. -/
def fire (rt id : Nat) (e : Event) : Proc Event := do
  match live? (← get) rt id with
  | none => return e
  | some (_, b) => if b.plan.isOnce && b.fired then return e else passGuards rt b e b.plan.guards

/-- Calls the entries that are still registered and accept the event. -/
def callEntries (t : Nat) (e : Event) : List (Entry Waiter) → Proc Event
  | [] => return e
  | w :: rest => do
    let h ← get
    if (h.tracker t).isRegistered w.binding && acceptsOutside h.page.tree w.element e.target then
      callEntries t (← call (.outside w e)) rest
    else callEntries t e rest

/-! ## Tasks -/

/-- What each task does. -/
def Task.body {κ : Kind} : Task κ → Proc κ.Carrier
  | .listen l e =>
    match l.action with
    | .script s => do
      modify (·.note (.listener s.label e))
      runWithEvent s e
    | .binding rt id => fire rt id e
    | .tracker t => do
      modify fun h => h.setTracker t (h.tracker t).beginWalk
      let e ← callEntries t e (((← get).tracker t).select e.name)
      modify fun h => h.setTracker t (h.tracker t).endWalk
      return e
  | .outside w e =>
    match w.action with
    | .script s => do
      modify (·.note (.outside s.label e))
      runWithEvent s e
    | .binding rt id => fire rt id e
  | .effect rt b e => do
    match (← get).runtime? rt with
    | none => return .ok .undefined
    | some r =>
      match r.evaluator with
      | .custom rule =>
        modify (·.note (.evaluate b.directive.expression b.scope e.name e.key?))
        converse b.scope (rule b.directive.expression e)
      | .script cache =>
        let (dialogue, cache) := evaluateScript cache b.directive.expression (.ofEvent e)
        modify (·.editRuntime rt fun r => { r with evaluator := .script cache })
        converse b.scope dialogue
  | .watch w c => do
    if w.path.all (· == c.path) then
      modify (·.note (.change w.script.label c))
      runScript w.script
  | .observe o ns =>
    match o with
    | .script s => do
      modify (·.note (.removed s.label ns))
      runScript s
    | .runtime rt => do
      if ((← get).alive? rt).isSome then
        modify fun h => (h.unbindElements rt ns).2
  | .hook s f => do
    modify (·.note (.failure s.label f))
    runScript s
  | .ring c t =>
    match t.action with
    | .script s => do
      modify fun h => h.note (.timer s.label (h.clock c).now)
      runScript s
    | .debouncer d e s => do
      modify (·.editDebouncer d fun k => { k with waiting := none, running := k.running + 1 })
      modify (·.note (.debounced s.label e))
      let _ ← runWithEvent s e
      modify fun h => (h.editDebouncer d fun k => { k with running := k.running - 1 }).settleDebouncer d
    | .binding rt id e => do
      modify (·.editRuntime rt (·.edit id fun b => { b with waiting := none }))
      let _ ← complete rt id e
  | .advance c instant => do
    match ((← get).clock c).takeDue? instant with
    | none =>
      modify fun h => h.setClock c ((h.clock c).moveTo instant)
      return 0
    | some (t, k) =>
      modify fun h => h.setClock c k
      call (.ring c t)
      return (← call (.advance c instant)) + 1
  | .act a => perform a

/-- Runs a task with calls nested at most `depth` deep. -/
def Task.run : Nat → (κ : Kind) → Task κ → Host → Option (κ.Carrier × Host)
  | 0, _, _, _ => none
  | depth + 1, _, t, h => t.body.runWith (Task.run depth) h

/-- Runs a procedure with calls nested at most `depth` deep. -/
def Proc.run {α : Type} (depth : Nat) (p : Proc α) (h : Host) : Option (α × Host) := p.runWith (Task.run depth) h

/-- Does an action of the session: its answer, what its callbacks did in order, and the
    host afterwards. Nothing if calls nest deeper than `depth`. -/
def act (depth : Nat) (a : Action) (h : Host) : Option (Answer × List Note × Host) :=
  ((perform a).run depth { h with log := [] }).map fun (r, h) => (r, h.log.reverse, h)

end Eventful.Host
