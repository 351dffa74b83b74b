import Eventful.Expr.Listing
import Eventful.Host.Dispatch
import Eventful.Host.Writing
import Eventful.Value.OfEvent
import Eventful.Value.Show

/-
  Eventful.Host.Perform — what the actions of a host do.

  Every action has one answer. Those that stand in the callback of an event act on that
  event (`onEvent?`); outside of one they answer nothing.
-/

namespace Eventful.Host

open Page Binding

/-! ## Removals -/

def informAll (ns : List NodeId) : List (Nat × Observer) → Proc Unit
  | [] => return ()
  | (_, o) :: rest => do
    call (.observe o ns)
    informAll ns rest

def removeNode (n : NodeId) : Proc Answer := do
  match (← get).page.removeNode n with
  | .error e => return .refusedEdit e
  | .ok (ns, page) =>
    modify fun h => { h with page }
    unless ns.isEmpty do informAll ns page.observers
    return .done

/-! ## Timers -/

/-- Runs at most `limit` timers; how many it ran. -/
def runTimers (c : Nat) : Nat → Proc Nat
  | 0 => return 0
  | limit + 1 => do
    match ((← get).clock c).takeFirst? with
    | none => return 0
    | some (t, k) =>
      modify fun h => h.setClock c k
      call (.ring c t)
      return (← runTimers c limit) + 1

/-! ## Parts of actions -/

/-- What an action does to the event of the callback it stands in, and its answer. -/
def onEvent? (e : Event) : Action → Option (Event × Answer)
  | .stop => some (e.stop, .event e.stop)
  | .stopAtOnce => some (e.stopAtOnce, .event e.stopAtOnce)
  | .prevent => some (e.prevent, .event e.prevent)
  | .event => some (e, .event e)
  | .eventValue => some (e, .value (.ofEvent e))
  | _ => none

def answer (f : Host → Answer) : Proc Answer := return f (← get)

def edit (f : Tree → Except TreeError Tree) : Proc Answer := do
  match f (← get).page.tree with
  | .error e => return .refusedEdit e
  | .ok t =>
    modify (·.setTree t)
    return .done

/-- Adds a node; its number. -/
def create (f : Tree → NodeId × Tree) : Proc NodeId := do
  let (n, t) := f (← get).page.tree
  modify (·.setTree t)
  return n

def onNode (n : NodeId) (f : Element → Answer) (other : Answer) : Proc Answer :=
  answer fun h => ((h.page.tree.element? n).map f).getD other

/-- The event of a source; none if nothing came back yet. -/
def eventOf (s : Source) : Proc (Option Event) := do
  match s with
  | .event e => return some e
  | .last => return (← get).last

/-- Remembers an event that came back. -/
def back (e : Event) : Proc Answer := do
  modify fun h => { h with last := some e }
  return .event e

def view (t : Tree) (n : NodeId) : Option NodeView :=
  (t.content? n).map fun content =>
    ⟨[t.parent? n, t.firstChild? n, t.lastChild? n, t.previousSibling? n, t.nextSibling? n], content⟩

def subject (h : Host) : Subject → String
  | .page => h.page.debug
  | .scope i =>
    "Scope \x7b data: " ++ (h.scope i).snapshot.debug ++ ", version: " ++ toString (h.scope i).version ++ " \x7d"
  | .clock c => (h.clock (h.clockOf c)).debug
  | .runtime rt => ((h.held? rt).map (·.debug)).getD ""
  | .cache => "Interpreter \x7b cached: " ++ toString h.cache.size ++ " \x7d"

def onDebouncer (d : Nat) (f : Debouncer → Answer) : Proc Answer :=
  answer fun h => ((h.debouncer? d).map f).getD .nothing

def onBinding (rt id : Nat) (f : Bound → Answer) : Proc Answer :=
  answer fun h => (((h.held? rt).bind (·.find? id)).map f).getD .nothing

def onTracker (t : TrackerOf) (f : Tracker Waiter → Answer) : Proc Answer :=
  answer fun h => ((h.trackerOf? t).map fun i => f (h.tracker i)).getD .nothing

/-- An edit of the host with a result. -/
def change {α : Type} (f : Host → α × Host) : Proc α := modifyGet f

/-- The result of a binding attempt; a failed one leaves the host as it was. -/
def attempt (f : Host → Except Directive.Error (Nat × Host)) : Proc Answer := do
  match f (← get) with
  | .error e => return .refusedBind e
  | .ok (id, h) =>
    set h
    return .count id

/-! ## Actions -/

/-- Does an action; its answer. -/
def perform : Action → Proc Answer
  -- the tree
  | .createElement tag => do return .node (← create (·.createElement tag))
  | .createText s => do return .node (← create (·.createText s))
  | .makeComment n s => change fun h =>
    (.flag (h.page.tree.has n), h.setTree (h.page.tree.setContent n (.comment s)))
  | .appendElement parent tag => change fun h =>
    match h.page.tree.appendElement parent tag with
    | (.ok n, t) => (.node n, h.setTree t)
    | (.error e, t) => (.refusedEdit e, h.setTree t)
  | .appendChild parent child => edit (·.appendChild parent child)
  | .removeNode n => removeNode n
  | .detachNode n => edit (·.removeChild n)
  | .setAttr n name value => edit (·.editElement n (·.setAttr name value))
  | .attr n name => onNode n (fun e => .text (e.attr? name)) (.text none)
  | .removeAttr n name => do
    match (← get).page.tree.removeAttr n name with
    | .error e => return .refusedEdit e
    | .ok (old, t) =>
      modify (·.setTree t)
      return .removed old
  | .addClass n c => edit (·.editElement n (·.addClass c))
  | .removeClass n c => edit (·.editElement n (·.removeClass c))
  | .hasClass n c => onNode n (fun e => .flag (e.hasClass c)) (.flag false)
  | .setSize n width height => edit (·.editElement n (·.setSize width height))
  | .setBox n width height => change fun h =>
    (.flag (h.page.tree.element? n).isSome,
      h.setTree (h.page.tree.mapElement n fun e => { e with box := .sized width height }))
  | .hasBox n => onNode n (fun e => .flag e.box.isVisible) .nothing
  | .textContent n => answer fun h => .text (some (h.page.tree.textContent n))
  | .setText n s => edit (·.setText n s)
  | .findTag n tag => answer fun h => .node (h.page.tree.findTag? n tag)
  | .queryTag tag => answer fun h => .node (h.page.tree.findTag? root tag)
  | .byId id => answer fun h => .node (h.page.tree.findId? id)
  | .subtree n => answer fun h => .nodes (h.page.tree.subtree n)
  | .ancestors n => answer fun h => .nodes (h.page.tree.ancestors n)
  | .children n => answer fun h => .nodes (h.page.tree.children n)
  | .parent n => answer fun h => .node (h.page.tree.parent? n)
  | .contains a n => answer fun h => .flag (h.page.tree.contains a n)
  | .isConnected n => answer fun h => .flag (h.page.tree.isConnected n)
  | .tag n => onNode n (fun e => .text (some e.tag)) .nothing
  | .element n => onNode n .element .nothing
  | .node n => answer fun h => ((view h.page.tree n).map .view).getD .nothing
  | .dump => answer fun h => .views ((List.range h.page.tree.size).filterMap (view h.page.tree))
  | .document => answer fun h => .document h.page.url h.page.html h.page.head h.page.body h.page.tree.size
  -- listeners and dispatch
  | .globals => answer fun h => .flags [h.page.globals.window, h.page.globals.document, h.page.globals.has (.node root)]
  | .hasGlobal t => answer fun h => .flag (h.page.globals.has t)
  | .listen t event o s => change fun h =>
    let (id, h) := h.listen t event o (.script s)
    (.count id, h)
  | .unlisten id => change fun h =>
    let (b, h) := h.unlisten id
    (.flag b, h)
  | .hasListener id => answer fun h => .flag (h.page.listeners.contains id)
  | .listenerCount t event => answer fun h => .count (h.page.listeners.count t event)
  | .totalListeners => answer fun h => .count h.page.listeners.size
  | .observe s => change fun h =>
    let (id, page) := h.page.observe (.script s)
    (.count h.observers.length, { h with page, observers := h.observers ++ [id] })
  | .disconnect o => change fun h =>
    match h.observers[o]? with
    | none => (.flag false, h)
    | some id =>
      let (b, page) := h.page.disconnect id
      (.flag b, { h with page })
  | .dispatch t s => do
    match ← eventOf s with
    | none => return .nothing
    | some e => back (← deliver t e)
  | .click n => do back (← click n)
  | .keyDown n k => do back (← deliver (.node n) (.keyDown k))
  | .keyUp n k => do back (← deliver (.node n) (.keyUp k))
  | .input n v => do back (← input n v)
  | .isChecked n => onNode n (fun e => .flag e.checked) (.flag false)
  | .lastValue => answer fun h => (h.last.map fun e => .value (.ofEvent e)).getD .nothing
  -- scopes
  | .newScope v => change fun h => (.count h.scopes.length, { h with scopes := h.scopes ++ [.ofValue v] })
  | .has i name => answer fun h => .flag ((h.scope i).has name)
  | .get i name => answer fun h => .value ((h.scope i).get name)
  | .getPath i path => answer fun h => .value ((h.scope i).getPath path)
  | .set i name v => do
    let _ ← write i [name] v
    answer fun h => .count (h.scope i).version
  | .setPath i path v => do
    match ← write i path v with
    | .error b => return .outcome (.error (.blocked b))
    | .ok () => answer fun h => .count (h.scope i).version
  | .version i => answer fun h => .count (h.scope i).version
  | .snapshot i => answer fun h => .value (h.scope i).snapshot
  | .subscribe i path s => change fun h =>
    let (id, scope) := (h.scope i).subscribe ⟨path, s⟩
    (.count h.subscriptions.length, { h.setScope i scope with subscriptions := h.subscriptions ++ [(i, id)] })
  | .unsubscribe sub => change fun h =>
    match h.subscriptions[sub]? with
    | none => (.flag false, h)
    | some (i, id) =>
      let (b, scope) := (h.scope i).unsubscribe id
      (.flag b, h.setScope i scope)
  | .eval i source locals fresh => do return .outcome (← evaluate i source locals fresh)
  | .compile source => change fun h =>
    let (r, cache) := h.cache.compile source
    let answer := match r with
      | .ok p => .program p.count
      | .error f => .outcome (.error f)
    (answer, { h with cache })
  | .cached => answer fun h => .count h.cache.size
  -- timers and debouncers
  | .timeout c delay s => change fun h =>
    let (id, h) := h.startTimer (h.clockOf c) delay (.script s)
    (.count id, h)
  | .clear c id => change fun h =>
    let (b, h) := h.cancelTimer (h.clockOf c) id
    (.flag b, h)
  | .timerPending c id => answer fun h => .flag ((h.clock (h.clockOf c)).isPending id)
  | .advance c delta => do
    let h ← get
    let n := h.clockOf c
    return .count (← call (.advance n ((h.clock n).instant delta)))
  | .advanceTo c instant => do return .count (← call (.advance ((← get).clockOf c) instant))
  | .runUntilIdle c limit => do return .count (← runTimers ((← get).clockOf c) limit)
  | .clock c => answer fun h =>
    let k := h.clock (h.clockOf c)
    .clock k.now k.pending k.untilNext?
  | .newDebouncer wait => change fun h =>
    (.count h.debouncers.length, { h with debouncers := h.debouncers ++ [⟨wait, none, true, 0⟩] })
  | .schedule d source s => do
    match ← eventOf source with
    | none => return .nothing
    | some e =>
      modify (·.schedule d e s)
      answer fun h => .count (h.clock 0).pending
  | .cancelDebouncer d => change fun h =>
    let (b, h) := h.cancelDebouncer d
    (.flag b, h)
  | .debouncer d => onDebouncer d fun k => .debouncer k.wait k.waiting.isSome
  | .dropDebouncer d => do
    modify (·.dropDebouncer d)
    answer fun h => .count (h.clock 0).pending
  -- runtimes
  | .newRuntime s =>
    match s.config.elim (some .default) Directive.Config.ofJson? with
    | none => return .refusedConfig
    | some config => change fun h =>
      let (rt, h) := h.addRuntime config s
      (.count rt, h)
  | .dropRuntime rt => do
    modify (·.release rt)
    answer fun h => .count h.page.listeners.size
  | .bind rt n attr expression scope => attempt (·.bindAttr rt n attr expression scope)
  | .bindDirective rt n d scope => attempt (·.bind rt n d scope)
  | .bindAttributes rt n scope => change fun h =>
    match h.bindAttrs rt n scope with
    | (.ok ids, h) => (.counts ids, h)
    | (.error e, h) => (.refusedBind e, h)
  | .unbind rt id => change fun h =>
    let (b, h) := h.unbind rt id
    (.flag b, h)
  | .unbindElement rt n => change fun h =>
    let (k, h) := h.unbindElements rt [n]
    (.count k, h)
  | .isBound rt id => answer fun h => .flag ((h.held? rt).any (·.isBound id))
  | .isPending rt id => answer fun h => .flag ((h.held? rt).any (·.isPending id))
  | .bindingsFor rt n => answer fun h => .counts (((h.held? rt).map (·.boundTo [n])).getD [])
  | .planOf rt id => onBinding rt id fun b => .plan b.plan
  | .directiveOf rt id => onBinding rt id fun b => .directive b.directive
  | .onError rt s => do
    modify (·.editRuntime rt fun r => { r with hooks := r.hooks ++ [s] })
    return .nothing
  | .resetOutside rt => do
    modify (·.resetOutside rt)
    answer fun h => .count h.page.listeners.size
  | .runtimeState rt => answer fun h =>
    match h.held? rt with
    | none => .nothing
    | some r =>
      let k := h.clock r.clock
      .runtime r.bindings.length h.page.listeners.size (h.tracker r.tracker).entries.length k.pending k.now
        r.config.defaultWait
  -- outside trackers
  | .newTracker => change fun h =>
    (.count h.sharedTrackers.length, { h with
      trackers := h.trackers ++ [.empty]
      sharedTrackers := h.sharedTrackers ++ [h.trackers.length] })
  | .registerOutside t id n event s => do
    if let some i := (← get).trackerOf? t then
      modify (·.register i ⟨id, n, event, .script s⟩)
    onTracker t fun k => .count k.entries.length
  | .unregisterOutside t id => change fun h =>
    match h.trackerOf? t with
    | none => (.nothing, h)
    | some i =>
      let (b, k) := (h.tracker i).unregister id
      (.flag b, h.setTracker i k)
  | .resetTracker t => do
    if let some i := (← get).trackerOf? t then
      modify (·.resetTracker i)
    answer fun h => .count h.page.listeners.size
  | .trackerState t => onTracker t fun k => .tracker k.entries.length k.debug
  | .hasOutside t id => onTracker t fun k => .flag (k.isRegistered id)
  | .isInstalled t event => onTracker t fun k => .flag (k.isInstalled event)
  | .outside n t => answer fun h => .flags [isOutside h.page.tree n t, isInteractable h.page.tree n]
  -- reports
  | .debug s => answer fun h => .text (some (subject h s))
  -- outside of the callback of an event
  | .stop | .stopAtOnce | .prevent | .event | .eventValue => return .nothing

end Eventful.Host
