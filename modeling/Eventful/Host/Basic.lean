import Eventful.Binding.Outside
import Eventful.Clock
import Eventful.Host.Script
import Eventful.Page.Basic

/-
  Eventful.Host.Basic — a host: its page, clocks, scopes, runtimes and trackers.

  What the page, the clocks and the trackers keep of a callback is data that says who is
  called: a script, a binding, a runtime or a tracker. Clock 0 and the cache are the
  session's own. The log holds what callbacks did, last first.
-/

namespace Eventful.Host

open Page Binding

/-- Who a page listener calls. -/
inductive Reaction where
  | script (s : Script)
  | binding (rt id : Nat)
  | tracker (t : Nat)

/-- Who a tracker entry calls. -/
inductive Waiter where
  | script (s : Script)
  | binding (rt id : Nat)

/-- Who is told about nodes that left. -/
inductive Observer where
  | script (s : Script)
  | runtime (rt : Nat)

/-- A scope subscriber, for all paths or for one. -/
structure Watcher where
  path : Option String
  script : Script

/-- Who a timer calls. -/
inductive Alarm where
  | script (s : Script)
  /-- A debouncer's wait is over. -/
  | debouncer (d : Nat) (e : Event) (s : Script)
  /-- A debounced binding's wait is over. -/
  | binding (rt id : Nat) (e : Event)

/-- A debouncer by itself, on the session's clock. -/
structure Debouncer where
  wait : Nat
  /-- The timer of the waiting event. -/
  waiting : Option Nat
  /-- A handle to it can be had. -/
  held : Bool
  /-- How many of its callbacks are running. -/
  running : Nat

/-- A node as reports show it. -/
structure NodeView where
  links : List (Option NodeId)
  content : Content

/-- The result of an action. -/
inductive Answer where
  | done
  | nothing
  | flag (b : Bool)
  | flags (bs : List Bool)
  | count (n : Nat)
  | counts (ns : List Nat)
  | text (s : Option String)
  | node (n : Option NodeId)
  | nodes (ns : List NodeId)
  | removed (s : Option String)
  | refusedEdit (e : TreeError)
  | refusedBind (e : Directive.Error)
  | refusedConfig
  | element (e : Element)
  | view (v : NodeView)
  | views (vs : List NodeView)
  | document (url : String) (html head body : NodeId) (size : Nat)
  | event (e : Event)
  | value (v : Value)
  | outcome (o : Outcome)
  | program (nodes : Nat)
  | clock (now pending : Nat) (next : Option Nat)
  | debouncer (wait : Nat) (pending : Bool)
  | plan (p : Directive.Plan)
  | directive (d : Directive)
  | runtime (bindings listeners outside timers now wait : Nat)
  | tracker (entries : Nat) (debug : String)

/-- What a callback did. -/
inductive Note where
  | listener (label : String) (e : Event)
  | removed (label : String) (ns : List NodeId)
  | change (label : String) (c : Change)
  | timer (label : String) (now : Nat)
  | debounced (label : String) (e : Event)
  | outside (label : String) (e : Event)
  | failure (label : String) (f : Failure)
  /-- A custom evaluator was asked for an expression. -/
  | evaluate (expression : String) (scope : Nat) (event : String) (key : Option String)
  | did (a : Action) (r : Answer)

end Eventful.Host

namespace Eventful

open Page Binding Host

/-- A host at one moment. -/
structure Host where
  page : Page Reaction Observer
  clocks : List (Clock Alarm)
  scopes : List (Scope Watcher)
  cache : Expr.Cache
  runtimes : List (Runtime Script)
  trackers : List (Tracker Waiter)
  /-- The trackers made by themselves. -/
  sharedTrackers : List Nat
  debouncers : List Debouncer
  /-- The page's ids of the observers made by actions. -/
  observers : List Nat
  /-- The scope and id of the subscriptions. -/
  subscriptions : List (Nat × Nat)
  /-- The last event that came back from a dispatch. -/
  last : Option Event
  log : List Note

end Eventful

namespace Eventful.Host

open Page Binding

/-- A host with the given page and scopes. -/
def new (url : String) (globals : Globals) (scopes : List Value) : Host :=
  ⟨.new url globals, [.new], scopes.map .ofValue, .empty, [], [], [], [], [], [], none, []⟩

def note (h : Host) (n : Note) : Host := { h with log := n :: h.log }

def scope (h : Host) (i : Nat) : Scope Watcher := h.scopes[i]?.getD (.ofValue .empty)

def clock (h : Host) (c : Nat) : Clock Alarm := h.clocks[c]?.getD .new

def tracker (h : Host) (t : Nat) : Tracker Waiter := h.trackers[t]?.getD .empty

def runtime? (h : Host) (rt : Nat) : Option (Runtime Script) := h.runtimes[rt]?

/-- The runtime, while a handle to it can be had. -/
def held? (h : Host) (rt : Nat) : Option (Runtime Script) := (h.runtime? rt).filter (·.status == .held)

/-- The runtime, while it has not ended. -/
def alive? (h : Host) (rt : Nat) : Option (Runtime Script) := (h.runtime? rt).filter (·.status != .ended)

def setScope (h : Host) (i : Nat) (s : Scope Watcher) : Host := { h with scopes := h.scopes.set i s }

def setClock (h : Host) (c : Nat) (k : Clock Alarm) : Host := { h with clocks := h.clocks.set c k }

def setTracker (h : Host) (t : Nat) (k : Tracker Waiter) : Host := { h with trackers := h.trackers.set t k }

def editRuntime (h : Host) (rt : Nat) (f : Runtime Script → Runtime Script) : Host :=
  { h with runtimes := h.runtimes.modify rt f }

def setTree (h : Host) (t : Tree) : Host := { h with page := { h.page with tree := t } }

def setListeners (h : Host) (ls : Listeners Reaction) : Host := { h with page := { h.page with listeners := ls } }

/-- The number of a clock: clock 0 is the session's. -/
def clockOf (h : Host) : ClockOf → Nat
  | none => 0
  | some rt => ((h.runtime? rt).map (·.clock)).getD 0

/-- The number of a tracker. -/
def trackerOf? (h : Host) : TrackerOf → Option Nat
  | .shared i => h.sharedTrackers[i]?
  | .runtime rt => (h.held? rt).map (·.tracker)

/-! ## Listeners and timers -/

def listen (h : Host) (t : Target) (event : String) (o : Options) (r : Reaction) : Nat × Host :=
  let (id, ls) := h.page.listeners.add t event o r
  (id, h.setListeners ls)

def unlisten (h : Host) (id : Nat) : Bool × Host :=
  let (b, ls) := h.page.listeners.remove id
  (b, h.setListeners ls)

def startTimer (h : Host) (c delay : Nat) (a : Alarm) : Nat × Host :=
  let (id, k) := (h.clock c).start delay a
  (id, h.setClock c k)

def cancelTimer (h : Host) (c id : Nat) : Bool × Host :=
  let (b, k) := (h.clock c).cancel id
  (b, h.setClock c k)

/-- Cancels a timer if there is one. -/
def cancelWaiting (h : Host) (c : Nat) : Option Nat → Bool × Host
  | none => (false, h)
  | some id => h.cancelTimer c id

/-! ## Trackers -/

/-- Registers an entry; the first one of an event name installs the tracker's listener. -/
def register (h : Host) (t : Nat) (e : Entry Waiter) : Host :=
  let k := h.tracker t
  if k.isInstalled e.event then h.setTracker t (k.add e)
  else
    let (id, h) := h.listen .document e.event ⟨true, false, false⟩ (.tracker t)
    h.setTracker t { k.add e with installed := k.installed ++ [(e.event, id)] }

/-- Forgets the entries and removes the document listeners. -/
def resetTracker (h : Host) (t : Nat) : Host :=
  let h' := (h.tracker t).installed.foldl (fun h e => (h.unlisten e.2).2) h
  h'.setTracker t (h'.tracker t).reset

/-! ## Runtimes -/

/-- Takes back what a binding registered: its listener, its entry, its timer. -/
def withdraw (h : Host) (r : Runtime Script) (b : Bound) : Host :=
  let h := match b.listener with
    | some l => (h.unlisten l).2
    | none => h
  let h := if b.plan.isOutside then h.setTracker r.tracker ((h.tracker r.tracker).unregister b.id).2 else h
  (h.cancelWaiting r.clock b.waiting).2

/-- Whether the binding was live. -/
def unbind (h : Host) (rt id : Nat) : Bool × Host :=
  match (h.runtime? rt).bind fun r => (r.find? id).map fun b => (r, b) with
  | none => (false, h)
  | some (r, b) => (true, (h.editRuntime rt (·.without id)).withdraw r b)

def unbindAll (h : Host) (rt : Nat) (ids : List Nat) : Host := ids.foldl (fun h id => (h.unbind rt id).2) h

/-- Unbinds what is bound to the elements and says how many bindings that were. -/
def unbindElements (h : Host) (rt : Nat) (ns : List NodeId) : Nat × Host :=
  let ids := ((h.runtime? rt).map (·.boundTo ns)).getD []
  (ids.length, h.unbindAll rt ids)

/-- An evaluation of a binding ends; one that was unbound goes with its last evaluation. -/
def endEvaluation (h : Host) (rt id : Nat) : Host :=
  let h := h.editRuntime rt (·.edit id fun b => { b with running := b.running - 1 })
  match (h.runtime? rt).bind fun r => (r.gone? id).map fun b => (r, b) with
  | none => h
  | some (r, b) => (h.cancelWaiting r.clock b.waiting).2.editRuntime rt (·.forget id)

/-- Ends a runtime whose handle is gone, once it is idle. -/
def endIfIdle (h : Host) (rt : Nat) : Host :=
  match h.runtime? rt with
  | none => h
  | some r =>
    if r.status == .released && r.isIdle then
      let h := r.bindings.foldl (fun h b => h.withdraw r b) h
      let h := { h with page := (h.page.disconnect r.observer).2 }
      let h := if r.ownsTracker then h.setTracker r.tracker (h.tracker r.tracker).release else h
      h.editRuntime rt fun r => { r with status := .ended, bindings := [], hooks := [] }
    else h

def release (h : Host) (rt : Nat) : Host :=
  (h.editRuntime rt fun r => if r.status == .held then { r with status := .released } else r).endIfIdle rt

/-- A runtime has its own clock, or the session's, and its own tracker, or a shared one. -/
def addRuntime (h : Host) (config : Directive.Config) (s : Setup) : Nat × Host :=
  let rt := h.runtimes.length
  let (clock, h) : Nat × Host :=
    if s.ownClock then (h.clocks.length, { h with clocks := h.clocks ++ [.new] }) else (0, h)
  let shared := s.tracker.bind (h.sharedTrackers[·]?)
  let (tracker, h) : Nat × Host := match shared with
    | some t => (t, h)
    | none => (h.trackers.length, { h with trackers := h.trackers ++ [.empty] })
  let (observer, page) := h.page.observe (.runtime rt)
  let runtime : Runtime Script :=
    ⟨config, clock, tracker, shared.isNone, s.evaluator, [], [], 0, [], observer, .held⟩
  (rt, { h with page, runtimes := h.runtimes ++ [runtime] })

/-- Binds a directive on an element of the page, by a handle to the runtime. -/
def bind (h : Host) (rt : Nat) (n : NodeId) (d : Directive) (scope : Nat) : Except Directive.Error (Nat × Host) :=
  match h.held? rt with
  | none => .error (.unknownElement n)
  | some r =>
    if (h.page.tree.element? n).isNone then .error (.unknownElement n)
    else match Directive.Plan.build r.config d with
      | .error e => .error e
      | .ok plan =>
        let target := plan.place.target n
        if !h.page.globals.has target then .error (.missingTarget plan.place.label plan.event)
        else
          let id := r.lastId + 1
          let (listener, h) :=
            if plan.isOutside then (none, h.register r.tracker ⟨id, n, plan.event, .binding rt id⟩)
            else
              let (l, h) := h.listen target plan.event plan.options (.binding rt id)
              (some l, h)
          .ok (id, h.editRuntime rt fun r => { r with
            bindings := r.bindings ++ [⟨id, n, d, plan, scope, listener, false, none, 0⟩]
            lastId := id })

def bindAttr (h : Host) (rt : Nat) (n : NodeId) (attr expression : String) (scope : Nat) :
    Except Directive.Error (Nat × Host) :=
  match h.held? rt with
  | none => .error (.unknownElement n)
  | some r =>
    match Directive.parse r.config attr expression with
    | .error e => .error e
    | .ok d => h.bind rt n d scope

/-- Binds the attributes in order; the first error takes the others back. -/
def bindEach (h : Host) (rt : Nat) (n : NodeId) (scope : Nat) (bound : List Nat) :
    List (String × String) → Except Directive.Error (List Nat) × Host
  | [] => (.ok bound, h)
  | (attr, expression) :: rest =>
    match h.bindAttr rt n attr expression scope with
    | .ok (id, h) => h.bindEach rt n scope (bound ++ [id]) rest
    | .error e => (.error e, h.unbindAll rt bound)

/-- Binds every directive attribute of an element, or none. -/
def bindAttrs (h : Host) (rt : Nat) (n : NodeId) (scope : Nat) : Except Directive.Error (List Nat) × Host :=
  match h.held? rt, h.page.tree.element? n with
  | some r, some e => h.bindEach rt n scope [] (e.attrs.filter fun a => Directive.isDirective r.config a.1)
  | _, _ => (.error (.unknownElement n), h)

def resetOutside (h : Host) (rt : Nat) : Host :=
  match h.runtime? rt with
  | none => h
  | some r => (h.unbindAll rt r.outsideBindings).resetTracker r.tracker

/-! ## Debouncers -/

/-- The debouncer, while a handle to it can be had. -/
def debouncer? (h : Host) (d : Nat) : Option Debouncer := h.debouncers[d]?.filter (·.held)

def editDebouncer (h : Host) (d : Nat) (f : Debouncer → Debouncer) : Host :=
  { h with debouncers := h.debouncers.modify d f }

/-- Starts the wait of a debouncer anew. -/
def schedule (h : Host) (d : Nat) (e : Event) (s : Script) : Host :=
  match h.debouncer? d with
  | none => h
  | some k =>
    let h := (h.cancelWaiting 0 k.waiting).2
    let (id, h) := h.startTimer 0 k.wait (.debouncer d e s)
    h.editDebouncer d fun k => { k with waiting := some id }

/-- Whether an event was waiting. -/
def stopWaiting (h : Host) (d : Nat) : Bool × Host :=
  match h.debouncers[d]? with
  | none => (false, h)
  | some k =>
    let (b, h) := h.cancelWaiting 0 k.waiting
    (b, h.editDebouncer d fun k => { k with waiting := none })

def cancelDebouncer (h : Host) (d : Nat) : Bool × Host :=
  if (h.debouncer? d).isSome then h.stopWaiting d else (false, h)

/-- A debouncer whose handle is gone stops waiting, once none of its callbacks runs. -/
def settleDebouncer (h : Host) (d : Nat) : Host :=
  if h.debouncers[d]?.any fun k => !k.held && k.running == 0 then (h.stopWaiting d).2 else h

def dropDebouncer (h : Host) (d : Nat) : Host :=
  (h.editDebouncer d fun k => { k with held := false }).settleDebouncer d

end Eventful.Host
