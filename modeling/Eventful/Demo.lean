import Eventful.Host.Run

/-
  Eventful.Demo — a scripted session on a small page.

  The page has a dropdown menu, a search box, a checkbox and a keyboard shortcut. The
  session binds their directives under a configuration, replays user actions on the
  virtual clock and reports every change of the scope and every failed expression. A
  directive that does not bind ends the session.
-/

namespace Eventful.Demo

open Page Host

inductive Level where
  | info | warn
  deriving Repr, DecidableEq

structure Line where
  level : Level
  text : String
  deriving Repr, DecidableEq

/-- Why a session ended early. -/
inductive Stop where
  | refused (e : Directive.Error)
  /-- Callbacks set each other off without end. -/
  | endless

def Stop.message : Stop → String
  | .refused e => e.message
  | .endless => "Callbacks nested too deeply"

structure State where
  host : Host
  /-- The report so far, last line first. -/
  lines : List Line

abbrev Session := ExceptT Stop (StateM State)

def say (level : Level) (text : String) : Session Unit :=
  modify fun s => { s with lines := ⟨level, text⟩ :: s.lines }

def info (text : String) : Session Unit := say .info text

/-- The lines that a callback leaves. -/
def linesOf : Note → List Line
  | .change _ c => [⟨.info, "  " ++ c.path ++ " : " ++ c.old.display ++ " -> " ++ c.new.display⟩]
  | .failure _ f => [⟨.warn, f.message⟩, ⟨.info, "  reported: " ++ f.fault.message⟩]
  | _ => []

def depth : Nat := 1000

def act (a : Action) : Session Answer := do
  match (← get).host.act depth a with
  | none => throw .endless
  | some (answer, notes, host) =>
    modify fun s => ⟨host, (notes.flatMap linesOf).reverse ++ s.lines⟩
    return answer

def act' (a : Action) : Session Unit := do
  let _ ← act a

/-- An action whose refusal ends the session. -/
def require (a : Action) : Session Unit := do
  match ← act a with
  | .refusedBind e => throw (.refused e)
  | _ => return ()

def silent : Script := .mk "" []

/-! ## The page -/

def body : NodeId := 3
def header : NodeId := 4
def toggle : NodeId := 5
def menu : NodeId := 6
def search : NodeId := 8
def remember : NodeId := 9

def scopeAtStart : Value := .ofPairs [
  ("open", .boolean false),
  ("query", .text ""),
  ("searches", .number 0),
  ("saves", .number 0),
  ("locked", .boolean true)]

def elements : List Action := [
  .appendElement body "header",
  .appendElement header "button",
  .appendElement header "ul",
  .appendElement menu "li",
  .appendElement body "input",
  .appendElement body "input",
  .setAttr remember "type" "checkbox",
  .setSize menu 160 80,
  .setAttr toggle "@click" "open = !open",
  .setAttr menu "@click.away" "open = false",
  .setAttr search "x-on:input.debounce.300ms" "query = $event.value; searches++",
  .setAttr search "x-on:keydown.escape" "query = ''",
  .setAttr remember "@click" "locked ? false : undefined",
  .subscribe 0 none silent]

def start : Host := .new "about:playground" .browser [scopeAtStart]

/-! ## The session -/

def bindings : Session Nat := do return (((← get).host.runtime? 0).map (·.bindings.length)).getD 0

def key (name : String) (ctrl : Bool) : Keyboard := ⟨name, "", { Held.none with ctrl }, false⟩

def showChecked : Session Unit := do
  match ← act (.isChecked remember) with
  | .flag b => info ("  checked: " ++ Expr.boolText b)
  | _ => return ()

def setUp (config : Directive.Config) : Session Unit := do
  elements.forM act'
  modify fun s => { s with host := (s.host.addRuntime config ⟨none, false, none, .script .empty⟩).2 }
  act' (.onError 0 silent)
  [toggle, menu, search, remember].forM fun n => require (.bindAttributes 0 n 0)
  require (.bind 0 body "@keydown.window.ctrl.s.prevent" "saves++" 0)

def replay : Session Unit := do
  info "Open the menu, click inside it, then click elsewhere"
  act' (.click toggle)
  act' (.click menu)
  act' (.click search)
  info "Type a search term in a burst"
  ["r", "ru", "rus", "rust"].forM fun text => do
    act' (.input search text)
    act' (.advance none 80)
  act' (.advance none 300)
  info "Escape clears the query"
  act' (.keyDown search (key "Escape" false))
  info "Ctrl+S anywhere saves"
  let saved ← act (.keyDown remember (key "s" true))
  act' (.keyDown remember (key "s" false))
  if let .event e := saved then
    info ("  ctrl+s default prevented: " ++ Expr.boolText e.prevented)
  info "A locked checkbox refuses to toggle"
  act' (.click remember)
  showChecked
  act' (.set 0 "locked" (.boolean false))
  act' (.click remember)
  showChecked
  info "A broken expression is reported, not thrown"
  if let .refusedBind e := ← act (.bind 0 toggle "@dblclick" "menu.items.length" 0) then
    say .warn ("bind failed: " ++ e.message)
  act' (.dispatch (.node toggle) (.event (.new "dblclick" .plain)))
  info "Removing the menu drops its binding"
  let before ← bindings
  if let .refusedEdit e := ← act (.removeNode menu) then
    say .warn ("remove failed: " ++ e.message)
  info ("  bindings: " ++ toString before ++ " -> " ++ toString (← bindings))

def session (config : Directive.Config) : Session Unit := do
  info "Starting fOS playground"
  setUp config
  replay
  info ("Final scope: " ++ ((← get).host.scope 0).snapshot.display)

/-- The report under a configuration, and why the session ended early if it did. -/
def play (config : Directive.Config) : List Line × Option Stop :=
  let (r, s) := (session config).run.run ⟨start, []⟩
  (s.lines.reverse, match r with
    | .ok _ => none
    | .error e => some e)

end Eventful.Demo
