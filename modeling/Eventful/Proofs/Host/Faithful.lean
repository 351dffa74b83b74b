import Eventful.Proofs.Host.Calls
import Eventful.Proofs.Host.Mirroring

/-
  Eventful.Proofs.Host.Faithful — what tasks do, whatever the evaluators.

  Every procedure of a host mirrors itself, but for the two that have to do with evaluators
  and faults: an evaluation comes back with another outcome if it fails
  (`mirrors_effect`), and after that error hooks are called (`faithful_complete`).
-/

namespace Eventful.Host

open Page Binding

variable {α β : Type} {κ : Kind} {c : Evaluator → Evaluator} {h h₁ h₂ : Host} {R : α → α → Prop} {p : Proc α}

section

variable (hc : Canonical c)

include hc

/-! ## Writing -/

omit hc in
theorem faithful_tellAll (ch : Change) (ws : List (Nat × Watcher)) : Faithful c (tellAll ch ws) := by
  induction ws with
  | nil => exact faithful_pure ()
  | cons w rest ih => exact faithful_call trivial fun _ => ih

theorem faithful_write (scope : Nat) (path : List String) (v : Value) : Faithful c (write scope path v) := by
  refine faithful_get (fun _ => rfl) fun h => ?_
  split
  · exact faithful_pure _
  · refine faithful_modify hc (fun _ => rfl) ?_
    dsimp only
    split
    · exact (faithful_tellAll _ _).bind fun _ => faithful_pure _
    · exact faithful_pure _

theorem faithful_converse (scope : Nat) (d : Expr.Dialogue α) : Faithful c (converse scope d) := by
  induction d with
  | done a => exact faithful_pure a
  | ask name k ih => exact faithful_get (fun _ => rfl) fun h => ih _
  | tell path v k ih => exact (faithful_write hc scope path v).bind ih

theorem faithful_evaluate (scope : Nat) (source : String) (locals : List (String × Value)) (fresh : Bool) :
    Faithful c (evaluate scope source locals fresh) := by
  unfold evaluate
  split
  · exact faithful_converse hc _ _
  · exact faithful_get (fun _ => rfl) fun h => faithful_modify hc (fun _ => rfl) (faithful_converse hc _ _)

/-! ## Dispatches -/

theorem faithful_callListeners (e : Event) (ls : List (Listener Reaction)) : Faithful c (callListeners e ls) := by
  induction ls generalizing e with
  | nil => exact faithful_pure e
  | cons l rest ih =>
    refine faithful_get (fun _ => rfl) fun h => ?_
    have hcall : Faithful c (do
        let e ← call (.listen l { e with passive := l.options.passive })
        let e := { e with passive := false }
        if e.stoppedAtOnce then return e else callListeners e rest : Proc Event) := by
      refine faithful_call trivial fun r => ?_
      dsimp only
      split
      · exact faithful_pure _
      · exact ih _
    split
    · split
      · exact faithful_modify hc (fun _ => rfl) hcall
      · exact hcall
    · exact ih e

theorem faithful_makeRounds (e : Event) (rs : List Round) : Faithful c (makeRounds e rs) := by
  induction rs generalizing e with
  | nil => exact faithful_pure e
  | cons r rest ih =>
    refine faithful_get (fun _ => rfl) fun h => (faithful_callListeners hc _ _).bind fun e' => ?_
    split
    · exact faithful_pure _
    · exact ih e'

theorem faithful_deliver (target : Target) (e : Event) : Faithful c (deliver target e) := by
  refine faithful_get (fun _ => rfl) fun h => (faithful_makeRounds hc _ _).bind fun e' => ?_
  dsimp only
  split
  · exact faithful_pure _
  · exact (faithful_makeRounds hc _ _).bind fun _ => faithful_pure _

theorem faithful_click (n : NodeId) : Faithful c (click n) := by
  refine faithful_get (fun _ => rfl) fun h => ?_
  dsimp only
  generalize ((h.page.tree.element? n).bind fun e => if e.isCheckbox then some e.checked else none) = before
  cases before with
  | none => exact (faithful_deliver hc _ _).bind fun e => faithful_pure e
  | some b =>
    refine faithful_modify hc (fun _ => rfl) ((faithful_deliver hc _ _).bind fun e => ?_)
    dsimp only
    split
    · exact faithful_modify hc (fun _ => rfl) (faithful_pure e)
    · exact faithful_pure e

theorem faithful_input (n : NodeId) (value : String) : Faithful c (input n value) :=
  faithful_modify hc (fun _ => rfl) (faithful_deliver hc _ _)

theorem faithful_back (e : Event) : Faithful c (back e) := faithful_modify hc (fun _ => rfl) (faithful_pure _)

omit hc in
theorem faithful_eventOf (source : Source) : Faithful c (eventOf source) := by
  cases source with
  | event e => exact faithful_pure _
  | last => exact faithful_get (fun _ => rfl) fun _ => faithful_pure _

/-! ## Actions -/

omit hc in
theorem faithful_informAll (ns : List NodeId) (os : List (Nat × Observer)) : Faithful c (informAll ns os) := by
  induction os with
  | nil => exact faithful_pure ()
  | cons o rest ih => exact faithful_call trivial fun _ => ih

theorem faithful_removeNode (n : NodeId) : Faithful c (removeNode n) := by
  refine faithful_get (fun _ => rfl) fun h => ?_
  split
  · exact faithful_pure _
  · refine faithful_modify hc (fun _ => rfl) ?_
    dsimp only
    split
    · exact faithful_pure _
    · exact (faithful_informAll _ _).bind fun _ => faithful_pure _

theorem faithful_runTimers (k limit : Nat) : Faithful c (runTimers k limit) := by
  induction limit with
  | zero => exact faithful_pure _
  | succ limit ih =>
    refine faithful_get (fun _ => rfl) fun h => ?_
    split
    · exact faithful_pure _
    · exact faithful_modify hc (fun _ => rfl) (faithful_call trivial fun _ => ih.bind fun _ => faithful_pure _)

theorem faithful_treeEdit (f : Tree → Except TreeError Tree) : Faithful c (edit f) := by
  refine faithful_get (fun _ => rfl) fun h => ?_
  split
  · exact faithful_pure _
  · exact faithful_modify hc (fun _ => rfl) (faithful_pure _)

theorem faithful_create (f : Tree → NodeId × Tree) : Faithful c (create f) :=
  faithful_get (fun _ => rfl) fun _ => faithful_modify hc (fun _ => rfl) (faithful_pure _)

omit hc in
theorem faithful_attempt {f : Host → Except Directive.Error (Nat × Host)}
    (hf : ∀ h, f (h.recast c) = (f h).map fun (id, h) => (id, h.recast c)) : Faithful c (attempt f) := by
  intro h₁ h₂ ha
  have he : ((f h₁).map fun (id, h) => (id, h.recast c)) = (f h₂).map fun (id, h) => (id, h.recast c) := by
    rw [← hf h₁, ← hf h₂, ha]
  refine .get (.get' ?_)
  simp only [Proc.bind]
  cases hf₁ : f h₁ with
  | error x =>
    cases hf₂ : f h₂ with
    | error y =>
      rw [hf₁, hf₂] at he
      cases he
      exact .done ha rfl
    | ok y =>
      rw [hf₁, hf₂] at he
      cases he
  | ok x =>
    cases hf₂ : f h₂ with
    | error y =>
      rw [hf₁, hf₂] at he
      cases he
    | ok y =>
      rw [hf₁, hf₂] at he
      obtain ⟨hid, hhost⟩ := Prod.mk.inj (Except.ok.inj he)
      exact .set (.set' (.done hhost (congrArg Answer.count hid)))

omit hc in
theorem faithful_onBinding (rt id : Nat) (f : Bound → Answer) : Faithful c (onBinding rt id f) := by
  refine faithful_answer fun h => ?_
  rw [recast_held?]
  cases h.held? rt <;> rfl

omit hc in
theorem faithful_onTracker (t : TrackerOf) (f : Tracker Waiter → Answer) : Faithful c (onTracker t f) := by
  refine faithful_answer fun h => ?_
  rw [recast_trackerOf?]
  rfl

theorem faithful_perform (a : Action) : Faithful c (perform a) := by
  cases a with
  | createElement | createText => exact (faithful_create hc _).bind fun _ => faithful_pure _
  | makeComment n s => exact faithful_edit hc fun _ => rfl
  | appendElement parent tag =>
    refine faithful_edit hc fun h => ?_
    have hpage : (h.recast c).page = h.page := rfl
    rw [hpage]
    rcases h.page.tree.appendElement parent tag with ⟨_ | _, t⟩ <;> rfl
  | appendChild | detachNode | setAttr | addClass | removeClass | setSize | setText =>
    unfold perform
    exact faithful_treeEdit hc _
  | removeNode n => exact faithful_removeNode hc n
  | removeAttr n name =>
    refine faithful_get (fun _ => rfl) fun h => ?_
    split
    · exact faithful_pure _
    · exact faithful_modify hc (fun _ => rfl) (faithful_pure _)
  | setBox n width height => exact faithful_edit hc fun _ => rfl
  | listen | unlisten | observe => exact faithful_edit hc fun _ => rfl
  | disconnect o =>
    refine faithful_edit hc fun h => ?_
    have hobservers : (h.recast c).observers = h.observers := rfl
    dsimp only
    rw [hobservers]
    cases h.observers[o]? <;> rfl
  | dispatch t s =>
    refine (faithful_eventOf s).bind fun o => ?_
    cases o with
    | none => exact faithful_pure _
    | some e => exact (faithful_deliver hc _ _).bind fun e => faithful_back hc e
  | click n => exact (faithful_click hc n).bind fun e => faithful_back hc e
  | keyDown | keyUp => exact (faithful_deliver hc _ _).bind fun e => faithful_back hc e
  | input n v => exact (faithful_input hc n v).bind fun e => faithful_back hc e
  | newScope v => exact faithful_edit hc fun _ => rfl
  | set i name v => exact (faithful_write hc i [name] v).bind fun _ => faithful_answer fun _ => rfl
  | setPath i path v =>
    refine (faithful_write hc i path v).bind fun r => ?_
    cases r with
    | error b => exact faithful_pure _
    | ok u => exact faithful_answer fun _ => rfl
  | subscribe i path s => exact faithful_edit hc fun _ => rfl
  | unsubscribe sub =>
    refine faithful_edit hc fun h => ?_
    have hsubscriptions : (h.recast c).subscriptions = h.subscriptions := rfl
    dsimp only
    rw [hsubscriptions]
    cases h.subscriptions[sub]? <;> rfl
  | eval i source locals fresh => exact (faithful_evaluate hc i source locals fresh).bind fun _ => faithful_pure _
  | compile source => exact faithful_edit hc fun _ => rfl
  | timeout k delay s =>
    refine faithful_edit hc fun h => ?_
    rw [recast_clockOf]
    rfl
  | clear k id =>
    refine faithful_edit hc fun h => ?_
    rw [recast_clockOf]
    rfl
  | timerPending k id | clock k =>
    refine faithful_answer fun h => ?_
    rw [recast_clockOf]
    rfl
  | advance k delta =>
    refine faithful_get (fun h => ?_) fun h => faithful_call trivial fun _ => faithful_pure _
    rw [recast_clockOf]
    rfl
  | advanceTo k instant =>
    refine faithful_get (fun h => ?_) fun h => faithful_call trivial fun _ => faithful_pure _
    rw [recast_clockOf]
  | runUntilIdle k limit =>
    refine faithful_get (fun h => ?_) fun h => (faithful_runTimers hc _ limit).bind fun _ => faithful_pure _
    rw [recast_clockOf]
  | newDebouncer wait => exact faithful_edit hc fun _ => rfl
  | schedule d source s =>
    refine (faithful_eventOf source).bind fun o => ?_
    cases o with
    | none => exact faithful_pure _
    | some e => exact faithful_modify hc (fun h => recast_schedule c h d e s) (faithful_answer fun _ => rfl)
  | cancelDebouncer d =>
    refine faithful_edit hc fun h => ?_
    rw [recast_cancelDebouncer]
  | dropDebouncer d =>
    exact faithful_modify hc (fun h => recast_dropDebouncer c h d) (faithful_answer fun _ => rfl)
  | newRuntime s =>
    unfold perform
    dsimp only
    split
    · exact faithful_pure _
    · refine faithful_change fun h => ?_
      obtain ⟨hid, hhost⟩ := recast_addRuntime c h _ s hc.twice
      exact ⟨congrArg Answer.count hid, hhost⟩
  | dropRuntime rt =>
    exact faithful_modify hc (fun h => recast_release c h rt) (faithful_answer fun _ => rfl)
  | bind rt n attr expression scope => exact faithful_attempt fun h => recast_bindAttr c h rt n attr expression scope
  | bindDirective rt n d scope => exact faithful_attempt fun h => recast_bind c h rt n d scope
  | bindAttributes rt n scope =>
    refine faithful_edit hc fun h => ?_
    rw [recast_bindAttrs]
    rcases h.bindAttrs rt n scope with ⟨_ | _, h'⟩ <;> rfl
  | unbind rt id =>
    refine faithful_edit hc fun h => ?_
    rw [recast_unbind]
  | unbindElement rt n =>
    refine faithful_edit hc fun h => ?_
    rw [recast_unbindElements]
  | isBound rt id | isPending rt id | bindingsFor rt n | runtimeState rt =>
    refine faithful_answer fun h => ?_
    rw [recast_held?]
    cases h.held? rt <;> rfl
  | planOf | directiveOf =>
    unfold perform
    exact faithful_onBinding _ _ _
  | onError rt s => exact faithful_modify hc (fun h => recast_editRuntime c h rt _ fun _ => rfl) (faithful_pure _)
  | resetOutside rt =>
    exact faithful_modify hc (fun h => recast_resetOutside c h rt) (faithful_answer fun _ => rfl)
  | newTracker => exact faithful_edit hc fun _ => rfl
  | registerOutside t id n event s =>
    refine faithful_get (fun h => ?_) fun h => ?_
    · rw [recast_trackerOf?]
    · split
      · exact faithful_modify hc (fun h => recast_register c h _ _) (faithful_onTracker t _)
      · exact faithful_onTracker t _
  | unregisterOutside t id =>
    refine faithful_edit hc fun h => ?_
    rw [recast_trackerOf?]
    cases h.trackerOf? t <;> rfl
  | resetTracker t =>
    refine faithful_get (fun h => ?_) fun h => ?_
    · rw [recast_trackerOf?]
    · split
      · exact faithful_modify hc (fun h => recast_resetTracker c h _) (faithful_answer fun _ => rfl)
      · exact faithful_answer fun _ => rfl
  | trackerState | hasOutside | isInstalled =>
    unfold perform
    exact faithful_onTracker _ _
  | debug s => exact faithful_answer fun h => by rw [recast_subject]
  | stop | stopAtOnce | prevent | event | eventValue => exact faithful_pure _
  -- the others look at page, scopes and debouncers
  | _ => exact faithful_answer fun _ => rfl

/-! ## Scripts -/

theorem faithful_runActions (e : Option Event) (as : List Action) : Faithful c (runActions e as) := by
  induction as generalizing e with
  | nil => exact faithful_pure e
  | cons a rest ih =>
    have hrest : ∀ x : Option Event × Answer, Faithful c (do
        modify (·.note (.did a x.2))
        runActions x.1 rest : Proc (Option Event)) := fun x => faithful_note hc (ih x.1)
    unfold runActions
    cases e.bind (onEvent? · a) with
    | some x => exact hrest (some x.1, x.2)
    | none => exact faithful_call trivial fun r => hrest (e, r)

theorem faithful_runScript (s : Script) : Faithful c (runScript s) :=
  (faithful_runActions hc none s.actions).bind fun _ => faithful_pure ()

theorem faithful_runWithEvent (s : Script) (e : Event) : Faithful c (runWithEvent s e) :=
  (faithful_runActions hc (some e) s.actions).bind fun _ => faithful_pure _

/-! ## Evaluations -/

omit hc in
theorem mirrors_write (ha : Alike c h₁ h₂) (scope : Nat) (path : List String) (v : Value) :
    Mirrors c (fun r₁ r₂ => r₁ = response (h₁.scope scope).data path v ∧ r₂ = response (h₁.scope scope).data path v) [] []
      h₁ h₂ (write scope path v) (write scope path v) := by
  refine .get (.get' ?_)
  simp only [Proc.bind]
  rw [← ha.scope, response_write]
  cases (h₁.scope scope).write path v with
  | error b => exact .done ha ⟨rfl, rfl⟩
  | ok r =>
    obtain ⟨s, change⟩ := r
    have hset : Alike c (h₁.setScope scope s) (h₂.setScope scope s) := congrArg (fun h : Host => h.setScope scope s) ha
    cases change with
    | none => exact .get (.get' (.set (.set' (.done hset ⟨rfl, rfl⟩))))
    | some ch =>
      refine .get (.get' (.set (.set' ?_)))
      exact (faithful_tellAll ch s.subscribers _ _ hset).bind fun _ _ _ _ _ ha => .done ha ⟨rfl, rfl⟩

omit hc in
/-- Evaluations that agree are alike, but for a fault. -/
theorem mirrors_converse {data : Fields} {scope : Nat} {d₁ d₂ : Expr.Dialogue Outcome} (hd : AgreesFrom data d₁ d₂)
    (ha : Alike c h₁ h₂) (hdata : (h₁.scope scope).data = data) :
    Mirrors c (fun o₁ o₂ => settled o₁ = settled o₂) [] [] h₁ h₂ (converse scope d₁) (converse scope d₂) := by
  induction hd generalizing h₁ h₂ with
  | done he => exact .done ha he
  | asks _ ih =>
    subst hdata
    exact .get (ih ha rfl)
  | asked _ ih =>
    subst hdata
    refine .get' ?_
    simp only [Proc.bind]
    rw [← ha.scope]
    exact ih ha rfl
  | tell _ ih =>
    subst hdata
    refine (mirrors_write ha scope _ _).bind fun r₁ r₂ h₁ h₂ hr ha => ?_
    rw [hr.1, hr.2]
    exact ih _ ha rfl

/-- A runtime evaluates as its evaluator does, whatever that keeps and the log holds. -/
theorem mirrors_evaluation {rt : Nat} {r : Runtime Script} {b : Bound} {e : Event} {R : Outcome → Outcome → Prop}
    {p : Proc Outcome} (hr : h₁.runtime? rt = some r)
    (hp : ∀ h, Alike c h h₁ → Mirrors c R [] [] h h₂ (converse b.scope (r.evaluator.asks b.directive.expression e)) p) :
    Mirrors c R [] [] h₁ h₂ (Task.effect rt b e).body p := by
  refine .get ?_
  simp only [Proc.bind]
  rw [hr]
  dsimp only
  cases hev : r.evaluator with
  | custom rule =>
    rw [hev] at hp
    exact .get (.set (hp _ (alike_note _)))
  | script cache =>
    rw [hev] at hp
    exact .get (.set (hp _ (alike_evaluator hr (hev ▸ hc.same.mpr (asks_caching cache _ _)))))

theorem mirrors_effect (ha : Alike c h₁ h₂) (rt : Nat) (b : Bound) (e : Event) :
    Mirrors c (fun o₁ o₂ => settled o₁ = settled o₂) [] [] h₁ h₂ (Task.effect rt b e).body (Task.effect rt b e).body := by
  have hsame : (h₁.runtime? rt).map (Runtime.recast c) = (h₂.runtime? rt).map (Runtime.recast c) := by
    rw [← recast_runtime?, ← recast_runtime?, ha]
  cases h₁? : h₁.runtime? rt with
  | none =>
    have h₂? : h₂.runtime? rt = none := by simpa [h₁?] using hsame.symm
    refine .get (.get' ?_)
    simp only [Proc.bind]
    rw [h₁?, h₂?]
    exact .done ha rfl
  | some r₁ =>
    obtain ⟨r₂, h₂?, hr⟩ : ∃ r₂, h₂.runtime? rt = some r₂ ∧ r₁.recast c = r₂.recast c := by
      cases h₂? : h₂.runtime? rt with
      | none => simp [h₁?, h₂?] at hsame
      | some r₂ => exact ⟨r₂, rfl, by simpa [h₁?, h₂?] using hsame⟩
    have hagrees : r₁.evaluator.Agrees r₂.evaluator := hc.same.mp (congrArg Runtime.evaluator hr)
    refine mirrors_evaluation hc h₁? fun h ha₁ => (mirrors_evaluation hc h₂? fun h' ha₂ => ?_).symm
    exact (mirrors_converse (hagrees _ e _) (ha₁.trans (ha.trans ha₂.symm)) rfl).symm

/-! ## Bindings -/

omit hc in
theorem mirrors_report {f : Failure} {ss : List Script} {ds₂ : Reports} {R : α → α → Prop} {k : Unit → Proc α}
    {p : Proc α} (hk : ∀ h, Alike c h h₁ → Mirrors c R [] ds₂ h h₂ (k ()) p) :
    Mirrors c R (ss.map fun s => (s, f)) ds₂ h₁ h₂ (report f ss >>= k) p := by
  induction ss generalizing h₁ with
  | nil => exact hk h₁ rfl
  | cons s rest ih => exact .hook fun h ha => ih fun h' ha' => hk h' (ha'.trans ha)

omit hc in
theorem id_of_live? {rt id : Nat} {x : Runtime Script × Bound} (hlive : live? h rt id = some x) : x.2.id = id := by
  obtain ⟨r, -, hmap⟩ := Option.bind_eq_some_iff.mp hlive
  obtain ⟨b, hb, rfl⟩ := Option.map_eq_some_iff.mp hmap
  unfold Runtime.reachable? at hb
  have hid := List.find?_some hb
  exact beq_iff_eq.mp hid

theorem faithful_windUp (rt id : Nat) (once : Bool) (e : Event) : Faithful c (windUp rt id once e) := by
  have hend : Faithful c (do
      modify fun h => (h.endEvaluation rt id).endIfIdle rt
      return e : Proc Event) :=
    faithful_modify hc (fun h => by rw [recast_endEvaluation, recast_endIfIdle]) (faithful_pure e)
  unfold windUp
  split
  · exact faithful_modify hc (fun h => by rw [recast_unbind]) hend
  · exact hend

omit hc in
/-- A fault is reported to all hooks of the runtime, and then the completion ends. -/
theorem mirrors_fault {rt : Nat} {b : Bound} {e : Event} {fault : Fault} {ds₂ : Reports} {R : Event → Event → Prop}
    {p : Proc Event} (hp : ∀ h, Alike c h h₁ → Mirrors c R [] ds₂ h h₂ (windUp rt b.id b.plan.isOnce e) p) :
    Mirrors c R ((Task.effect rt b e).owed (.error fault) h₁) ds₂ h₁ h₂ (do
      let hooks := (((← get).runtime? rt).map (·.hooks)).getD []
      report ⟨b.id, b.element, b.plan.event, b.directive.expression, fault⟩ hooks
      windUp rt b.id b.plan.isOnce e) p :=
  .get (mirrors_report hp)

/-- A completion does the same whether the evaluation fails or comes back with `undefined`,
    but for the reports. -/
theorem faithful_complete (rt id : Nat) (e : Event) : Faithful c (complete rt id e) := by
  unfold complete
  refine faithful_get (fun h => ?_) fun h => ?_
  · rw [recast_live?]
    cases live? h rt id <;> rfl
  · cases hlive : live? h rt id with
    | none => exact faithful_pure e
    | some x =>
      obtain ⟨r, b⟩ := x
      obtain rfl : b.id = id := id_of_live? hlive
      dsimp only
      split
      · exact faithful_pure e
      · refine faithful_modify hc (fun h => recast_edit c h rt b.id _) fun h₁ h₂ ha => ?_
        refine .call ha rfl fun o₁ o₂ h₁ h₂ ho ha => ?_
        have hrest := fun e => faithful_windUp hc rt b.id b.plan.isOnce e
        rcases o₁ with f₁ | v₁ <;> rcases o₂ with f₂ | v₂
        · refine mirrors_fault fun h₁ ha₁ => (mirrors_fault fun h₂ ha₂ => ?_).symm
          exact (hrest e h₁ h₂ (ha₁.trans (ha.trans ha₂.symm))).symm
        · cases ho
          exact mirrors_fault fun h₁ ha₁ => hrest e h₁ h₂ (ha₁.trans ha)
        · cases ho
          exact (mirrors_fault fun h₂ ha₂ => (hrest e h₁ h₂ (ha.trans ha₂.symm)).symm).symm
        · cases ho
          cases v₁ with
          | boolean v =>
            cases v
            · exact hrest e.prevent h₁ h₂ ha
            · exact hrest e h₁ h₂ ha
          | _ => exact hrest e h₁ h₂ ha

theorem faithful_passGuards (rt : Nat) (b : Bound) (e : Event) (gs : List Directive.Guard) :
    Faithful c (passGuards rt b e gs) := by
  induction gs generalizing e with
  | nil => exact faithful_complete hc rt b.id e
  | cons g rest ih =>
    unfold passGuards
    cases g with
    | key f =>
      dsimp only
      split
      · exact ih e
      · exact faithful_pure e
    | stop => exact ih e.stop
    | prevent => exact ih e.prevent
    | outside =>
      refine faithful_get (fun _ => rfl) fun h => ?_
      split
      · exact ih e
      · exact faithful_pure e
    | debounce wait => exact faithful_modify hc (fun h => recast_arm c h rt b.id wait e) (faithful_pure e)
    | once => exact ih e

theorem faithful_fire (rt id : Nat) (e : Event) : Faithful c (fire rt id e) := by
  refine faithful_get (fun h => ?_) fun h => ?_
  · rw [recast_live?]
    cases live? h rt id <;> rfl
  · cases live? h rt id with
    | none => exact faithful_pure e
    | some x =>
      dsimp only
      split
      · exact faithful_pure e
      · exact faithful_passGuards hc rt x.2 e _

omit hc in
theorem faithful_callEntries (t : Nat) (e : Event) (ws : List (Entry Waiter)) : Faithful c (callEntries t e ws) := by
  induction ws generalizing e with
  | nil => exact faithful_pure e
  | cons w rest ih =>
    refine faithful_get (fun _ => rfl) fun h => ?_
    split
    · exact faithful_call trivial fun e => ih e
    · exact ih e

/-! ## Tasks -/

/-- From hosts that are alike a task does the same, but for faults and what error hooks do. -/
theorem mirrors_body (t : Task κ) (ha : Alike c h₁ h₂) :
    Mirrors c (fun r₁ r₂ => κ.settled r₁ = κ.settled r₂) [] [] h₁ h₂ t.body t.body := by
  cases t with
  | listen l e =>
    obtain ⟨id, event, options, action⟩ := l
    cases action with
    | script s => exact faithful_note hc (faithful_runWithEvent hc s e) h₁ h₂ ha
    | binding rt id => exact faithful_fire hc rt id e h₁ h₂ ha
    | tracker t =>
      have hwalk : Faithful c (Task.listen ⟨id, event, options, .tracker t⟩ e).body := by
        refine faithful_modify hc (fun _ => rfl) (faithful_get (fun _ => rfl) fun h => ?_)
        exact (faithful_callEntries _ _ _).bind fun e => faithful_modify hc (fun _ => rfl) (faithful_pure e)
      exact hwalk h₁ h₂ ha
  | outside w e =>
    obtain ⟨binding, element, event, action⟩ := w
    cases action with
    | script s => exact faithful_note hc (faithful_runWithEvent hc s e) h₁ h₂ ha
    | binding rt id => exact faithful_fire hc rt id e h₁ h₂ ha
  | effect rt b e => exact mirrors_effect hc ha rt b e
  | watch w ch =>
    have hwatch : Faithful c (Task.watch w ch).body := by
      unfold Task.body
      dsimp only
      split
      · exact faithful_note hc (faithful_runScript hc w.script)
      · exact faithful_pure ()
    exact hwatch h₁ h₂ ha
  | observe o ns =>
    have hobserve : Faithful c (Task.observe o ns).body := by
      cases o with
      | script s => exact faithful_note hc (faithful_runScript hc s)
      | runtime rt =>
        refine faithful_get (fun h => ?_) fun h => ?_
        · rw [recast_alive?, Option.isSome_map]
        · split
          · exact faithful_modify hc (fun h => by rw [recast_unbindElements]) (faithful_pure ())
          · exact faithful_pure ()
    exact hobserve h₁ h₂ ha
  | hook s f => exact faithful_note hc (faithful_runScript hc s) h₁ h₂ ha
  | ring k t =>
    have hring : Faithful c (Task.ring k t).body := by
      obtain ⟨id, due, action⟩ := t
      cases action with
      | script s => exact faithful_note hc (faithful_runScript hc s)
      | debouncer d e s =>
        refine faithful_modify hc (fun _ => rfl) (faithful_note hc ((faithful_runWithEvent hc s e).bind fun _ => ?_))
        refine faithful_modify hc (fun h => ?_) (faithful_pure ())
        exact recast_settleDebouncer c (h.editDebouncer d fun k => { k with running := k.running - 1 }) d
      | binding rt id e =>
        refine faithful_modify hc (fun h => recast_edit c h rt id _) ?_
        exact (faithful_complete hc rt id e).bind fun _ => faithful_pure ()
    exact hring h₁ h₂ ha
  | advance k instant =>
    have hadvance : Faithful c (Task.advance k instant).body := by
      refine faithful_get (fun _ => rfl) fun h => ?_
      cases (h.clock k).takeDue? instant with
      | none => exact faithful_modify hc (fun _ => rfl) (faithful_pure 0)
      | some r =>
        refine faithful_modify hc (fun _ => rfl) ?_
        exact faithful_call trivial fun _ => faithful_call trivial fun _ => faithful_pure _
    exact hadvance h₁ h₂ ha
  | act a => exact faithful_perform hc a h₁ h₂ ha

end

end Eventful.Host
