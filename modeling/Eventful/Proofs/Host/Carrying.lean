import Eventful.Proofs.Host.Contract
import Eventful.Proofs.Host.Quiet

/-
  Eventful.Proofs.Host.Carrying — what goes through everything that a host does.

  A fact about hosts and histories is `Carried` under a contract if quiet edits leave it
  alone and tasks may be called, and come back, under it. Then every procedure of a host
  carries it along (`Carries`), but for the completion of a binding, which counts its
  evaluation (`carries_complete` says what that takes), and but for the tasks that set an
  evaluation going or make a runtime (`Task.isPlain` leaves them out).
-/

namespace Eventful.Host

open Page Binding

variable {α β : Type} {κ : Kind} {S : Contract} {I J : Host → History → Prop}

structure Carried (S : Contract) (I : Host → History → Prop) : Prop where
  edit : ∀ {h h' : Host} {tr : History}, Quiet h h' → I h tr → I h' tr
  call : ∀ {κ : Kind} {t : Task κ} {h : Host} {tr : History}, I h tr →
    S.pre t h tr ∧ ∀ r h' tr', S.post t h tr r h' tr' → Closes t h tr r h' tr' → I h' tr'

def Carries (S : Contract) (I : Host → History → Prop) (p : Proc α) : Prop :=
  ∀ h tr, I h tr → p.Meets S h tr fun _ h' tr' => I h' tr'

/-! ## The parts of a procedure -/

theorem carries_pure (a : α) : Carries S I (pure a : Proc α) := fun _ _ hi => hi

theorem Carries.bind {p : Proc α} {f : α → Proc β} (hp : Carries S I p) (hf : ∀ a, Carries S I (f a)) :
    Carries S I (p >>= f) :=
  fun h tr hi => meets_bind.mpr <| (hp h tr hi).mono fun a h' tr' hi' => hf a h' tr' hi'

theorem Carries.answers {p : Proc α} (hp : Carries S I p) (f : α → β) : Carries S I (p >>= fun a => pure (f a)) :=
  hp.bind fun _ => carries_pure _

theorem carries_get {f : Host → Proc β} (hf : ∀ h, Carries S I (f h)) : Carries S I (get >>= f) :=
  fun h tr hi => hf h h tr hi

theorem carries_answer (f : Host → Answer) : Carries S I (answer f) := fun _ _ hi => hi

variable (hI : Carried S I)
include hI

theorem carries_modify {f : Host → Host} (hf : ∀ h, Quiet h (f h)) : Carries S I (modify f : Proc PUnit) :=
  fun h _ hi => hI.edit (hf h) hi

theorem carries_change {f : Host → α × Host} (hf : ∀ h, Quiet h (f h).2) : Carries S I (change f) :=
  fun h _ hi => hI.edit (hf h) hi

/-- A quiet edit comes first. -/
theorem carries_first {f : Host → Host} {k : PUnit → Proc β} (hf : ∀ h, Quiet h (f h)) (hk : Carries S I (k ())) :
    Carries S I (modify f >>= k) := (carries_modify hI hf).bind fun _ => hk

theorem carries_note (n : Note) {k : PUnit → Proc β} (hk : Carries S I (k ())) :
    Carries S I (modify (·.note n) >>= k) := carries_first hI (fun _ => quiet_aside rfl rfl) hk

theorem carries_call (t : Task κ) : Carries S I (call t) := fun _ _ hi =>
  ⟨(hI.call hi).1, fun r h' tr' hp hc _ => (hI.call hi).2 r h' tr' hp hc⟩

/-! ## Scripts, scopes and removals -/

theorem carries_runActions (e : Option Event) (as : List Action) : Carries S I (runActions e as) := by
  induction as generalizing e with
  | nil => exact carries_pure e
  | cons a rest ih =>
    unfold runActions
    dsimp only
    split
    · exact carries_note hI _ (ih _)
    · exact (carries_call hI (.act a)).bind fun r => carries_note hI _ (ih _)

theorem carries_runScript (s : Script) : Carries S I (runScript s) := (carries_runActions hI none s.actions).answers _

theorem carries_runWithEvent (s : Script) (e : Event) : Carries S I (runWithEvent s e) :=
  (carries_runActions hI (some e) s.actions).answers _

theorem carries_report (f : Failure) (ss : List Script) : Carries S I (report f ss) := by
  induction ss with
  | nil => exact carries_pure ()
  | cons s rest ih => exact (carries_call hI (.hook s f)).bind fun _ => ih

theorem carries_tellAll (c : Change) (ws : List (Nat × Watcher)) : Carries S I (tellAll c ws) := by
  induction ws with
  | nil => exact carries_pure ()
  | cons w rest ih => exact (carries_call hI (.watch w.2 c)).bind fun _ => ih

theorem carries_write (scope : Nat) (path : List String) (v : Value) : Carries S I (write scope path v) := by
  refine carries_get fun h => ?_
  split
  · exact carries_pure _
  · refine carries_first hI (fun _ => quiet_aside rfl rfl) ?_
    dsimp only
    split
    · exact (carries_tellAll hI _ _).answers _
    · exact carries_pure _

theorem carries_converse (scope : Nat) (d : Expr.Dialogue α) : Carries S I (converse scope d) := by
  induction d with
  | done a => exact carries_pure a
  | ask name k ih => exact carries_get fun _ => ih _
  | tell path v k ih => exact (carries_write hI scope path v).bind ih

theorem carries_informAll (ns : List NodeId) (os : List (Nat × Observer)) : Carries S I (informAll ns os) := by
  induction os with
  | nil => exact carries_pure ()
  | cons o rest ih => exact (carries_call hI (.observe o.2 ns)).bind fun _ => ih

theorem carries_removeNode (n : NodeId) : Carries S I (removeNode n) := by
  refine carries_get fun h => ?_
  split
  · exact carries_pure _
  · refine carries_first hI (fun _ => quiet_aside rfl rfl) ?_
    dsimp only
    split
    · exact carries_pure _
    · exact (carries_informAll hI _ _).answers _

/-! ## Timers -/

theorem carries_runTimers (c limit : Nat) : Carries S I (runTimers c limit) := by
  induction limit with
  | zero => exact carries_pure 0
  | succ limit ih =>
    refine carries_get fun h => ?_
    split
    · exact carries_pure 0
    · exact carries_first hI (fun _ => quiet_aside rfl rfl) ((carries_call hI (.ring c _)).bind fun _ => ih.answers _)

/-! ## Dispatch -/

theorem carries_callListeners (ls : List (Listener Reaction)) (e : Event) : Carries S I (callListeners e ls) := by
  induction ls generalizing e with
  | nil => exact carries_pure e
  | cons l rest ih =>
    have hcalled : Carries S I (do
        let e ← call (.listen l { e with passive := l.options.passive })
        let e := { e with passive := false }
        if e.stoppedAtOnce then return e else callListeners e rest) := by
      refine (carries_call hI (.listen l _)).bind fun e' => ?_
      dsimp only
      split
      · exact carries_pure _
      · exact ih _
    refine carries_get fun h => ?_
    split
    · split
      · exact carries_first hI (fun h => quiet_unlisten h l.id) hcalled
      · exact hcalled
    · exact ih e

theorem carries_makeRounds (e : Event) (rs : List Round) : Carries S I (makeRounds e rs) := by
  induction rs generalizing e with
  | nil => exact carries_pure e
  | cons r rest ih =>
    refine carries_get fun h => (carries_callListeners hI _ _).bind fun e' => ?_
    split
    · exact carries_pure e'
    · exact ih e'

theorem carries_deliver (target : Target) (e : Event) : Carries S I (deliver target e) := by
  refine carries_get fun h => (carries_makeRounds hI _ _).bind fun e' => ?_
  dsimp only
  split
  · exact carries_pure _
  · exact (carries_makeRounds hI _ _).answers _

theorem carries_mapElement (n : NodeId) (f : Element → Element) :
    Carries S I (modify fun h => h.setTree (h.page.tree.mapElement n f)) :=
  carries_modify hI fun _ => quiet_aside rfl rfl

theorem carries_click (n : NodeId) : Carries S I (click n) := by
  refine carries_get fun h => ?_
  dsimp only
  generalize ((h.page.tree.element? n).bind fun e => if e.isCheckbox then some e.checked else none) = before
  cases before with
  | none => exact (carries_deliver hI _ _).bind fun e => carries_pure e
  | some b =>
    refine (carries_mapElement hI n _).bind fun _ => (carries_deliver hI _ _).bind fun e => ?_
    dsimp only
    split
    · exact (carries_mapElement hI n _).answers _
    · exact carries_pure e

theorem carries_input (n : NodeId) (value : String) : Carries S I (input n value) :=
  (carries_mapElement hI n _).bind fun _ => carries_deliver hI _ _

/-! ## Bindings -/

omit hI in
/-- A completion brings `I` to `J` while its evaluation lasts, and back. -/
theorem carries_complete (hJ : Carried S J) (rt id : Nat) (e : Event)
    (hbegin : ∀ {h : Host} {tr : History} (once : Bool), I h tr →
      J (h.editRuntime rt (·.edit id fun b => { b with fired := once, running := b.running + 1 })) tr)
    (hend : ∀ {h : Host} {tr : History}, J h tr → I ((h.endEvaluation rt id).endIfIdle rt) tr) :
    Carries S I (complete rt id e) := by
  refine carries_get fun h => ?_
  split
  · exact carries_pure e
  · rename_i r b _
    dsimp only
    split
    · exact carries_pure e
    · intro h tr hi
      refine meets_bind.mpr (meets_modify.mpr ?_)
      -- The binding may be unbound after it, and its evaluation ends.
      have hover : ∀ e' h tr, J h tr → Proc.Meets S (do
          if b.plan.isOnce then
            modify fun h => (h.unbind rt id).2
          modify fun h => (h.endEvaluation rt id).endIfIdle rt
          return e' : Proc Event) h tr fun _ h' tr' => I h' tr' := by
        intro e' h tr hj
        split
        · exact hend (hJ.edit (quiet_unbind h rt id) hj)
        · exact hend hj
      refine meets_bind.mpr <| (carries_call hJ (.effect rt b e) _ _ (hbegin _ hi)).mono fun res h' tr' hj => ?_
      split
      · exact hover _ h' tr' hj
      · exact hover e h' tr' hj
      · rw [meets_bind, meets_get]
        exact meets_bind.mpr <| (carries_report hJ _ _ h' tr' hj).mono fun _ h'' tr'' hj => hover e h'' tr'' hj

section

variable (hcomplete : ∀ rt id e, Carries S I (complete rt id e))
include hcomplete

theorem carries_passGuards (rt : Nat) (b : Bound) (e : Event) (gs : List Directive.Guard) :
    Carries S I (passGuards rt b e gs) := by
  induction gs generalizing e with
  | nil => exact hcomplete rt b.id e
  | cons g rest ih =>
    cases g with
    | key f =>
      unfold passGuards
      split
      · exact ih e
      · exact carries_pure e
    | stop => exact ih e.stop
    | prevent => exact ih e.prevent
    | outside =>
      refine carries_get fun h => ?_
      split
      · exact ih e
      · exact carries_pure e
    | debounce wait => exact carries_first hI (fun h => quiet_arm h rt b.id wait e) (carries_pure e)
    | once => exact ih e

theorem carries_fire (rt id : Nat) (e : Event) : Carries S I (fire rt id e) := by
  refine carries_get fun h => ?_
  split
  · exact carries_pure e
  · split
    · exact carries_pure e
    · exact carries_passGuards hI hcomplete _ _ _ _

end

theorem carries_callEntries (k : Nat) (e : Event) (ws : List (Entry Waiter)) : Carries S I (callEntries k e ws) := by
  induction ws generalizing e with
  | nil => exact carries_pure e
  | cons w rest ih =>
    refine carries_get fun h => ?_
    split
    · exact (carries_call hI (.outside w e)).bind ih
    · exact ih e

/-! ## Actions -/

theorem carries_edit (f : Tree → Except TreeError Tree) : Carries S I (edit f) := by
  refine carries_get fun h => ?_
  split
  · exact carries_pure _
  · exact carries_first hI (fun _ => quiet_aside rfl rfl) (carries_pure _)

theorem carries_create (f : Tree → NodeId × Tree) : Carries S I (create f) :=
  carries_get fun _ => carries_first hI (fun _ => quiet_aside rfl rfl) (carries_pure _)

theorem carries_back (e : Event) : Carries S I (back e) :=
  carries_first hI (fun _ => quiet_aside rfl rfl) (carries_pure _)

omit hI in
theorem carries_eventOf (s : Source) : Carries S I (eventOf s) := by
  cases s with
  | event e => exact carries_pure _
  | last => exact carries_get fun _ => carries_pure _

theorem carries_attempt {f : Host → Except Directive.Error (Nat × Host)}
    (hf : ∀ {h id h'}, f h = .ok (id, h') → Quiet h h') : Carries S I (attempt f) := by
  intro h tr hi
  unfold attempt
  rw [meets_bind, meets_get]
  split
  · exact hi
  · rename_i id h' e
    exact hI.edit (hf e) hi

/-- An action that parses nothing for a cache and makes no runtime. -/
def Action.isPlain : Action → Bool
  | .eval _ _ _ false | .compile _ | .newRuntime _ => false
  | _ => true

theorem carries_perform (a : Action) (ha : a.isPlain = true) : Carries S I (perform a) := by
  cases a with
  -- the tree
  | createElement tag => exact (carries_create hI _).answers _
  | createText s => exact (carries_create hI _).answers _
  | makeComment n s => exact carries_change hI fun _ => quiet_aside rfl rfl
  | appendElement parent tag =>
    refine carries_change hI fun h => ?_
    split <;> exact quiet_aside rfl rfl
  | appendChild parent child => exact carries_edit hI (·.appendChild parent child)
  | removeNode n => exact carries_removeNode hI n
  | detachNode n => exact carries_edit hI (·.removeChild n)
  | setAttr n name value => exact carries_edit hI (·.editElement n (·.setAttr name value))
  | removeAttr n name =>
    refine carries_get fun h => ?_
    split
    · exact carries_pure _
    · exact carries_first hI (fun _ => quiet_aside rfl rfl) (carries_pure _)
  | addClass n c => exact carries_edit hI (·.editElement n (·.addClass c))
  | removeClass n c => exact carries_edit hI (·.editElement n (·.removeClass c))
  | setSize n width height => exact carries_edit hI (·.editElement n (·.setSize width height))
  | setBox n width height => exact carries_change hI fun _ => quiet_aside rfl rfl
  | setText n s => exact carries_edit hI (·.setText n s)
  -- listeners and dispatch
  | listen t event o s => exact carries_change hI fun _ => quiet_aside rfl rfl
  | unlisten id => exact carries_change hI fun h => quiet_unlisten h id
  | observe s => exact carries_change hI fun _ => quiet_aside rfl rfl
  | disconnect o =>
    refine carries_change hI fun h => ?_
    split <;> exact quiet_aside rfl rfl
  | dispatch t s =>
    refine (carries_eventOf s).bind fun e => ?_
    split
    · exact carries_pure _
    · exact (carries_deliver hI _ _).bind fun e => carries_back hI e
  | click n => exact (carries_click hI n).bind fun e => carries_back hI e
  | keyDown n k => exact (carries_deliver hI _ _).bind fun e => carries_back hI e
  | keyUp n k => exact (carries_deliver hI _ _).bind fun e => carries_back hI e
  | input n v => exact (carries_input hI n v).bind fun e => carries_back hI e
  -- scopes
  | newScope v => exact carries_change hI fun _ => quiet_aside rfl rfl
  | set i name v => exact (carries_write hI i [name] v).bind fun _ => carries_answer _
  | setPath i path v =>
    refine (carries_write hI i path v).bind fun r => ?_
    split
    · exact carries_pure _
    · exact carries_answer _
  | subscribe i path s => exact carries_change hI fun _ => quiet_aside rfl rfl
  | unsubscribe sub =>
    refine carries_change hI fun h => ?_
    split <;> exact quiet_aside rfl rfl
  | eval i source locals fresh =>
    cases fresh with
    | false => cases ha
    | true => exact (carries_converse hI i _).answers _
  | compile source => cases ha
  -- timers and debouncers
  | timeout c delay s => exact carries_change hI fun h => quiet_startTimer h _ delay _
  | clear c id => exact carries_change hI fun _ => quiet_aside rfl rfl
  | advance c delta => exact carries_get fun h => (carries_call hI (.advance _ _)).answers _
  | advanceTo c instant => exact carries_get fun h => (carries_call hI (.advance _ _)).answers _
  | runUntilIdle c limit => exact carries_get fun h => (carries_runTimers hI _ limit).answers _
  | newDebouncer wait => exact carries_change hI fun _ => quiet_aside rfl rfl
  | schedule d source s =>
    refine (carries_eventOf source).bind fun e => ?_
    split
    · exact carries_pure _
    · exact carries_first hI (fun h => quiet_schedule h d _ s) (carries_answer _)
  | cancelDebouncer d => exact carries_change hI fun h => quiet_cancelDebouncer h d
  | dropDebouncer d => exact carries_first hI (fun h => quiet_settleEdited h d _) (carries_answer _)
  -- runtimes
  | newRuntime s => cases ha
  | dropRuntime rt => exact carries_first hI (fun h => quiet_release h rt) (carries_answer _)
  | bind rt n attr expression scope => exact carries_attempt hI quiet_bindAttr
  | bindDirective rt n d scope => exact carries_attempt hI quiet_bindAt
  | bindAttributes rt n scope =>
    refine carries_change hI fun h => ?_
    have hq := quiet_bindAttrs h rt n scope
    split <;> rename_i e <;> rw [e] at hq <;> exact hq
  | unbind rt id => exact carries_change hI fun h => quiet_unbind h rt id
  | unbindElement rt n => exact carries_change hI fun h => quiet_unbindAll h rt _
  | onError rt s =>
    exact carries_first hI (fun h => quiet_editRuntime h rt fun _ => Runtime.quiet_same rfl rfl rfl rfl)
      (carries_pure _)
  | resetOutside rt => exact carries_first hI (fun h => quiet_resetOutside h rt) (carries_answer _)
  -- outside trackers
  | newTracker => exact carries_change hI fun _ => quiet_aside rfl rfl
  | registerOutside t id n event s =>
    refine carries_get fun h => ?_
    split
    · exact carries_first hI (fun h => quiet_register h _ _) (carries_answer _)
    · exact carries_answer _
  | unregisterOutside t id =>
    refine carries_change hI fun h => ?_
    split <;> exact quiet_aside rfl rfl
  | resetTracker t =>
    refine carries_get fun h => ?_
    split
    · exact carries_first hI (fun h => quiet_resetTracker h _) (carries_answer _)
    · exact carries_answer _
  -- the others look, or do nothing
  | stop | stopAtOnce | prevent | event | eventValue => exact carries_pure _
  | _ => exact carries_answer _

/-! ## Tasks -/

/-- Neither an effect nor an action that is not plain. -/
def Task.isPlain : Task κ → Bool
  | .effect .. => false
  | .act a => a.isPlain
  | _ => true

theorem carries_body (hcomplete : ∀ rt id e, Carries S I (complete rt id e)) (t : Task κ) (ht : t.isPlain = true) :
    Carries S I t.body := by
  cases t with
  | listen l e =>
    unfold Task.body
    dsimp only
    split
    · exact carries_note hI _ (carries_runWithEvent hI _ e)
    · exact carries_fire hI hcomplete _ _ e
    · refine carries_first hI (fun _ => quiet_aside rfl rfl) (carries_get fun h => ?_)
      exact (carries_callEntries hI _ e _).bind fun e' =>
        carries_first hI (fun _ => quiet_aside rfl rfl) (carries_pure e')
  | outside w e =>
    unfold Task.body
    dsimp only
    split
    · exact carries_note hI _ (carries_runWithEvent hI _ e)
    · exact carries_fire hI hcomplete _ _ e
  | effect rt b e => cases ht
  | watch w c =>
    unfold Task.body
    dsimp only
    split
    · exact carries_note hI _ (carries_runScript hI _)
    · exact carries_pure _
  | observe o ns =>
    cases o with
    | script s => exact carries_note hI _ (carries_runScript hI s)
    | runtime rt =>
      refine carries_get fun h => ?_
      split
      · exact carries_modify hI fun h => quiet_unbindAll h rt _
      · exact carries_pure _
  | hook s f => exact carries_note hI _ (carries_runScript hI s)
  | ring c t =>
    unfold Task.body
    dsimp only
    split
    · exact carries_first hI (fun _ => quiet_aside rfl rfl) (carries_runScript hI _)
    · refine carries_first hI (fun h => quiet_editDebouncer h _ _) (carries_note hI _ ?_)
      exact (carries_runWithEvent hI _ _).bind fun _ => carries_modify hI fun h => quiet_settleEdited h _ _
    · exact carries_first hI
        (fun h => quiet_editRuntime h _ fun r => r.quiet_edit _ (fun _ => rfl) fun _ => rfl)
        ((hcomplete _ _ _).answers _)
  | advance c instant =>
    refine carries_get fun h => ?_
    split
    · exact carries_first hI (fun _ => quiet_aside rfl rfl) (carries_pure _)
    · exact carries_first hI (fun _ => quiet_aside rfl rfl)
        ((carries_call hI (.ring c _)).bind fun _ => (carries_call hI (.advance c instant)).answers _)
  | act a => exact carries_perform hI a ht

end Eventful.Host
