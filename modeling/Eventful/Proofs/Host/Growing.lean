import Eventful.Proofs.Host.Runs
import Eventful.Proofs.Host.Unwritten
import Eventful.Proofs.Page.Reached

/-
  Eventful.Proofs.Host.Growing — the edits of the tree that a host makes.

  Only actions edit the tree, each in a few ways (`Action.edits`); whatever else a host does,
  it leaves the tree as it is and calls tasks. So what the edits of some actions keep is kept
  as long as no other action is done, however deep callbacks nest (`growing_holds`,
  `Proc.Came.grows`).
-/

namespace Eventful.Host

open Page Binding

variable {α β : Type} {κ : Kind} {P : Tree → Prop} {fair : Tree → Action → Prop} {h h' : Host} {tr : History}

/-! ## Edits -/

/-- The edits of the tree that an action may make itself, if it is done in the tree `t`. -/
def Action.edits (t : Tree) : Action → List (Tree → Tree)
  | .createElement name => [fun t => (t.createElement name).2]
  | .createText s => [fun t => (t.createText s).2]
  | .makeComment n s => [fun t => t.setContent n (.comment s)]
  | .appendElement p name => [fun t => (t.appendElement p name).2]
  | .appendChild p n => [fun t => (t.appendChild p n).toOption.getD t]
  | .removeNode n | .detachNode n => [fun t => (t.removeChild n).toOption.getD t]
  | .setText n s => [fun t => (t.setText n s).toOption.getD t]
  | .setAttr n name value => [fun t => t.mapElement n (Element.Edit.setAttr name value).on]
  | .removeAttr n name => [fun t => t.mapElement n (Element.Edit.removeAttr name).on]
  | .addClass n c => [fun t => t.mapElement n (Element.Edit.addClass c).on]
  | .removeClass n c => [fun t => t.mapElement n (Element.Edit.removeClass c).on]
  | .setSize n width height => [fun t => t.mapElement n (Element.Edit.setSize width height).on]
  | .setBox n width height => [fun t => t.mapElement n (Element.Edit.place (.sized width height)).on]
  | .click n =>
    if (t.element? n).any (·.isCheckbox) then
      [fun t => t.mapElement n (Element.Edit.check true).on, fun t => t.mapElement n (Element.Edit.check false).on]
    else []
  | .input n value => [fun t => t.mapElement n (Element.Edit.enter value).on]
  | _ => []

/-- The edits that an action makes keep it. -/
def Action.Keeps (P : Tree → Prop) (t : Tree) (a : Action) : Prop := ∀ f ∈ a.edits t, ∀ t', P t' → P (f t')

/-- Tasks keep `P`, if only actions are done that are `fair`. -/
def growing (P : Tree → Prop) (fair : Tree → Action → Prop) : Contract where
  fair m := ∀ a h, m = .begins (.act a) h → fair h.page.tree a
  pre _ h _ := P h.page.tree
  post _ _ _ _ h' _ := P h'.page.tree
  kept _ := True
  kept_begins _ := trivial
  kept_ends _ _ := trivial

/-- Between its calls the procedure keeps `P`. -/
def Grows (P : Tree → Prop) (fair : Tree → Action → Prop) (p : Proc α) : Prop :=
  ∀ h tr, P h.page.tree → p.Meets (growing P fair) h tr fun _ h' _ => P h'.page.tree

theorem grows_pure (a : α) : Grows P fair (pure a : Proc α) := fun _ _ hp => hp

theorem Grows.bind {p : Proc α} {f : α → Proc β} (hp : Grows P fair p) (hf : ∀ a, Grows P fair (f a)) :
    Grows P fair (p >>= f) :=
  fun h tr hi => meets_bind.mpr <| (hp h tr hi).mono fun a h' tr' hi' => hf a h' tr' hi'

theorem Grows.answers {p : Proc α} (hp : Grows P fair p) (f : α → β) : Grows P fair (p >>= fun a => pure (f a)) :=
  hp.bind fun _ => grows_pure _

theorem grows_get {f : Host → Proc β} (hf : ∀ h, Grows P fair (f h)) : Grows P fair (get >>= f) :=
  fun h tr hi => hf h h tr hi

theorem grows_answer (f : Host → Answer) : Grows P fair (answer f) := fun _ _ hi => hi

theorem grows_call (t : Task κ) : Grows P fair (call t) := fun _ _ hi => meets_call.mpr ⟨hi, fun _ _ _ hp _ _ => hp⟩

theorem grows_modify {f : Host → Host} (hf : ∀ h, (f h).page.tree = h.page.tree) :
    Grows P fair (modify f : Proc PUnit) := fun h _ hi => show P (f h).page.tree from (hf h).symm ▸ hi

theorem grows_change {f : Host → α × Host} (hf : ∀ h, (f h).2.page.tree = h.page.tree) : Grows P fair (change f) :=
  fun h _ hi => show P (f h).2.page.tree from (hf h).symm ▸ hi

/-- An edit comes first that leaves the tree. -/
theorem grows_first {f : Host → Host} {k : PUnit → Proc β} (hf : ∀ h, (f h).page.tree = h.page.tree)
    (hk : Grows P fair (k ())) : Grows P fair (modify f >>= k) := (grows_modify hf).bind fun _ => hk

theorem grows_note (n : Note) {k : PUnit → Proc β} (hk : Grows P fair (k ())) :
    Grows P fair (modify (·.note n) >>= k) := grows_first (fun _ => rfl) hk

/-- An edit of the tree. -/
theorem grows_edited {f : Tree → Tree} (hf : ∀ t, P t → P (f t)) :
    Grows P fair (modify fun h => h.setTree (f h.page.tree)) := fun _ _ hi => hf _ hi

/-! ## Scripts, scopes and removals -/

theorem grows_runActions (e : Option Event) (as : List Action) : Grows P fair (runActions e as) := by
  induction as generalizing e with
  | nil => exact grows_pure e
  | cons a rest ih =>
    unfold runActions
    dsimp only
    split
    · exact grows_note _ (ih _)
    · exact (grows_call (.act a)).bind fun r => grows_note _ (ih _)

theorem grows_runScript (s : Script) : Grows P fair (runScript s) := (grows_runActions none s.actions).answers _

theorem grows_runWithEvent (s : Script) (e : Event) : Grows P fair (runWithEvent s e) :=
  (grows_runActions (some e) s.actions).answers _

theorem grows_report (f : Failure) (ss : List Script) : Grows P fair (report f ss) := by
  induction ss with
  | nil => exact grows_pure ()
  | cons s rest ih => exact (grows_call (.hook s f)).bind fun _ => ih

theorem grows_tellAll (c : Change) (ws : List (Nat × Watcher)) : Grows P fair (tellAll c ws) := by
  induction ws with
  | nil => exact grows_pure ()
  | cons w rest ih => exact (grows_call (.watch w.2 c)).bind fun _ => ih

theorem grows_write (scope : Nat) (path : List String) (v : Value) : Grows P fair (write scope path v) := by
  refine grows_get fun h => ?_
  split
  · exact grows_pure _
  · refine grows_first (fun _ => rfl) ?_
    dsimp only
    split
    · exact (grows_tellAll _ _).answers _
    · exact grows_pure _

theorem grows_converse (scope : Nat) (d : Expr.Dialogue α) : Grows P fair (converse scope d) := by
  induction d with
  | done a => exact grows_pure a
  | ask name k ih => exact grows_get fun _ => ih _
  | tell path v k ih => exact (grows_write scope path v).bind ih

theorem grows_evaluate (scope : Nat) (source : String) (locals : List (String × Value)) (fresh : Bool) :
    Grows P fair (evaluate scope source locals fresh) := by
  unfold evaluate
  split
  · exact grows_converse _ _
  · refine grows_get fun h => ?_
    dsimp only
    exact grows_first (fun _ => rfl) (grows_converse scope _)

theorem grows_informAll (ns : List NodeId) (os : List (Nat × Observer)) : Grows P fair (informAll ns os) := by
  induction os with
  | nil => exact grows_pure ()
  | cons o rest ih => exact (grows_call (.observe o.2 ns)).bind fun _ => ih

theorem grows_removeNode {n : NodeId} (hP : ∀ t, P t → P ((t.removeChild n).toOption.getD t)) :
    Grows P fair (removeNode n) := by
  intro h tr hi
  unfold removeNode
  rw [meets_bind, meets_get]
  split
  · exact hi
  · rename_i ns page hp
    have hi' : P page.tree := by
      have hkept := hP _ hi
      rwa [removeNode_tree hp] at hkept
    refine meets_bind.mpr (meets_modify.mpr ?_)
    dsimp only
    split
    · exact hi'
    · exact ((grows_informAll _ _).answers _) _ _ hi'

/-! ## Timers -/

theorem grows_runTimers (c limit : Nat) : Grows P fair (runTimers c limit) := by
  induction limit with
  | zero => exact grows_pure 0
  | succ limit ih =>
    refine grows_get fun h => ?_
    split
    · exact grows_pure 0
    · exact grows_first (fun _ => rfl) ((grows_call (.ring c _)).bind fun _ => ih.answers _)

/-! ## Dispatch -/

theorem grows_callListeners (ls : List (Listener Reaction)) (e : Event) : Grows P fair (callListeners e ls) := by
  induction ls generalizing e with
  | nil => exact grows_pure e
  | cons l rest ih =>
    have hcalled : Grows P fair (do
        let e ← call (.listen l { e with passive := l.options.passive })
        let e := { e with passive := false }
        if e.stoppedAtOnce then return e else callListeners e rest) := by
      refine (grows_call (.listen l _)).bind fun e' => ?_
      dsimp only
      split
      · exact grows_pure _
      · exact ih _
    refine grows_get fun h => ?_
    split
    · split
      · exact grows_first (fun _ => rfl) hcalled
      · exact hcalled
    · exact ih e

theorem grows_makeRounds (e : Event) (rs : List Round) : Grows P fair (makeRounds e rs) := by
  induction rs generalizing e with
  | nil => exact grows_pure e
  | cons r rest ih =>
    refine grows_get fun h => (grows_callListeners _ _).bind fun e' => ?_
    split
    · exact grows_pure e'
    · exact ih e'

theorem grows_deliver (target : Target) (e : Event) : Grows P fair (deliver target e) := by
  refine grows_get fun h => (grows_makeRounds _ _).bind fun e' => ?_
  dsimp only
  split
  · exact grows_pure _
  · exact (grows_makeRounds _ _).answers _

/-- A click writes to a checkbox only. -/
theorem grows_click {n : NodeId} (ha : (Action.click n).Keeps P h.page.tree) (hi : P h.page.tree) :
    (click n).Meets (growing P fair) h tr fun _ h' _ => P h'.page.tree := by
  unfold click
  rw [meets_bind, meets_get]
  dsimp only
  cases hb : (h.page.tree.element? n).bind fun e => if e.isCheckbox then some e.checked else none with
  | none => exact ((grows_deliver _ _).bind fun e => grows_pure e) h tr hi
  | some b =>
    have hbox : (h.page.tree.element? n).any (·.isCheckbox) = true := by
      obtain ⟨e, he, hb⟩ := Option.bind_eq_some_iff.mp hb
      rw [he]
      split at hb
      · assumption
      · cases hb
    have hcheck : ∀ b t, P t → P (t.mapElement n fun e => { e with checked := b }) := by
      have hedits : (Action.click n).edits h.page.tree = [fun t => t.mapElement n (Element.Edit.check true).on,
        fun t => t.mapElement n (Element.Edit.check false).on] := if_pos hbox
      rw [Action.Keeps, hedits] at ha
      intro b
      cases b with
      | true => exact ha _ List.mem_cons_self
      | false => exact ha _ (List.mem_cons_of_mem _ List.mem_cons_self)
    refine ((grows_edited (hcheck !b)).bind fun _ => (grows_deliver _ _).bind fun e => ?_) h tr hi
    dsimp only
    split
    · exact (grows_edited (hcheck b)).answers _
    · exact grows_pure e

/-! ## Bindings -/

theorem grows_complete (rt id : Nat) (e : Event) : Grows P fair (complete rt id e) := by
  refine grows_get fun h => ?_
  split
  · exact grows_pure e
  · rename_i r b _
    dsimp only
    split
    · exact grows_pure e
    · refine grows_first (fun _ => rfl) <| (grows_call (.effect rt b e)).bind fun res => ?_
      -- The binding may be unbound after it, and its evaluation ends.
      have hover : ∀ e', Grows P fair (do
          if b.plan.isOnce then
            modify fun h => (h.unbind rt id).2
          modify fun h => (h.endEvaluation rt id).endIfIdle rt
          return e' : Proc Event) := by
        intro e'
        have hend : Grows P fair (do
            modify fun h => (h.endEvaluation rt id).endIfIdle rt
            return e' : Proc Event) :=
          grows_first (fun h => ((beside_endEvaluation h rt id).trans (beside_endIfIdle _ rt)).tree) (grows_pure e')
        split
        · exact grows_first (fun h => (beside_unbind h rt id).tree) hend
        · exact hend
      split
      · exact hover _
      · exact hover e
      · exact grows_get fun _ => (grows_report _ _).bind fun _ => hover e

theorem grows_passGuards (rt : Nat) (b : Bound) (e : Event) (gs : List Directive.Guard) :
    Grows P fair (passGuards rt b e gs) := by
  induction gs generalizing e with
  | nil => exact grows_complete rt b.id e
  | cons g rest ih =>
    cases g with
    | key f =>
      unfold passGuards
      split
      · exact ih e
      · exact grows_pure e
    | stop => exact ih e.stop
    | prevent => exact ih e.prevent
    | outside =>
      refine grows_get fun h => ?_
      split
      · exact ih e
      · exact grows_pure e
    | debounce wait => exact grows_first (fun h => (beside_arm h rt b.id wait e).tree) (grows_pure e)
    | once => exact ih e

theorem grows_fire (rt id : Nat) (e : Event) : Grows P fair (fire rt id e) := by
  refine grows_get fun h => ?_
  split
  · exact grows_pure e
  · split
    · exact grows_pure e
    · exact grows_passGuards _ _ _ _

theorem grows_callEntries (k : Nat) (e : Event) (ws : List (Entry Waiter)) : Grows P fair (callEntries k e ws) := by
  induction ws generalizing e with
  | nil => exact grows_pure e
  | cons w rest ih =>
    refine grows_get fun h => ?_
    split
    · exact (grows_call (.outside w e)).bind ih
    · exact ih e

/-! ## Actions -/

theorem grows_edit {f : Tree → Except TreeError Tree} (hf : ∀ t, P t → P ((f t).toOption.getD t)) :
    Grows P fair (edit f) := by
  intro h tr hi
  have hkept := hf _ hi
  unfold edit
  rw [meets_bind, meets_get]
  split
  · exact hi
  · rename_i t ht
    rw [ht] at hkept
    exact hkept

theorem grows_editElement {n : NodeId} {f : Element → Element} (hf : ∀ t, P t → P (t.mapElement n f)) :
    Grows P fair (edit (·.editElement n f)) := by
  refine grows_edit fun t hi => ?_
  have hkept := hf t hi
  cases ht : t.editElement n f with
  | error e => exact hi
  | ok t' => exact Tree.mapElement_of_edit ht ▸ hkept

theorem grows_create {f : Tree → NodeId × Tree} (hf : ∀ t, P t → P (f t).2) : Grows P fair (create f) :=
  fun h _ hi => hf h.page.tree hi

theorem grows_eventOf (s : Source) : Grows P fair (eventOf s) := by
  cases s with
  | event e => exact grows_pure _
  | last => exact grows_get fun _ => grows_pure _

theorem grows_back (e : Event) : Grows P fair (back e) := grows_first (fun _ => rfl) (grows_pure _)

theorem grows_attempt {f : Host → Except Directive.Error (Nat × Host)}
    (hf : ∀ {h id h'}, f h = .ok (id, h') → Beside h h') : Grows P fair (attempt f) := by
  intro h tr hi
  unfold attempt
  rw [meets_bind, meets_get]
  split
  · exact hi
  · rename_i id h' e
    show P h'.page.tree
    rw [(hf e).tree]
    exact hi

theorem grows_perform {a : Action} {t : Tree} (ha : a.Keeps P t) (hn : ∀ n, a ≠ .click n) :
    Grows P fair (perform a) := by
  have hone : ∀ {f}, a.edits t = [f] → ∀ t, P t → P (f t) := fun e => ha _ (e ▸ List.mem_cons_self)
  cases a with
  -- the tree
  | createElement name => exact (grows_create (hone rfl)).answers _
  | createText s => exact (grows_create (hone rfl)).answers _
  | makeComment n s => exact fun _ _ hi => hone rfl _ hi
  | appendElement p name =>
    intro h tr hi
    have hkept := hone rfl _ hi
    unfold perform
    rw [meets_change]
    split <;> rename_i e <;> rw [e] at hkept <;> exact hkept
  | appendChild p n => exact grows_edit (hone rfl)
  | removeNode n => exact grows_removeNode (hone rfl)
  | detachNode n => exact grows_edit (hone rfl)
  | setAttr n name value => exact grows_editElement (hone rfl)
  | removeAttr n name =>
    intro h tr hi
    have hkept := hone rfl _ hi
    unfold perform
    rw [meets_bind, meets_get]
    split
    · exact hi
    · rename_i old t ht
      exact Tree.mapElement_of_edit (Tree.removeAttr_ok ht) ▸ hkept
  | addClass n c => exact grows_editElement (hone rfl)
  | removeClass n c => exact grows_editElement (hone rfl)
  | setSize n width height => exact grows_editElement (hone rfl)
  | setBox n width height => exact fun _ _ hi => hone rfl _ hi
  | setText n s => exact grows_edit (hone rfl)
  -- listeners and dispatch
  | listen t event o s => exact grows_change fun _ => rfl
  | unlisten id => exact grows_change fun _ => rfl
  | observe s => exact grows_change fun _ => rfl
  | disconnect o =>
    refine grows_change fun h => ?_
    split <;> rfl
  | dispatch t s =>
    refine (grows_eventOf s).bind fun e => ?_
    split
    · exact grows_pure _
    · exact (grows_deliver _ _).bind fun e => grows_back e
  | click n => exact absurd rfl (hn n)
  | keyDown n k => exact (grows_deliver _ _).bind fun e => grows_back e
  | keyUp n k => exact (grows_deliver _ _).bind fun e => grows_back e
  | input n v =>
    exact ((grows_edited (hone rfl)).bind fun _ => grows_deliver _ _).bind fun e => grows_back e
  -- scopes
  | newScope v => exact grows_change fun _ => rfl
  | set i name v => exact (grows_write i [name] v).bind fun _ => grows_answer _
  | setPath i path v =>
    refine (grows_write i path v).bind fun r => ?_
    split
    · exact grows_pure _
    · exact grows_answer _
  | subscribe i path s => exact grows_change fun _ => rfl
  | unsubscribe sub =>
    refine grows_change fun h => ?_
    split <;> rfl
  | eval i source locals fresh => exact (grows_evaluate i source locals fresh).answers _
  | compile source => exact grows_change fun _ => rfl
  -- timers and debouncers
  | timeout c delay s => exact grows_change fun _ => rfl
  | clear c id => exact grows_change fun _ => rfl
  | advance c delta => exact grows_get fun h => (grows_call (.advance _ _)).answers _
  | advanceTo c instant => exact grows_get fun h => (grows_call (.advance _ _)).answers _
  | runUntilIdle c limit => exact grows_get fun h => (grows_runTimers _ limit).answers _
  | newDebouncer wait => exact grows_change fun _ => rfl
  | schedule d source s =>
    refine (grows_eventOf source).bind fun e => ?_
    split
    · exact grows_pure _
    · exact grows_first (fun h => (beside_schedule h d _ s).tree) (grows_answer _)
  | cancelDebouncer d => exact grows_change fun h => (beside_cancelDebouncer h d).tree
  | dropDebouncer d => exact grows_first (fun h => (beside_settleDebouncer _ d).tree) (grows_answer _)
  -- runtimes
  | newRuntime s =>
    unfold perform
    dsimp only
    split
    · exact grows_pure _
    · exact grows_change fun h => (beside_addRuntime h _ s).tree
  | dropRuntime rt => exact grows_first (fun h => (beside_release h rt).tree) (grows_answer _)
  | bind rt n attr expression scope => exact grows_attempt beside_bindAttr
  | bindDirective rt n d scope => exact grows_attempt beside_bind
  | bindAttributes rt n scope =>
    refine grows_change fun h => ?_
    have hb := (beside_bindAttrs h rt n scope).tree
    split <;> rename_i e <;> rw [e] at hb <;> exact hb
  | unbind rt id => exact grows_change fun h => (beside_unbind h rt id).tree
  | unbindElement rt n => exact grows_change fun h => (beside_unbindAll h rt _).tree
  | onError rt s => exact grows_first (fun _ => rfl) (grows_pure _)
  | resetOutside rt => exact grows_first (fun h => (beside_resetOutside h rt).tree) (grows_answer _)
  -- outside trackers
  | newTracker => exact grows_change fun _ => rfl
  | registerOutside t id n event s =>
    refine grows_get fun h => ?_
    split
    · exact grows_first (fun h => (beside_register h _ _).tree) (grows_answer _)
    · exact grows_answer _
  | unregisterOutside t id =>
    refine grows_change fun h => ?_
    split <;> rfl
  | resetTracker t =>
    refine grows_get fun h => ?_
    split
    · exact grows_first (fun h => (beside_resetTracker h _).tree) (grows_answer _)
    · exact grows_answer _
  -- the others look, or do nothing
  | stop | stopAtOnce | prevent | event | eventValue => exact grows_pure _
  | _ => exact grows_answer _

/-! ## Tasks -/

theorem grows_callback (t : Task κ) (ht : ∀ a, Moment.begins t h ≠ .begins (.act a) h) : Grows P fair t.body := by
  cases t with
  | listen l e =>
    unfold Task.body
    dsimp only
    split
    · exact grows_note _ (grows_runWithEvent _ e)
    · exact grows_fire _ _ e
    · refine grows_first (fun _ => rfl) (grows_get fun h => ?_)
      exact (grows_callEntries _ e _).bind fun e' => grows_first (fun _ => rfl) (grows_pure e')
  | outside w e =>
    unfold Task.body
    dsimp only
    split
    · exact grows_note _ (grows_runWithEvent _ e)
    · exact grows_fire _ _ e
  | effect rt b e =>
    refine grows_get fun h => ?_
    split
    · exact grows_pure _
    · split
      · exact grows_note _ (grows_converse _ _)
      · exact grows_first (fun _ => rfl) (grows_converse _ _)
  | watch w c =>
    unfold Task.body
    dsimp only
    split
    · exact grows_note _ (grows_runScript _)
    · exact grows_pure _
  | observe o ns =>
    cases o with
    | script s => exact grows_note _ (grows_runScript s)
    | runtime rt =>
      refine grows_get fun h => ?_
      split
      · exact grows_modify fun h => (beside_unbindAll h rt _).tree
      · exact grows_pure _
  | hook s f => exact grows_note _ (grows_runScript s)
  | ring c t =>
    unfold Task.body
    dsimp only
    split
    · exact grows_first (fun _ => rfl) (grows_runScript _)
    · refine grows_first (fun _ => rfl) (grows_note _ ?_)
      exact (grows_runWithEvent _ _).bind fun _ => grows_modify fun h => (beside_settleDebouncer _ _).tree
    · exact grows_first (fun _ => rfl) ((grows_complete _ _ _).answers _)
  | advance c instant =>
    refine grows_get fun h => ?_
    split
    · exact grows_first (fun _ => rfl) (grows_pure _)
    · exact grows_first (fun _ => rfl)
        ((grows_call (.ring c _)).bind fun _ => (grows_call (.advance c instant)).answers _)
  | act a => exact absurd rfl (ht a)

theorem growing_holds (hP : ∀ t a, fair t a → a.Keeps P t) : (growing P fair).Holds := by
  intro κ t h tr hi hf
  by_cases ht : ∃ a, Moment.begins t h = .begins (.act a) h
  · obtain ⟨a, ea⟩ := ht
    have ha := hP _ a (hf a h ea)
    cases ea
    by_cases hn : ∃ n, a = .click n
    · obtain ⟨n, rfl⟩ := hn
      exact meets_bind.mpr <| (grows_click ha hi).mono fun e h' tr' hi' => grows_back e h' tr' hi'
    · exact grows_perform ha (fun n e => hn ⟨n, e⟩) h _ hi
  · exact grows_callback t (fun a e => ht ⟨a, e⟩) h _ hi

/-- What the edits of the fair actions keep is kept by a procedure in which no others are done. -/
theorem Proc.Came.grows {p : Proc α} {a : α} (hc : p.Came h a h' tr) (hp : Grows P fair p)
    (hP : ∀ t a, fair t a → a.Keeps P t) (hf : ∀ a h, .begins (.act a) h ∈ tr → fair h.page.tree a)
    (hi : P h.page.tree) : P h'.page.tree :=
  hc.meets (growing_holds hP) trivial (hp h [] hi) fun _ hm a h e => hf a h (e ▸ hm)

end Eventful.Host
