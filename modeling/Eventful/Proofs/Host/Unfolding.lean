import Eventful.Proofs.Host.Cascade
import Eventful.Proofs.Host.Runs

/-
  Eventful.Proofs.Host.Unfolding — every session that came back unfolds.

  Procedure by procedure: if the tasks that it calls unfold when they come back, it does.
  So does a session (`session_unfolds`), and no other one (`session_unfolds_iff`).
-/

namespace Eventful.Host

open Page Binding

variable {α β : Type} {κ : Kind} {i : Nat} {h h' : Host}

/-! ## Scripts, scopes and removals -/

theorem follows_runActions (e : Option Event) (as : List Action) : Follows i (runActions e as) := by
  induction as generalizing e with
  | nil => exact follows_pure e
  | cons a rest ih =>
    unfold runActions
    dsimp only
    split
    · exact follows_note _ (ih _)
    · exact (follows_call (.act a)).bind fun r => follows_note _ (ih _)

theorem follows_runScript (s : Script) : Follows i (runScript s) := (follows_runActions none s.actions).answers _

theorem follows_runWithEvent (s : Script) (e : Event) : Follows i (runWithEvent s e) :=
  (follows_runActions (some e) s.actions).answers _

theorem follows_report (f : Failure) (ss : List Script) : Follows i (report f ss) := by
  induction ss with
  | nil => exact follows_pure ()
  | cons s rest ih => exact (follows_call (.hook s f)).bind fun _ => ih

theorem follows_informAll (ns : List NodeId) (os : List (Nat × Observer)) : Follows i (informAll ns os) := by
  induction os with
  | nil => exact follows_pure ()
  | cons o rest ih => exact (follows_call (.observe o.2 ns)).bind fun _ => ih

theorem follows_removeNode (n : NodeId) : Follows i (removeNode n) := by
  refine follows_get fun h => ?_
  split
  · exact follows_pure _
  · refine follows_beside (fun _ => rfl) ?_
    dsimp only
    split
    · exact follows_pure _
    · exact (follows_informAll _ _).answers _

/-! ## Timers -/

theorem follows_runTimers (c limit : Nat) : Follows i (runTimers c limit) := by
  induction limit with
  | zero => exact follows_pure 0
  | succ limit ih =>
    refine follows_get fun h => ?_
    split
    · exact follows_pure 0
    · refine follows_beside (fun _ => rfl) ?_
      exact (follows_call _).bind fun _ => ih.answers _

/-! ## Dispatch -/

theorem follows_callListeners (ls : List (Listener Reaction)) (e : Event) : Follows i (callListeners e ls) := by
  induction ls generalizing e with
  | nil => exact follows_pure e
  | cons l rest ih =>
    have hcalled : Follows i (do
        let e ← call (.listen l { e with passive := l.options.passive })
        let e := { e with passive := false }
        if e.stoppedAtOnce then return e else callListeners e rest) := by
      refine (follows_call (.listen l _)).bind fun e' => ?_
      dsimp only
      split
      · exact follows_pure _
      · exact ih _
    refine follows_get fun h => ?_
    split
    · split
      · exact follows_beside (fun _ => rfl) hcalled
      · exact hcalled
    · exact ih e

theorem follows_makeRounds (e : Event) (rs : List Round) : Follows i (makeRounds e rs) := by
  induction rs generalizing e with
  | nil => exact follows_pure e
  | cons r rest ih =>
    refine follows_get fun h => (follows_callListeners _ _).bind fun e' => ?_
    split
    · exact follows_pure e'
    · exact ih e'

theorem follows_deliver (target : Target) (e : Event) : Follows i (deliver target e) := by
  refine follows_get fun h => (follows_makeRounds _ _).bind fun e' => ?_
  dsimp only
  split
  · exact follows_pure _
  · exact (follows_makeRounds _ _).answers _

theorem follows_mapElement (n : NodeId) (f : Element → Element) :
    Follows i (modify fun h => h.setTree (h.page.tree.mapElement n f)) :=
  follows_modify fun _ => unwritten_of_scopes rfl

theorem follows_click (n : NodeId) : Follows i (click n) := by
  refine follows_get fun h => ?_
  dsimp only
  generalize ((h.page.tree.element? n).bind fun e => if e.isCheckbox then some e.checked else none) = before
  cases before with
  | none => exact (follows_deliver _ _).bind fun e => follows_pure e
  | some b =>
    refine (follows_mapElement n _).bind fun _ => (follows_deliver _ _).bind fun e => ?_
    dsimp only
    split
    · exact (follows_mapElement n _).answers _
    · exact follows_pure e

theorem follows_input (n : NodeId) (value : String) : Follows i (input n value) :=
  (follows_mapElement n _).bind fun _ => follows_deliver _ _

/-! ## Bindings -/

theorem follows_complete (rt id : Nat) (e : Event) : Follows i (complete rt id e) := by
  refine follows_get fun h => ?_
  split
  · exact follows_pure e
  · rename_i r b _
    dsimp only
    split
    · exact follows_pure e
    · refine follows_beside (fun _ => rfl) ?_
      refine (follows_call (.effect rt b e)).bind fun res => ?_
      -- The binding may be unbound after it, and its evaluation ends.
      have hover : ∀ e', Follows i (do
          if b.plan.isOnce then
            modify fun h => (h.unbind rt id).2
          modify fun h => (h.endEvaluation rt id).endIfIdle rt
          return e' : Proc Event) := by
        intro e'
        have hend : Follows i (do
            modify fun h => (h.endEvaluation rt id).endIfIdle rt
            return e' : Proc Event) :=
          follows_beside (fun h => ((beside_endEvaluation h rt id).trans (beside_endIfIdle _ rt)).scopes) (follows_pure e')
        split
        · exact follows_beside (fun h => (beside_unbind h rt id).scopes) hend
        · exact hend
      split
      · exact hover _
      · exact hover e
      · exact follows_get fun _ => (follows_report _ _).bind fun _ => hover e

theorem follows_passGuards (rt : Nat) (b : Bound) (e : Event) (gs : List Directive.Guard) :
    Follows i (passGuards rt b e gs) := by
  induction gs generalizing e with
  | nil => exact follows_complete rt b.id e
  | cons g rest ih =>
    cases g with
    | key f =>
      unfold passGuards
      split
      · exact ih e
      · exact follows_pure e
    | stop => exact ih e.stop
    | prevent => exact ih e.prevent
    | outside =>
      refine follows_get fun h => ?_
      split
      · exact ih e
      · exact follows_pure e
    | debounce wait => exact follows_beside (fun h => (beside_arm h rt b.id wait e).scopes) (follows_pure e)
    | once => exact ih e

theorem follows_fire (rt id : Nat) (e : Event) : Follows i (fire rt id e) := by
  refine follows_get fun h => ?_
  split
  · exact follows_pure e
  · split
    · exact follows_pure e
    · exact follows_passGuards _ _ _ _

theorem follows_callEntries (k : Nat) (e : Event) (ws : List (Entry Waiter)) : Follows i (callEntries k e ws) := by
  induction ws generalizing e with
  | nil => exact follows_pure e
  | cons w rest ih =>
    refine follows_get fun h => ?_
    split
    · exact (follows_call (.outside w e)).bind ih
    · exact ih e

/-! ## Actions -/

theorem follows_edit (f : Tree → Except TreeError Tree) : Follows i (edit f) := by
  refine follows_get fun h => ?_
  split
  · exact follows_pure _
  · exact follows_beside (fun _ => rfl) (follows_pure _)

theorem follows_create (f : Tree → NodeId × Tree) : Follows i (create f) :=
  follows_get fun _ => follows_beside (fun _ => rfl) (follows_pure _)

theorem follows_eventOf (s : Source) : Follows i (eventOf s) := by
  cases s with
  | event e => exact follows_pure _
  | last => exact follows_get fun _ => follows_pure _

theorem follows_back (e : Event) : Follows i (back e) :=
  follows_beside (fun _ => rfl) (follows_pure _)

theorem follows_attempt {f : Host → Except Directive.Error (Nat × Host)}
    (hf : ∀ {h id h'}, f h = .ok (id, h') → h'.scopes = h.scopes) : Follows i (attempt f) := by
  intro task ht h h' r e
  unfold attempt at e
  rw [runWith_get] at e
  cases hfh : f h with
  | error err =>
    rw [hfh] at e
    cases e
    refine ⟨.idle, ?_⟩
    unfold attempt
    refine unfolds_get ?_
    rw [hfh]
    exact .pure _ h
  | ok res =>
    rw [hfh] at e
    cases e
    refine ⟨.idle, ?_⟩
    unfold attempt
    refine unfolds_get ?_
    rw [hfh]
    exact (Unfolds.set (unwritten_of_scopes (hf hfh))).bind (.pure _ _)

theorem unwritten_newScope (v : Value) :
    Unwritten i h { h with scopes := h.scopes ++ [Scope.ofValue v] } := by
  have hbefore : ∀ n, n < h.scopes.length → (h.scopes ++ [Scope.ofValue v])[n]? = h.scopes[n]? := fun n hn =>
    List.getElem?_append_left hn
  refine ⟨fun hi => ?_, fun n hn => ?_, ?_⟩
  · show (h.scope i).Amends ((h.scopes ++ [Scope.ofValue v])[i]?.getD (.ofValue .empty))
    rw [hbefore i hi]
    exact .same _
  · show ((h.scopes ++ [Scope.ofValue v])[n]?.getD (Scope.ofValue .empty)).Numbered
    by_cases hlt : n < h.scopes.length
    · rw [hbefore n hlt]
      exact hn
    · rw [List.getElem?_append_right (Nat.le_of_not_lt hlt)]
      cases n - h.scopes.length <;> exact Scope.numbered_ofValue _
  · show h.scopes.length ≤ (h.scopes ++ [Scope.ofValue v]).length
    simp

theorem follows_perform (a : Action) : Follows i (perform a) := by
  cases a with
  -- the tree
  | createElement tag => exact (follows_create _).answers _
  | createText s => exact (follows_create _).answers _
  | makeComment n s => exact follows_changed fun _ => rfl
  | appendElement parent tag =>
    refine follows_changed fun h => ?_
    split <;> rfl
  | appendChild parent child => exact follows_edit (·.appendChild parent child)
  | removeNode n => exact follows_removeNode n
  | detachNode n => exact follows_edit (·.removeChild n)
  | setAttr n name value => exact follows_edit (·.editElement n (·.setAttr name value))
  | removeAttr n name =>
    refine follows_get fun h => ?_
    split
    · exact follows_pure _
    · exact follows_beside (fun _ => rfl) (follows_pure _)
  | addClass n c => exact follows_edit (·.editElement n (·.addClass c))
  | removeClass n c => exact follows_edit (·.editElement n (·.removeClass c))
  | setSize n width height => exact follows_edit (·.editElement n (·.setSize width height))
  | setBox n width height => exact follows_changed fun _ => rfl
  | setText n s => exact follows_edit (·.setText n s)
  -- listeners and dispatch
  | listen t event o s => exact follows_changed fun _ => rfl
  | unlisten id => exact follows_changed fun _ => rfl
  | observe s => exact follows_changed fun _ => rfl
  | disconnect o =>
    refine follows_changed fun h => ?_
    split <;> rfl
  | dispatch t s =>
    refine (follows_eventOf s).bind fun e => ?_
    split
    · exact follows_pure _
    · exact (follows_deliver _ _).bind fun e => follows_back e
  | click n => exact (follows_click n).bind fun e => follows_back e
  | keyDown n k => exact (follows_deliver _ _).bind fun e => follows_back e
  | keyUp n k => exact (follows_deliver _ _).bind fun e => follows_back e
  | input n v => exact (follows_input n v).bind fun e => follows_back e
  -- scopes
  | newScope v => exact follows_change fun h => unwritten_newScope v
  | set i name v => exact (follows_write i [name] v).bind fun _ => follows_answer _
  | setPath i path v =>
    refine (follows_write i path v).bind fun r => ?_
    split
    · exact follows_pure _
    · exact follows_answer _
  | subscribe j path s => exact follows_change fun h => (unwritten_setScope (j := j) (.subscribe _ _)).beside rfl
  | unsubscribe sub =>
    refine follows_change fun h => ?_
    split
    · exact unwritten_of_scopes rfl
    · exact unwritten_setScope (.unsubscribe _ _)
  | eval i source locals fresh => exact (follows_evaluate i source locals fresh).answers _
  | compile source => exact follows_changed fun _ => rfl
  -- timers and debouncers
  | timeout c delay s => exact follows_changed fun _ => rfl
  | clear c id => exact follows_changed fun _ => rfl
  | advance c delta => exact follows_get fun h => (follows_call (.advance _ _)).answers _
  | advanceTo c instant => exact follows_get fun h => (follows_call (.advance _ _)).answers _
  | runUntilIdle c limit => exact follows_get fun h => (follows_runTimers _ limit).answers _
  | newDebouncer wait => exact follows_changed fun _ => rfl
  | schedule d source s =>
    refine (follows_eventOf source).bind fun e => ?_
    split
    · exact follows_pure _
    · exact follows_beside (fun h => (beside_schedule h d _ s).scopes) (follows_answer _)
  | cancelDebouncer d => exact follows_changed fun h => (beside_cancelDebouncer h d).scopes
  | dropDebouncer d => exact follows_beside (fun h => (beside_settleDebouncer _ d).scopes) (follows_answer _)
  -- runtimes
  | newRuntime s =>
    unfold perform
    dsimp only
    split
    · exact follows_pure _
    · exact follows_changed fun h => (beside_addRuntime h _ s).scopes
  | dropRuntime rt => exact follows_beside (fun h => (beside_release h rt).scopes) (follows_answer _)
  | bind rt n attr expression scope => exact follows_attempt fun e => (beside_bindAttr e).scopes
  | bindDirective rt n d scope => exact follows_attempt fun e => (beside_bind e).scopes
  | bindAttributes rt n scope =>
    refine follows_changed fun h => ?_
    have hs := (beside_bindAttrs h rt n scope).scopes
    split <;> rename_i e <;> rw [e] at hs <;> exact hs
  | unbind rt id => exact follows_changed fun h => (beside_unbind h rt id).scopes
  | unbindElement rt n => exact follows_changed fun h => (beside_unbindAll h rt _).scopes
  | onError rt s => exact follows_beside (fun _ => rfl) (follows_pure _)
  | resetOutside rt => exact follows_beside (fun h => (beside_resetOutside h rt).scopes) (follows_answer _)
  -- outside trackers
  | newTracker => exact follows_changed fun _ => rfl
  | registerOutside t id n event s =>
    refine follows_get fun h => ?_
    split
    · exact follows_beside (fun h => (beside_register h _ _).scopes) (follows_answer _)
    · exact follows_answer _
  | unregisterOutside t id =>
    refine follows_changed fun h => ?_
    split <;> rfl
  | resetTracker t =>
    refine follows_get fun h => ?_
    split
    · exact follows_beside (fun h => (beside_resetTracker h _).scopes) (follows_answer _)
    · exact follows_answer _
  -- the others look, or do nothing
  | stop | stopAtOnce | prevent | event | eventValue => exact follows_pure _
  | _ => exact follows_answer _

/-! ## Tasks -/

theorem follows_body (t : Task κ) : Follows i t.body := by
  cases t with
  | listen l e =>
    unfold Task.body
    dsimp only
    split
    · exact follows_note _ (follows_runWithEvent _ e)
    · exact follows_fire _ _ e
    · refine follows_beside (fun _ => rfl) (follows_get fun h => ?_)
      exact (follows_callEntries _ e _).bind fun e' =>
        follows_beside (fun _ => rfl) (follows_pure e')
  | outside w e =>
    unfold Task.body
    dsimp only
    split
    · exact follows_note _ (follows_runWithEvent _ e)
    · exact follows_fire _ _ e
  | effect rt b e =>
    refine follows_get fun h => ?_
    split
    · exact follows_pure _
    · split
      · exact follows_note _ (follows_converse _ _)
      · exact follows_beside (fun _ => rfl) (follows_converse _ _)
  | watch w c =>
    unfold Task.body
    dsimp only
    split
    · exact follows_note _ (follows_runScript _)
    · exact follows_pure _
  | observe o ns =>
    cases o with
    | script s => exact follows_note _ (follows_runScript s)
    | runtime rt =>
      refine follows_get fun h => ?_
      split
      · exact follows_modify fun h => unwritten_of_scopes (beside_unbindAll h rt _).scopes
      · exact follows_pure _
  | hook s f => exact follows_note _ (follows_runScript s)
  | ring c t =>
    unfold Task.body
    dsimp only
    split
    · exact follows_beside (fun _ => rfl) (follows_runScript _)
    · refine follows_beside (fun _ => rfl) (follows_note _ ?_)
      exact (follows_runWithEvent _ _).bind fun _ => follows_modify fun h => unwritten_of_scopes (beside_settleDebouncer _ _).scopes
    · exact follows_beside (fun _ => rfl) ((follows_complete _ _ _).answers _)
  | advance c instant =>
    refine follows_get fun h => ?_
    split
    · exact follows_beside (fun _ => rfl) (follows_pure 0)
    · refine follows_beside (fun _ => rfl) ?_
      exact (follows_call _).bind fun _ => (follows_call _).answers _
  | act a => exact follows_perform a

/-! ## Sessions -/

theorem traced_run (depth : Nat) : Runner.Traced (Task.run depth) i := by
  induction depth with
  | zero =>
    intro κ t h h' r e
    cases e
  | succ depth ih =>
    intro κ t h h' r e
    exact follows_body t _ ih h h' r e

/-- A session that came back unfolds into a cascade. -/
theorem session_unfolds (i : Nat) {depth : Nat} {as : List Action} {tr : History}
    (e : (play depth as h tr).1 = some h') : ∃ c, Unfolds i (.session as) h () h' c := by
  induction as generalizing h tr with
  | nil =>
    cases e
    exact ⟨_, .done h'⟩
  | cons a as ih =>
    have hrun := record_fst (depth + 1) (.act a) { h with log := [] } tr
    simp only [play] at e
    rcases hrec : Task.record (depth + 1) _ (.act a) { h with log := [] } tr with ⟨_ | ⟨r, h₁⟩, tr₁⟩
    · rw [hrec] at e
      cases e
    · rw [hrec] at e hrun
      obtain ⟨c, hc⟩ := traced_run (depth + 1) .answer (.act a) { h with log := [] } _ _ hrun.symm
      obtain ⟨c', hc'⟩ := ih e
      exact ⟨_, .act hc hc'⟩

/-! ## What unfolds -/

/-- The job comes back with the result. -/
def Job.Returns : {α : Type} → Job α → Host → α → Host → Prop
  | _, .proc p, h, a, h' => ∃ tr, p.Came h a h' tr
  | _, .round w ws, h, a, h' => (∀ ch, w.change = some ch → ∃ tr, (tellAll ch ws).Came h a h' tr) ∧ (ws = [] → h' = h)
  | _, .session as, h, _, h' => ∃ depth, ∀ tr, (play depth as h tr).1 = some h'

/-- A write of which nobody is told, and one of which the subscribers are. -/
theorem write_returns {keys : List String} {value : Value} {s : Scope Watcher} {change : Option Change}
    (hw : (h.scope i).write keys value = .ok (s, change))
    (hround : (Job.round ⟨keys, value, change, s.version⟩ (if change.isSome then s.subscribers else [])).Returns
      (h.setScope i s) () h') : (Job.proc (write i keys value)).Returns h (.ok ()) h' := by
  obtain ⟨htold, hnobody⟩ := hround
  cases change with
  | none =>
    refine ⟨[], ?_⟩
    rw [hnobody rfl]
    unfold write
    rw [came_get, hw]
    exact ⟨0, rfl⟩
  | some ch =>
    obtain ⟨tr, hcame⟩ := htold ch rfl
    have hthen : ((tellAll ch s.subscribers >>= fun _ => pure (.ok ()) : Proc (Except Blocked Unit))).Came
        (h.setScope i s) (.ok ()) h' tr :=
      hcame.bind (f := fun _ => pure (Except.ok ())) (came_done.mpr ⟨rfl, rfl, rfl⟩)
    refine ⟨tr, ?_⟩
    unfold write
    rw [came_get, hw]
    exact hthen

/-- What unfolds comes back. -/
theorem Unfolds.returns {j : Job α} {a : α} {c : Cascade} (hu : Unfolds i j h a h' c) : j.Returns h a h' := by
  induction hu with
  | pure a h => exact ⟨[], came_done.mpr ⟨rfl, rfl, rfl⟩⟩
  | bind _ _ ih ih' =>
    obtain ⟨tr, hp⟩ := ih
    obtain ⟨tr', hf⟩ := ih'
    exact ⟨_, hp.bind hf⟩
  | get h => exact ⟨[], 0, rfl⟩
  | set _ => exact ⟨[], 0, rfl⟩
  | call _ ih =>
    obtain ⟨tr, hbody⟩ := ih
    exact ⟨_, came_call.mpr ⟨_, _, _, [], came_iff.mpr ⟨tr, hbody, rfl⟩, came_done.mpr ⟨rfl, rfl, rfl⟩, rfl⟩⟩
  | write hw _ ih => exact write_returns hw ih
  | told w h => exact ⟨fun _ _ => ⟨[], 0, rfl⟩, fun _ => rfl⟩
  | @tell w x ws ch h h₁ h' _ _ hch _ _ ih ih' =>
    obtain ⟨tr, hwatch⟩ := ih
    obtain ⟨htold, -⟩ := ih'
    refine ⟨fun ch' hch' => ?_, fun hnil => by cases hnil⟩
    cases hch.symm.trans hch'
    obtain ⟨tr', hrest⟩ := htold ch hch
    exact ⟨_, came_call.mpr ⟨(), h₁, _, tr', came_iff.mpr ⟨tr, hwatch, rfl⟩, hrest, rfl⟩⟩
  | done h => exact ⟨0, fun _ => rfl⟩
  | @act a as r h h₁ h' _ _ _ _ ih ih' =>
    obtain ⟨tr, hbody⟩ := ih
    obtain ⟨d', hplay⟩ := ih'
    obtain ⟨d, hd⟩ := came_iff.mpr ⟨tr, hbody, rfl⟩
    refine ⟨max d d', fun tr' => ?_⟩
    have hact := (record_deeper (Nat.le_succ_of_le (Nat.le_max_left d d')) (.act a) _ [] (by rw [hd]; rfl)).trans hd
    simp only [play]
    rw [record_after (max d d' + 1), hact]
    exact play_deeper (Nat.le_max_right d d') (hplay _)

/-- A session unfolds just when it comes back. -/
theorem session_unfolds_iff {as : List Action} :
    (∃ c, Unfolds i (.session as) h () h' c) ↔ ∃ depth, (play depth as h []).1 = some h' := by
  constructor
  · rintro ⟨c, hu⟩
    obtain ⟨depth, hplay⟩ := hu.returns
    exact ⟨depth, hplay []⟩
  · rintro ⟨depth, hplay⟩
    exact session_unfolds i hplay

end Eventful.Host
