import Eventful.Proofs.Host.Callers
import Eventful.Proofs.Host.Removals
import Eventful.Proofs.Host.Telling

/-
  Eventful.Proofs.Host.Doings — what a procedure does, call by call.

  Between its calls a procedure changes the host, and subscribers may come and go; but no id
  of a scope is given twice (`ScopesLater`). Subscribers are called in the rounds that writes
  set off, removal observers in those of removals, and nobody else calls either. All other
  calls stand alone (`Doings`).

  - `does_body`: so it is with the procedure of every task. Listeners are called by
    dispatches, and entries by trackers' listeners.
-/

namespace Eventful.Host

open Page Binding

variable {α β : Type} {κ : Kind} {C : Call → Prop} {h h₁ h' : Host} {cs cs' : List Call}

/-! ## Scopes as time goes by -/

/-- In every scope, whoever stands there and is not new stood there before. -/
def ScopesLater (h h' : Host) : Prop := ∀ i, (h.scope i).Numbered → (h.scope i).Later (h'.scope i)

theorem ScopesLater.rfl (h : Host) : ScopesLater h h := fun _ hn => .rfl hn

theorem ScopesLater.trans (hl : ScopesLater h h₁) (hl' : ScopesLater h₁ h') : ScopesLater h h' :=
  fun i hn => (hl i hn).trans (hl' i (hl i hn).numbered)

theorem later_of_scopes (e : h'.scopes = h.scopes) : ScopesLater h h' := by
  intro i hn
  have hscope : h'.scope i = h.scope i := by rw [scope, scope, e]
  rw [hscope]
  exact .rfl hn

theorem later_setScope {j : Nat} {s : Scope Watcher} (hs : (h.scope j).Numbered → (h.scope j).Later s) :
    ScopesLater h (h.setScope j s) := by
  intro i hn
  by_cases hj : j = i
  · subst hj
    by_cases hlt : j < h.scopes.length
    · rw [scope_setScope hlt]
      exact hs hn
    · have hsame : (h.setScope j s).scopes = h.scopes := List.set_eq_of_length_le (Nat.le_of_not_lt hlt)
      exact later_of_scopes hsame j hn
  · rw [scope_setScope_of_ne hj]
    exact .rfl hn

theorem later_newScope (h : Host) (v : Value) : ScopesLater h { h with scopes := h.scopes ++ [.ofValue v] } := by
  intro i hn
  have hcases : (h.scopes ++ [Scope.ofValue v])[i]? = h.scopes[i]? ∨
      h.scopes[i]? = none ∧ (h.scopes ++ [Scope.ofValue v])[i]? = some (.ofValue v) := by
    rcases Nat.lt_trichotomy i h.scopes.length with hlt | heq | hgt
    · exact .inl (List.getElem?_append_left hlt)
    · subst heq
      exact .inr ⟨List.getElem?_eq_none (Nat.le_refl _), by simp⟩
    · refine .inl ?_
      rw [List.getElem?_eq_none (Nat.le_of_lt hgt), List.getElem?_eq_none]
      rw [List.length_append]
      exact hgt
  unfold scope at hn ⊢
  rcases hcases with hsame | ⟨hnone, hsome⟩
  · rw [hsame]
    exact .rfl hn
  · rw [hnone] at hn ⊢
    rw [hsome]
    exact hn.later_same rfl rfl

/-! ## Calls -/

/-- A task that is called in a round, with all that stand there. -/
def Task.Rounded : {κ : Kind} → Task κ → Prop
  | _, .watch .. => True
  | _, .observe .. => True
  | _, _ => False

/-- A task that is called neither in a round nor for an event on its way. -/
def Task.Single : {κ : Kind} → Task κ → Prop
  | _, .listen .. => False
  | _, .outside .. => False
  | _, .watch .. => False
  | _, .observe .. => False
  | _, _ => True

/-- What a procedure does. Calls that are not in a round are as `C` says. -/
inductive Doings (C : Call → Prop) : Host → List Call → Host → Prop
  | done (h : Host) : Doings C h [] h
  | edit {h h₁ h' : Host} {cs : List Call} : ScopesLater h h₁ → Doings C h₁ cs h' → Doings C h cs h'
  | call {c : Call} {cs : List Call} {h' : Host} : C c → Doings C c.after cs h' → Doings C c.before (c :: cs) h'
  /-- A write that is not refused, and its round. -/
  | write {i : Nat} {path : List String} {v : Value} {s : Scope Watcher} {change : Option Change} {h h₁ h' : Host}
    {cs cs' : List Call} : (h.scope i).write path v = .ok (s, change) → Announced i s change h cs h₁ → Doings C h₁ cs' h' →
    Doings C h (cs ++ cs') h'
  /-- The observers that are registered are told of nodes. -/
  | inform {ns : List NodeId} {h h₁ h' : Host} {cs cs' : List Call} : Informs ns h.page.observers h cs h₁ →
    Doings C h₁ cs' h' → Doings C h (cs ++ cs') h'

theorem Doings.append (hd : Doings C h cs h₁) (hd' : Doings C h₁ cs' h') : Doings C h (cs ++ cs') h' := by
  induction hd with
  | done => exact hd'
  | edit hl _ ih => exact .edit hl (ih hd')
  | call hc _ ih => exact .call hc (ih hd')
  | write hw ht _ ih =>
    rw [List.append_assoc]
    exact .write hw ht (ih hd')
  | inform hi _ ih =>
    rw [List.append_assoc]
    exact .inform hi (ih hd')

theorem Announced.rounded {i : Nat} {s : Scope Watcher} {change : Option Change} (ht : Announced i s change h cs h') :
    ∀ c ∈ cs, c.task.Rounded := by
  intro c hc
  have hmem : c.told? ∈ cs.map Call.told? := List.mem_map_of_mem hc
  rw [ht.told] at hmem
  obtain ⟨ch, -, hmem⟩ := List.mem_flatMap.mp hmem
  obtain ⟨w, -, heq⟩ := List.mem_map.mp hmem
  obtain ⟨t, _, _, _⟩ := c
  cases t with
  | watch => trivial
  | _ => cases heq

theorem Informs.rounded {ns : List NodeId} {os : List (Nat × Observer)} (hi : Informs ns os h cs h') :
    ∀ c ∈ cs, c.task.Rounded := by
  induction hi with
  | nil => exact List.forall_mem_nil _
  | cons _ ih => exact List.forall_mem_cons.mpr ⟨trivial, ih⟩

theorem Doings.single (hd : Doings C h cs h') : ∀ c ∈ cs, ¬c.task.Rounded → C c := by
  induction hd with
  | done => exact List.forall_mem_nil _
  | edit _ _ ih => exact ih
  | call hc _ ih => exact List.forall_mem_cons.mpr ⟨fun _ => hc, ih⟩
  | write _ ht _ ih => exact List.forall_mem_append.mpr ⟨fun c hc hno => absurd (ht.rounded c hc) hno, ih⟩
  | inform hi _ ih => exact List.forall_mem_append.mpr ⟨fun c hc hno => absurd (hi.rounded c hc) hno, ih⟩

/-- Whatever its calls come back with, that is what the procedure does. -/
def Does (C : Call → Prop) (p : Proc α) : Prop :=
  ∀ h cs a h', p.Gives h cs a h' → Doings C h cs h'

theorem does_pure (a : α) : Does C (pure a : Proc α) := by
  intro h cs b h' hg
  obtain ⟨rfl, -, rfl⟩ := hg
  exact .done _

theorem Does.bind {p : Proc α} {f : α → Proc β} (hp : Does C p) (hf : ∀ a, Does C (f a)) : Does C (p >>= f) := by
  intro h cs b h' hg
  obtain ⟨a, h₁, cs₁, cs₂, rfl, hg₁, hg₂⟩ := gives_bind.mp hg
  exact (hp _ _ _ _ hg₁).append (hf a _ _ _ _ hg₂)

theorem Does.answers {p : Proc α} (hp : Does C p) (f : α → β) : Does C (p >>= fun a => pure (f a)) :=
  hp.bind fun _ => does_pure _

theorem does_get {f : Host → Proc β} (hf : ∀ h, Does C (f h)) : Does C (get >>= f) :=
  fun h _ _ _ hg => hf h _ _ _ _ hg

theorem does_answer (f : Host → Answer) : Does C (answer f) := does_get fun _ => does_pure _

theorem does_call (t : Task κ) (hC : ∀ h r h₁, C ⟨t, h, r, h₁⟩) : Does C (call t) := by
  intro h cs r h' hg
  obtain ⟨r', h₁, rest, rfl, rfl, -, rfl⟩ := hg
  exact .call (hC h r' h') (.done _)

/-- An edit comes first. -/
theorem does_first {f : Host → Host} {k : PUnit → Proc β} (hf : ∀ h, ScopesLater h (f h)) (hk : Does C (k ())) :
    Does C (modify f >>= k) := fun _ _ _ _ hg => .edit (hf _) (hk _ _ _ _ (gives_first.mp hg))

theorem does_change {f : Host → α × Host} (hf : ∀ h, ScopesLater h (f h).2) : Does C (change f) := by
  intro h cs a h' hg
  obtain ⟨rfl, -, rfl⟩ := hg
  exact .edit (hf h) (.done _)

/-- An edit comes first that leaves the scopes. -/
theorem does_beside {f : Host → Host} {k : PUnit → Proc β} (hf : ∀ h, (f h).scopes = h.scopes) (hk : Does C (k ())) :
    Does C (modify f >>= k) := does_first (fun h => later_of_scopes (hf h)) hk

theorem does_changed {f : Host → α × Host} (hf : ∀ h, (f h).2.scopes = h.scopes) : Does C (change f) :=
  does_change fun h => later_of_scopes (hf h)

theorem does_modify {f : Host → Host} (hf : ∀ h, (f h).scopes = h.scopes) : Does C (modify f : Proc PUnit) :=
  does_changed (f := fun h => ((), f h)) hf

theorem does_note (n : Note) {k : PUnit → Proc β} (hk : Does C (k ())) : Does C (modify (·.note n) >>= k) :=
  does_beside (fun _ => rfl) hk

theorem does_mapElement (n : NodeId) (f : Element → Element) :
    Does C (modify fun h => h.setTree (h.page.tree.mapElement n f)) := does_modify fun _ => rfl

/-! ## Rounds -/

theorem does_write (scope : Nat) (path : List String) (v : Value) : Does C (write scope path v) := by
  intro h cs r h' hg
  cases hw : (h.scope scope).write path v with
  | error b =>
    unfold write at hg
    rw [gives_get, hw] at hg
    obtain ⟨rfl, -, rfl⟩ := hg
    exact .done _
  | ok p =>
    obtain ⟨s, change⟩ := p
    have hd := Doings.write (C := C) hw (gives_write hw hg).2 (.done h')
    rwa [List.append_nil] at hd

theorem does_converse (scope : Nat) (d : Expr.Dialogue α) : Does C (converse scope d) := by
  induction d with
  | done a => exact does_pure a
  | ask name k ih => exact does_get fun _ => ih _
  | tell path v k ih => exact (does_write scope path v).bind ih

theorem does_evaluate (scope : Nat) (source : String) (locals : List (String × Value)) (fresh : Bool) :
    Does C (evaluate scope source locals fresh) := by
  unfold evaluate
  split
  · exact does_converse _ _
  · refine does_get fun h => ?_
    dsimp only
    exact does_beside (fun _ => rfl) (does_converse scope _)

theorem does_removeNode (n : NodeId) : Does C (removeNode n) := by
  refine does_get fun h => ?_
  split
  · exact does_pure _
  · rename_i ns page _
    intro h₀ cs a h' hg
    have hedit : ScopesLater h₀ { h₀ with page } := later_of_scopes rfl
    obtain ⟨-, htells⟩ := tells_of_gives (h := { h₀ with page }) rfl (gives_first.mp hg)
    refine .edit hedit ?_
    rcases htells with ⟨-, rfl, rfl⟩ | ⟨-, hinforms⟩
    · exact .done _
    · have hd := Doings.inform (C := C) hinforms (.done h')
      rwa [List.append_nil] at hd

/-! ## Single calls -/

theorem does_windUp (rt id : Nat) (once : Bool) (e : Event) : Does C (windUp rt id once e) := by
  have hend : Does C (do
      modify fun h => (h.endEvaluation rt id).endIfIdle rt
      return e : Proc Event) :=
    does_beside (fun h => ((beside_endEvaluation h rt id).trans (beside_endIfIdle _ rt)).scopes) (does_pure e)
  unfold windUp
  split
  · exact does_beside (fun h => (beside_unbind h rt id).scopes) hend
  · exact hend

section

variable (hC : ∀ c : Call, c.task.Single → C c)

include hC

theorem does_single (t : Task κ) (ht : t.Single) : Does C (call t) := does_call t fun _ _ _ => hC _ ht

theorem does_runActions (e : Option Event) (as : List Action) : Does C (runActions e as) := by
  induction as generalizing e with
  | nil => exact does_pure e
  | cons a rest ih =>
    unfold runActions
    dsimp only
    split
    · exact does_note _ (ih _)
    · exact (does_single hC (.act a) trivial).bind fun r => does_note _ (ih _)

theorem does_runScript (s : Script) : Does C (runScript s) := (does_runActions hC none s.actions).answers _

theorem does_runWithEvent (s : Script) (e : Event) : Does C (runWithEvent s e) :=
  (does_runActions hC (some e) s.actions).answers _

theorem does_report (f : Failure) (ss : List Script) : Does C (report f ss) := by
  induction ss with
  | nil => exact does_pure ()
  | cons s rest ih => exact (does_single hC (.hook s f) trivial).bind fun _ => ih

theorem does_runTimers (c limit : Nat) : Does C (runTimers c limit) := by
  induction limit with
  | zero => exact does_pure 0
  | succ limit ih =>
    refine does_get fun h => ?_
    split
    · exact does_pure 0
    · rename_i t k _
      exact does_beside (fun _ => rfl) ((does_single hC (.ring c t) trivial).bind fun _ => ih.answers _)

theorem does_complete (rt id : Nat) (e : Event) : Does C (complete rt id e) := by
  refine does_get fun h => ?_
  split
  · exact does_pure e
  · rename_i r b _
    dsimp only
    split
    · exact does_pure e
    · have hover (e' : Event) : Does C (windUp rt id b.plan.isOnce e') := does_windUp rt id _ e'
      refine does_beside (fun _ => rfl) <|
        (does_single hC (.effect rt b e) trivial).bind fun res => ?_
      split
      · exact hover _
      · exact hover e
      · exact does_get fun h => (does_report hC _ _).bind fun _ => hover e

theorem does_passGuards (rt : Nat) (b : Bound) (e : Event) (gs : List Directive.Guard) : Does C (passGuards rt b e gs) := by
  induction gs generalizing e with
  | nil => exact does_complete hC rt b.id e
  | cons g rest ih =>
    cases g with
    | key f =>
      unfold passGuards
      split
      · exact ih e
      · exact does_pure e
    | stop => exact ih e.stop
    | prevent => exact ih e.prevent
    | outside =>
      refine does_get fun h => ?_
      split
      · exact ih e
      · exact does_pure e
    | debounce wait => exact does_beside (fun h => (beside_arm h rt b.id wait e).scopes) (does_pure e)
    | once => exact ih e

theorem does_fire (rt id : Nat) (e : Event) : Does C (fire rt id e) := by
  refine does_get fun h => ?_
  split
  · exact does_pure e
  · split
    · exact does_pure e
    · exact does_passGuards hC _ _ _ _

end

/-! ## Events on their way -/

section

variable (hC : ∀ c : Call, ¬c.task.Rounded → C c)

include hC

theorem does_callListeners (ls : List (Listener Reaction)) (e : Event) : Does C (callListeners e ls) := by
  induction ls generalizing e with
  | nil => exact does_pure e
  | cons l rest ih =>
    have hcalled : Does C (do
        let e ← call (.listen l { e with passive := l.options.passive })
        let e := { e with passive := false }
        if e.stoppedAtOnce then return e else callListeners e rest) := by
      refine (does_call (.listen l _) fun _ _ _ => hC _ id).bind fun e' => ?_
      dsimp only
      split
      · exact does_pure _
      · exact ih _
    refine does_get fun h => ?_
    split
    · split
      · exact does_beside (fun _ => rfl) hcalled
      · exact hcalled
    · exact ih e

theorem does_makeRounds (e : Event) (rs : List Round) : Does C (makeRounds e rs) := by
  induction rs generalizing e with
  | nil => exact does_pure e
  | cons r rest ih =>
    refine does_get fun h => (does_callListeners hC _ _).bind fun e' => ?_
    split
    · exact does_pure e'
    · exact ih e'

theorem does_deliver (target : Target) (e : Event) : Does C (deliver target e) := by
  refine does_get fun h => (does_makeRounds hC _ _).bind fun e' => ?_
  dsimp only
  split
  · exact does_pure _
  · exact (does_makeRounds hC _ _).answers _

theorem does_click (n : NodeId) : Does C (click n) := by
  refine does_get fun h => ?_
  dsimp only
  generalize ((h.page.tree.element? n).bind fun e => if e.isCheckbox then some e.checked else none) = before
  cases before with
  | none => exact (does_deliver hC _ _).bind fun e => does_pure e
  | some b =>
    refine (does_mapElement n _).bind fun _ => (does_deliver hC _ _).bind fun e => ?_
    dsimp only
    split
    · exact (does_mapElement n _).answers _
    · exact does_pure e

theorem does_input (n : NodeId) (value : String) : Does C (input n value) :=
  (does_mapElement n _).bind fun _ => does_deliver hC _ _

theorem does_callEntries (k : Nat) (e : Event) (ws : List (Entry Waiter)) : Does C (callEntries k e ws) := by
  induction ws generalizing e with
  | nil => exact does_pure e
  | cons w rest ih =>
    refine does_get fun h => ?_
    split
    · exact (does_call (.outside w e) fun _ _ _ => hC _ id).bind ih
    · exact ih e

end

/-! ## Actions -/

/-- Where the action dispatches an event, if it is one that does. -/
def Action.target? : Action → Option Target
  | .dispatch t _ => some t
  | .click n | .keyDown n _ | .keyUp n _ | .input n _ => some (.node n)
  | _ => none

theorem does_edit (f : Tree → Except TreeError Tree) : Does C (edit f) := by
  refine does_get fun h => ?_
  split
  · exact does_pure _
  · exact does_beside (fun _ => rfl) (does_pure _)

theorem does_create (f : Tree → NodeId × Tree) : Does C (create f) :=
  does_get fun _ => does_beside (fun _ => rfl) (does_pure _)

theorem does_eventOf (source : Source) : Does C (eventOf source) := by
  cases source with
  | event e => exact does_pure _
  | last => exact does_get fun _ => does_pure _

theorem does_back (e : Event) : Does C (back e) := does_beside (fun _ => rfl) (does_pure _)

theorem does_attempt {f : Host → Except Directive.Error (Nat × Host)} (hf : ∀ {h id h'}, f h = .ok (id, h') → Beside h h') :
    Does C (attempt f) := by
  intro h cs a h' hg
  unfold attempt at hg
  rw [gives_get] at hg
  split at hg
  · obtain ⟨rfl, -, rfl⟩ := hg
    exact .done _
  · rename_i id h₁ e
    obtain ⟨rfl, -, rfl⟩ := hg
    exact .edit (later_of_scopes (hf e).scopes) (.done _)

theorem does_perform (a : Action) (hC : ∀ c : Call, c.task.Single → C c)
    (hall : a.target?.isSome = true → ∀ c : Call, ¬c.task.Rounded → C c) : Does C (perform a) := by
  cases a with
  -- the tree
  | createElement tag => exact (does_create _).answers _
  | createText s => exact (does_create _).answers _
  | makeComment n s => exact does_changed fun _ => rfl
  | appendElement parent tag =>
    refine does_changed fun h => ?_
    split <;> rfl
  | appendChild parent child => exact does_edit (·.appendChild parent child)
  | removeNode n => exact does_removeNode n
  | detachNode n => exact does_edit (·.removeChild n)
  | setAttr n name value => exact does_edit (·.editElement n (·.setAttr name value))
  | removeAttr n name =>
    refine does_get fun h => ?_
    split
    · exact does_pure _
    · exact does_beside (fun _ => rfl) (does_pure _)
  | addClass n c => exact does_edit (·.editElement n (·.addClass c))
  | removeClass n c => exact does_edit (·.editElement n (·.removeClass c))
  | setSize n width height => exact does_edit (·.editElement n (·.setSize width height))
  | setBox n width height => exact does_changed fun _ => rfl
  | setText n s => exact does_edit (·.setText n s)
  -- listeners and dispatch
  | listen t event o s => exact does_changed fun _ => rfl
  | unlisten id => exact does_changed fun _ => rfl
  | observe s => exact does_changed fun _ => rfl
  | disconnect o =>
    refine does_changed fun h => ?_
    split <;> rfl
  | dispatch t s =>
    refine (does_eventOf s).bind fun e => ?_
    split
    · exact does_pure _
    · exact (does_deliver (hall rfl) _ _).bind fun e => does_back e
  | click n => exact (does_click (hall rfl) n).bind fun e => does_back e
  | keyDown n k => exact (does_deliver (hall rfl) _ _).bind fun e => does_back e
  | keyUp n k => exact (does_deliver (hall rfl) _ _).bind fun e => does_back e
  | input n v => exact (does_input (hall rfl) n v).bind fun e => does_back e
  -- scopes
  | newScope v => exact does_change fun h => later_newScope h v
  | set i name v => exact (does_write i [name] v).bind fun _ => does_answer _
  | setPath i path v =>
    refine (does_write i path v).bind fun r => ?_
    split
    · exact does_pure _
    · exact does_answer _
  | subscribe i path s => exact does_change fun h => later_setScope (Scope.Amends.subscribe (h.scope i) _).later
  | unsubscribe sub =>
    refine does_change fun h => ?_
    split
    · exact .rfl h
    · rename_i i id _
      exact later_setScope (Scope.Amends.unsubscribe (h.scope i) id).later
  | eval i source locals fresh => exact (does_evaluate i source locals fresh).answers _
  | compile source => exact does_changed fun _ => rfl
  -- timers and debouncers
  | timeout c delay s => exact does_changed fun _ => rfl
  | clear c id => exact does_changed fun _ => rfl
  | advance c delta => exact does_get fun _ => (does_single hC _ (by trivial)).answers _
  | advanceTo c instant => exact does_get fun _ => (does_single hC _ (by trivial)).answers _
  | runUntilIdle c limit => exact does_get fun h => (does_runTimers hC _ limit).answers _
  | newDebouncer wait => exact does_changed fun _ => rfl
  | schedule d source s =>
    refine (does_eventOf source).bind fun e => ?_
    split
    · exact does_pure _
    · exact does_beside (fun h => (beside_schedule h d _ s).scopes) (does_answer _)
  | cancelDebouncer d => exact does_changed fun h => (beside_cancelDebouncer h d).scopes
  | dropDebouncer d => exact does_beside (fun h => (beside_settleDebouncer _ d).scopes) (does_answer _)
  -- runtimes
  | newRuntime s =>
    unfold perform
    dsimp only
    split
    · exact does_pure _
    · exact does_changed fun h => (beside_addRuntime h _ s).scopes
  | dropRuntime rt => exact does_beside (fun h => (beside_release h rt).scopes) (does_answer _)
  | bind rt n attr expression scope => exact does_attempt beside_bindAttr
  | bindDirective rt n d scope => exact does_attempt beside_bind
  | bindAttributes rt n scope =>
    refine does_changed fun h => ?_
    have hb := (beside_bindAttrs h rt n scope).scopes
    split <;> rename_i e <;> rw [e] at hb <;> exact hb
  | unbind rt id => exact does_changed fun h => (beside_unbind h rt id).scopes
  | unbindElement rt n => exact does_changed fun h => (beside_unbindAll h rt _).scopes
  | onError rt s => exact does_beside (fun _ => rfl) (does_pure _)
  | resetOutside rt => exact does_beside (fun h => (beside_resetOutside h rt).scopes) (does_answer _)
  -- outside trackers
  | newTracker => exact does_changed fun _ => rfl
  | registerOutside t id n event s =>
    refine does_get fun h => ?_
    split
    · exact does_beside (fun h => (beside_register h _ _).scopes) (does_answer _)
    · exact does_answer _
  | unregisterOutside t id =>
    refine does_changed fun h => ?_
    split <;> rfl
  | resetTracker t =>
    refine does_get fun h => ?_
    split
    · exact does_beside (fun h => (beside_resetTracker h _).scopes) (does_answer _)
    · exact does_answer _
  -- the others look, or do nothing
  | stop | stopAtOnce | prevent | event | eventValue => exact does_pure _
  | _ => exact does_answer _

/-! ## Tasks -/

/-- A tracker's listener is called. -/
def Task.Walks : {κ : Kind} → Task κ → Prop
  | _, .listen l _ => ∃ k, l.action = .tracker k
  | _, _ => False

/-- An action that dispatches an event. -/
def Task.Dispatches : {κ : Kind} → Task κ → Prop
  | _, .act a => a.target?.isSome = true
  | _, _ => False

theorem does_body (t : Task κ) (hC : ∀ c : Call, c.task.Single → C c)
    (hall : t.Walks ∨ t.Dispatches → ∀ c : Call, ¬c.task.Rounded → C c) : Does C t.body := by
  cases t with
  | listen l e =>
    unfold Task.body
    dsimp only
    split
    · exact does_note _ (does_runWithEvent hC _ e)
    · exact does_fire hC _ _ e
    · rename_i k ha
      refine does_beside (fun _ => rfl) (does_get fun h => ?_)
      exact (does_callEntries (hall (.inl ⟨k, ha⟩)) _ e _).bind fun e' => does_beside (fun _ => rfl) (does_pure e')
  | outside w e =>
    unfold Task.body
    dsimp only
    split
    · exact does_note _ (does_runWithEvent hC _ e)
    · exact does_fire hC _ _ e
  | effect rt b e =>
    refine does_get fun h => ?_
    split
    · exact does_pure _
    · split
      · exact does_note _ (does_converse _ _)
      · exact does_beside (fun _ => rfl) (does_converse _ _)
  | watch w c =>
    unfold Task.body
    dsimp only
    split
    · exact does_note _ (does_runScript hC _)
    · exact does_pure _
  | observe o ns =>
    cases o with
    | script s => exact does_note _ (does_runScript hC s)
    | runtime rt =>
      refine does_get fun h => ?_
      split
      · exact does_modify fun h => (beside_unbindAll h rt _).scopes
      · exact does_pure _
  | hook s f => exact does_note _ (does_runScript hC s)
  | ring c t =>
    unfold Task.body
    dsimp only
    split
    · exact does_beside (fun _ => rfl) (does_runScript hC _)
    · refine does_beside (fun _ => rfl) (does_note _ ?_)
      exact (does_runWithEvent hC _ _).bind fun _ => does_modify fun h => (beside_settleDebouncer _ _).scopes
    · exact does_beside (fun _ => rfl) ((does_complete hC _ _ _).answers _)
  | advance c instant =>
    refine does_get fun h => ?_
    split
    · exact does_beside (fun _ => rfl) (does_pure _)
    · rename_i t k _
      exact does_beside (fun _ => rfl)
        ((does_single hC (.ring c t) trivial).bind fun _ => (does_single hC (.advance c instant) trivial).answers _)
  | act a => exact does_perform a hC fun ha => hall (.inr ha)

end Eventful.Host
