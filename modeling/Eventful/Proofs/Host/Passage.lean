import Eventful.Proofs.Host.Contract
import Eventful.Proofs.Host.Strokes
import Eventful.Proofs.Host.Sweep

/-
  Eventful.Proofs.Host.Passage — from one moment of a session to the next.

  Between two moments lies a course of strokes. Two things are done beside: a timer that
  rings is taken from its clock just before, and an advance that finds nothing due moves
  its clock (`Leads`). The history of a session is chained that way from the host that it
  starts in (`session_chained`), whatever its callbacks do.

  - `Chained.always`: what holds at the start and is kept by strokes, rings and passing
    time holds at every moment.
  - `Chained.since`: what lies between the hosts of two moments, if it lies between the
    two sides of strokes, rings and passing time.
-/

namespace Eventful.Host

open Page Binding

variable {α β : Type} {κ : Kind} {start h h' : Host} {tr : History} {rt : Nat}

/-! ## Chained moments -/

/-- The host in which a history leaves off. -/
def reached (start : Host) : History → Host
  | [] => start
  | m :: _ => m.host

/-- A timer begins to ring. -/
def Moment.isRing : Moment → Bool
  | .begins (.ring ..) _ => true
  | _ => false

/-- The moment comes about next. -/
inductive Leads (start : Host) (tr : History) : Moment → Prop
  | strokes {m : Moment} : Strokes (reached start tr) m.host → m.isRing = false → Leads start tr m
  | ring {h : Host} {c : Nat} {t : Timer Alarm} {k : Clock Alarm} : Strokes (reached start tr) h →
    (h.clock c).takeFirst? = some (t, k) → Leads start tr (.begins (.ring c t) (h.setClock c k))
  | pass {h : Host} {c instant : Nat} {tr' : History} : tr = .begins (.advance c instant) h :: tr' →
    (h.clock c).takeDue? instant = none → Leads start tr (.ends (.advance c instant) 0 (h.moved c instant))

def Chained (start : Host) : History → Prop
  | [] => True
  | m :: tr => Leads start tr m ∧ Chained start tr

theorem Chained.split {later earlier : History} {m : Moment} (hc : Chained start (later ++ m :: earlier)) :
    Leads start earlier m ∧ Chained start earlier := by
  induction later with
  | nil => exact hc
  | cons m' later ih => exact ih hc.2

/-- Strokes, rings and passing time keep it. -/
structure Lasts (I : Host → Prop) (tr : History) : Prop where
  stroke : ∀ {h h'}, Stroke h h' → I h → I h'
  ring : ∀ {h c t k}, (h.clock c).takeFirst? = some (t, k) → I h → I (h.setClock c k)
  pass : ∀ {h c instant}, .begins (.advance c instant) h ∈ tr → (h.clock c).takeDue? instant = none → I h →
    I (h.moved c instant)

theorem Lasts.strokes {I : Host → Prop} (hk : Lasts I tr) (hs : Strokes h h') (hi : I h) : I h' := by
  induction hs with
  | refl => exact hi
  | tail _ hs ih => exact hk.stroke hs ih

theorem Lasts.mono {I : Host → Prop} {tr' : History} (hk : Lasts I tr) (hsub : tr' ⊆ tr) : Lasts I tr' :=
  ⟨hk.stroke, hk.ring, fun hm => hk.pass (hsub hm)⟩

theorem Lasts.leads {I : Host → Prop} {m : Moment} (hk : Lasts I tr) (hl : Leads start tr m)
    (hi : I (reached start tr)) : I m.host := by
  cases hl with
  | strokes hs => exact hk.strokes hs hi
  | ring hs ht => exact hk.ring ht (hk.strokes hs hi)
  | pass e hnone =>
    subst e
    exact hk.pass List.mem_cons_self hnone hi

theorem Chained.reached {I : Host → Prop} (hc : Chained start tr) (hk : Lasts I tr) (hi : I start) :
    I (reached start tr) := by
  induction tr with
  | nil => exact hi
  | cons m tr ih =>
    have hk' := hk.mono (List.subset_cons_self m tr)
    exact hk'.leads hc.1 (ih hc.2 hk')

/-- What is kept holds at all moments if it holds at the start. -/
theorem Chained.always {I : Host → Prop} (hc : Chained start tr) (hk : Lasts I tr) (hi : I start) :
    ∀ m ∈ tr, I m.host := by
  intro m hm
  obtain ⟨later, earlier, rfl⟩ := List.append_of_mem hm
  obtain ⟨hl, hc'⟩ := hc.split
  have hk' : Lasts I earlier := hk.mono fun m' hm' => List.mem_append_right _ (List.mem_cons_of_mem _ hm')
  exact hk'.leads hl (hc'.reached hk' hi)

/-- What strokes, rings and passing time make of a host lies after it. -/
theorem Chained.since {R : Host → Host → Prop} (hc : Chained start tr) (refl : ∀ h, R h h)
    (hk : ∀ h, Lasts (R h) tr) : ∀ m ∈ tr, R m.host (Host.reached start tr) := by
  intro m hm
  obtain ⟨later, earlier, rfl⟩ := List.append_of_mem hm
  induction later with
  | nil => exact refl _
  | cons m' later ih =>
    have hk' := fun h => (hk h).mono (List.subset_cons_self _ _)
    exact (hk' _).leads hc.1 (ih hc.2 hk' (List.mem_append_right _ List.mem_cons_self))

/-! ## The contract -/

def striding (start : Host) : Contract where
  fair _ := True
  pre t h tr := Chained start (.begins t h :: tr)
  post t _ _ r h' tr' := ∃ tr'', tr' = .ends t r h' :: tr'' ∧ Chained start tr'
  kept := Chained start
  kept_begins hp := hp
  kept_ends hp _ := by
    obtain ⟨tr'', -, hc⟩ := hp
    exact hc

/-- Strokes since the last moment. -/
structure Under (start h : Host) (tr : History) : Prop where
  chained : Chained start tr
  strokes : Strokes (reached start tr) h

/-- The procedure makes strokes between its calls. -/
def Strides (p : Proc α) : Prop :=
  ∀ start h tr, Under start h tr → p.Meets (striding start) h tr fun _ h' tr' => Under start h' tr'

theorem Under.edit (hu : Under start h tr) (hs : Strokes h h') : Under start h' tr := ⟨hu.chained, hu.strokes.trans hs⟩

theorem strides_pure (a : α) : Strides (pure a : Proc α) := fun _ _ _ hu => hu

theorem Strides.bind {p : Proc α} {f : α → Proc β} (hp : Strides p) (hf : ∀ a, Strides (f a)) : Strides (p >>= f) :=
  fun start h tr hu => meets_bind.mpr <| (hp start h tr hu).mono fun a h' tr' hu' => hf a start h' tr' hu'

theorem strides_get {f : Host → Proc β} (hf : ∀ h, Strides (f h)) : Strides (get >>= f) :=
  fun start h tr hu => hf h start h tr hu

theorem strides_modify {f : Host → Host} (hf : ∀ h, Strokes h (f h)) : Strides (modify f : Proc PUnit) :=
  fun _ h _ hu => hu.edit (hf h)

theorem strides_change {f : Host → α × Host} (hf : ∀ h, Strokes h (f h).2) : Strides (change f) :=
  fun _ h _ hu => hu.edit (hf h)

theorem strides_answer (f : Host → Answer) : Strides (answer f) := fun _ _ _ hu => hu

/-- What is known when a task that was called comes back. -/
theorem under_of_post {t : Task κ} {r : κ.Carrier} {tr' : History} (hp : (striding start).post t h tr r h' tr') :
    Under start h' tr' := by
  obtain ⟨tr'', rfl, hc⟩ := hp
  exact ⟨hc, .rfl h'⟩

theorem strides_call (t : Task κ) (hring : ∀ h, (Moment.begins t h).isRing = false) : Strides (call t) :=
  fun _ h _ hu =>
    meets_call.mpr ⟨⟨.strokes hu.strokes (hring h), hu.chained⟩, fun _ _ _ hp _ _ => under_of_post hp⟩

theorem strides_act (a : Action) : Strides (call (.act a)) := strides_call (.act a) fun _ => rfl

/-- The next timer of a clock is taken and rings. -/
theorem strides_ring {c : Nat} {t : Timer Alarm} {k : Clock Alarm} {p : Proc α} (hu : Under start h tr)
    (ht : (h.clock c).takeFirst? = some (t, k)) (hp : Strides p) :
    (do
      modify fun h => h.setClock c k
      call (.ring c t)
      p : Proc α).Meets (striding start) h tr fun _ h' tr' => Under start h' tr' :=
  ⟨⟨.ring hu.strokes ht, hu.chained⟩, fun _ h' tr' hpost _ _ => hp start h' tr' (under_of_post hpost)⟩

theorem Strides.answers {p : Proc α} (hp : Strides p) (f : α → β) : Strides (p >>= fun a => pure (f a)) :=
  hp.bind fun _ => strides_pure _

/-- An edit comes first. -/
theorem strides_first {f : Host → Host} {k : PUnit → Proc β} (hf : ∀ h, Strokes h (f h)) (hk : Strides (k ())) :
    Strides (modify f >>= k) := (strides_modify hf).bind fun _ => hk

/-- An edit comes first that has nothing to do with clocks, observers and runtimes. -/
theorem strides_beside {f : Host → Host} {k : PUnit → Proc β} (hf : ∀ h, Aside h (f h)) (hk : Strides (k ())) :
    Strides (modify f >>= k) := strides_first (fun h => (Stroke.aside (hf h)).one) hk

theorem strides_changed {f : Host → α × Host} (hf : ∀ h, Aside h (f h).2) : Strides (change f) :=
  strides_change fun h => (Stroke.aside (hf h)).one

theorem strides_note (n : Note) {k : PUnit → Proc β} (hk : Strides (k ())) : Strides (modify (·.note n) >>= k) :=
  strides_beside (fun _ => ⟨rfl, rfl, rfl, rfl, rfl⟩) hk

/-! ## Scripts, scopes and removals -/

theorem strides_runActions (e : Option Event) (as : List Action) : Strides (runActions e as) := by
  induction as generalizing e with
  | nil => exact strides_pure e
  | cons a rest ih =>
    unfold runActions
    dsimp only
    split
    · exact strides_note _ (ih _)
    · exact (strides_act a).bind fun r => strides_note _ (ih _)

theorem strides_runScript (s : Script) : Strides (runScript s) := (strides_runActions none s.actions).answers _

theorem strides_runWithEvent (s : Script) (e : Event) : Strides (runWithEvent s e) :=
  (strides_runActions (some e) s.actions).answers _

theorem strides_report (f : Failure) (ss : List Script) : Strides (report f ss) := by
  induction ss with
  | nil => exact strides_pure ()
  | cons s rest ih => exact (strides_call (.hook s f) fun _ => rfl).bind fun _ => ih

theorem strides_tellAll (c : Change) (ws : List (Nat × Watcher)) : Strides (tellAll c ws) := by
  induction ws with
  | nil => exact strides_pure ()
  | cons w rest ih => exact (strides_call (.watch w.2 c) fun _ => rfl).bind fun _ => ih

theorem strides_write (scope : Nat) (path : List String) (v : Value) : Strides (write scope path v) := by
  refine strides_get fun h => ?_
  split
  · exact strides_pure _
  · refine strides_beside (fun _ => ⟨rfl, rfl, rfl, rfl, rfl⟩) ?_
    dsimp only
    split
    · exact (strides_tellAll _ _).answers _
    · exact strides_pure _

theorem strides_converse (scope : Nat) (d : Expr.Dialogue α) : Strides (converse scope d) := by
  induction d with
  | done a => exact strides_pure a
  | ask name k ih => exact strides_get fun _ => ih _
  | tell path v k ih => exact (strides_write scope path v).bind ih

theorem strides_evaluate (scope : Nat) (source : String) (locals : List (String × Value)) (fresh : Bool) :
    Strides (evaluate scope source locals fresh) := by
  unfold evaluate
  split
  · exact strides_converse _ _
  · refine strides_get fun h => ?_
    dsimp only
    exact strides_beside (fun _ => ⟨rfl, rfl, rfl, rfl, rfl⟩) (strides_converse scope _)

theorem strides_informAll (ns : List NodeId) (os : List (Nat × Observer)) : Strides (informAll ns os) := by
  induction os with
  | nil => exact strides_pure ()
  | cons o rest ih => exact (strides_call (.observe o.2 ns) fun _ => rfl).bind fun _ => ih

theorem aside_removeNode {n : NodeId} {ns : List NodeId} {page : Page Reaction Observer}
    (hp : h.page.removeNode n = .ok (ns, page)) : Aside h { h with page } := by
  unfold Page.removeNode at hp
  cases ht : h.page.tree.removeChild n with
  | error e => rw [ht] at hp; cases hp
  | ok t => rw [ht] at hp; cases hp; exact ⟨rfl, rfl, rfl, rfl, rfl⟩

theorem strides_removeNode (n : NodeId) : Strides (removeNode n) := by
  intro start h tr hu
  unfold removeNode
  rw [meets_bind, meets_get]
  split
  · exact strides_pure _ start h tr hu
  · rename_i ns page hp
    refine meets_bind.mpr (meets_modify.mpr ?_)
    have hu' := hu.edit (Stroke.aside (aside_removeNode hp)).one
    dsimp only
    split
    · exact strides_pure _ _ _ _ hu'
    · exact ((strides_informAll _ _).answers _) _ _ _ hu'

/-! ## Timers -/

theorem strides_runTimers (c limit : Nat) : Strides (runTimers c limit) := by
  induction limit with
  | zero => exact strides_pure 0
  | succ limit ih =>
    intro start h tr hu
    unfold runTimers
    rw [meets_bind, meets_get]
    split
    · exact strides_pure 0 start h tr hu
    · rename_i t k ht
      exact strides_ring hu ht (ih.answers _)

/-! ## Dispatch -/

theorem strides_callListeners (ls : List (Listener Reaction)) (e : Event) : Strides (callListeners e ls) := by
  induction ls generalizing e with
  | nil => exact strides_pure e
  | cons l rest ih =>
    have hcalled : Strides (do
        let e ← call (.listen l { e with passive := l.options.passive })
        let e := { e with passive := false }
        if e.stoppedAtOnce then return e else callListeners e rest) := by
      refine (strides_call (.listen l _) fun _ => rfl).bind fun e' => ?_
      dsimp only
      split
      · exact strides_pure _
      · exact ih _
    refine strides_get fun h => ?_
    split
    · split
      · exact strides_first (fun h => strokes_unlisten h l.id) hcalled
      · exact hcalled
    · exact ih e

theorem strides_makeRounds (e : Event) (rs : List Round) : Strides (makeRounds e rs) := by
  induction rs generalizing e with
  | nil => exact strides_pure e
  | cons r rest ih =>
    refine strides_get fun h => (strides_callListeners _ _).bind fun e' => ?_
    split
    · exact strides_pure e'
    · exact ih e'

theorem strides_deliver (target : Target) (e : Event) : Strides (deliver target e) := by
  refine strides_get fun h => (strides_makeRounds _ _).bind fun e' => ?_
  dsimp only
  split
  · exact strides_pure _
  · exact (strides_makeRounds _ _).answers _

theorem strides_mapElement (n : NodeId) (f : Element → Element) :
    Strides (modify fun h => h.setTree (h.page.tree.mapElement n f)) :=
  strides_modify fun _ => strokes_aside rfl rfl rfl rfl rfl

theorem strides_click (n : NodeId) : Strides (click n) := by
  refine strides_get fun h => ?_
  dsimp only
  generalize ((h.page.tree.element? n).bind fun e => if e.isCheckbox then some e.checked else none) = before
  cases before with
  | none => exact (strides_deliver _ _).bind fun e => strides_pure e
  | some b =>
    refine (strides_mapElement n _).bind fun _ => (strides_deliver _ _).bind fun e => ?_
    dsimp only
    split
    · exact (strides_mapElement n _).answers _
    · exact strides_pure e

theorem strides_input (n : NodeId) (value : String) : Strides (input n value) :=
  (strides_mapElement n _).bind fun _ => strides_deliver _ _

/-! ## Bindings -/

theorem strides_complete (rt id : Nat) (e : Event) : Strides (complete rt id e) := by
  refine strides_get fun h => ?_
  split
  · exact strides_pure e
  · rename_i r b _
    dsimp only
    split
    · exact strides_pure e
    · refine strides_first (fun h => strokes_editRuntime h rt (mild_edit id _)) ?_
      refine (strides_call (.effect rt b e) fun _ => rfl).bind fun res => ?_
      -- The binding may be unbound after it, and its evaluation ends.
      have hover : ∀ e', Strides (do
          if b.plan.isOnce then
            modify fun h => (h.unbind rt id).2
          modify fun h => (h.endEvaluation rt id).endIfIdle rt
          return e' : Proc Event) := by
        intro e'
        have hend : Strides (do
            modify fun h => (h.endEvaluation rt id).endIfIdle rt
            return e' : Proc Event) :=
          strides_first (fun h => (strokes_endEvaluation h rt id).trans (strokes_endIfIdle _ rt)) (strides_pure e')
        split
        · exact strides_first (fun h => strokes_unbind h rt id) hend
        · exact hend
      split
      · exact hover _
      · exact hover e
      · exact strides_get fun _ => (strides_report _ _).bind fun _ => hover e

theorem strides_passGuards (rt : Nat) (b : Bound) (e : Event) (gs : List Directive.Guard) :
    Strides (passGuards rt b e gs) := by
  induction gs generalizing e with
  | nil => exact strides_complete rt b.id e
  | cons g rest ih =>
    cases g with
    | key f =>
      unfold passGuards
      split
      · exact ih e
      · exact strides_pure e
    | stop => exact ih e.stop
    | prevent => exact ih e.prevent
    | outside =>
      refine strides_get fun h => ?_
      split
      · exact ih e
      · exact strides_pure e
    | debounce wait => exact strides_first (fun h => strokes_arm h rt b.id wait e) (strides_pure e)
    | once => exact ih e

theorem strides_fire (rt id : Nat) (e : Event) : Strides (fire rt id e) := by
  refine strides_get fun h => ?_
  split
  · exact strides_pure e
  · split
    · exact strides_pure e
    · exact strides_passGuards _ _ _ _

theorem strides_callEntries (k : Nat) (e : Event) (ws : List (Entry Waiter)) : Strides (callEntries k e ws) := by
  induction ws generalizing e with
  | nil => exact strides_pure e
  | cons w rest ih =>
    refine strides_get fun h => ?_
    split
    · exact (strides_call (.outside w e) fun _ => rfl).bind ih
    · exact ih e

/-! ## Actions -/

theorem strides_edit (f : Tree → Except TreeError Tree) : Strides (edit f) := by
  refine strides_get fun h => ?_
  split
  · exact strides_pure _
  · exact strides_beside (fun _ => ⟨rfl, rfl, rfl, rfl, rfl⟩) (strides_pure _)

theorem strides_create (f : Tree → NodeId × Tree) : Strides (create f) :=
  strides_get fun _ => strides_beside (fun _ => ⟨rfl, rfl, rfl, rfl, rfl⟩) (strides_pure _)

theorem strides_eventOf (s : Source) : Strides (eventOf s) := by
  cases s with
  | event e => exact strides_pure _
  | last => exact strides_get fun _ => strides_pure _

theorem strides_back (e : Event) : Strides (back e) :=
  strides_beside (fun _ => ⟨rfl, rfl, rfl, rfl, rfl⟩) (strides_pure _)

theorem strides_attempt {f : Host → Except Directive.Error (Nat × Host)}
    (hf : ∀ {h id h'}, f h = .ok (id, h') → Strokes h h') : Strides (attempt f) := by
  intro start h tr hu
  unfold attempt
  rw [meets_bind, meets_get]
  split
  · exact strides_pure _ start h tr hu
  · rename_i id h' e
    exact hu.edit (hf e)

theorem strides_perform (a : Action) : Strides (perform a) := by
  cases a with
  -- the tree
  | createElement tag => exact (strides_create _).answers _
  | createText s => exact (strides_create _).answers _
  | makeComment n s => exact strides_changed fun _ => ⟨rfl, rfl, rfl, rfl, rfl⟩
  | appendElement parent tag =>
    refine strides_changed fun h => ?_
    split <;> exact ⟨rfl, rfl, rfl, rfl, rfl⟩
  | appendChild parent child => exact strides_edit (·.appendChild parent child)
  | removeNode n => exact strides_removeNode n
  | detachNode n => exact strides_edit (·.removeChild n)
  | setAttr n name value => exact strides_edit (·.editElement n (·.setAttr name value))
  | removeAttr n name =>
    refine strides_get fun h => ?_
    split
    · exact strides_pure _
    · exact strides_beside (fun _ => ⟨rfl, rfl, rfl, rfl, rfl⟩) (strides_pure _)
  | addClass n c => exact strides_edit (·.editElement n (·.addClass c))
  | removeClass n c => exact strides_edit (·.editElement n (·.removeClass c))
  | setSize n width height => exact strides_edit (·.editElement n (·.setSize width height))
  | setBox n width height => exact strides_changed fun _ => ⟨rfl, rfl, rfl, rfl, rfl⟩
  | setText n s => exact strides_edit (·.setText n s)
  -- listeners and dispatch
  | listen t event o s => exact strides_changed fun _ => ⟨rfl, rfl, rfl, rfl, rfl⟩
  | unlisten id => exact strides_changed fun _ => ⟨rfl, rfl, rfl, rfl, rfl⟩
  | observe s => exact strides_change fun h => (Stroke.observe h s).one
  | disconnect o =>
    refine strides_change fun h => ?_
    split
    · exact .rfl h
    · rename_i id hid
      exact (Stroke.disconnect (List.mem_of_getElem? hid)).one
  | dispatch t s =>
    refine (strides_eventOf s).bind fun e => ?_
    split
    · exact strides_pure _
    · exact (strides_deliver _ _).bind fun e => strides_back e
  | click n => exact (strides_click n).bind fun e => strides_back e
  | keyDown n k => exact (strides_deliver _ _).bind fun e => strides_back e
  | keyUp n k => exact (strides_deliver _ _).bind fun e => strides_back e
  | input n v => exact (strides_input n v).bind fun e => strides_back e
  -- scopes
  | newScope v => exact strides_changed fun _ => ⟨rfl, rfl, rfl, rfl, rfl⟩
  | set i name v => exact (strides_write i [name] v).bind fun _ => strides_answer _
  | setPath i path v =>
    refine (strides_write i path v).bind fun r => ?_
    split
    · exact strides_pure _
    · exact strides_answer _
  | subscribe i path s => exact strides_changed fun _ => ⟨rfl, rfl, rfl, rfl, rfl⟩
  | unsubscribe sub =>
    refine strides_changed fun h => ?_
    split <;> exact ⟨rfl, rfl, rfl, rfl, rfl⟩
  | eval i source locals fresh => exact (strides_evaluate i source locals fresh).answers _
  | compile source => exact strides_changed fun _ => ⟨rfl, rfl, rfl, rfl, rfl⟩
  -- timers and debouncers
  | timeout c delay s => exact strides_change fun h => (Stroke.start h _ delay _).one
  | clear c id => exact strides_change fun h => (Stroke.cancel h _ id).one
  | advance c delta => exact strides_get fun h => (strides_call (.advance _ _) fun _ => rfl).answers _
  | advanceTo c instant => exact strides_get fun h => (strides_call (.advance _ _) fun _ => rfl).answers _
  | runUntilIdle c limit => exact strides_get fun h => (strides_runTimers _ limit).answers _
  | newDebouncer wait => exact strides_changed fun _ => ⟨rfl, rfl, rfl, rfl, rfl⟩
  | schedule d source s =>
    refine (strides_eventOf source).bind fun e => ?_
    split
    · exact strides_pure _
    · exact strides_first (fun h => strokes_schedule h d _ s) (strides_answer _)
  | cancelDebouncer d => exact strides_change fun h => strokes_cancelDebouncer h d
  | dropDebouncer d => exact strides_first (fun h => strokes_settleEdited h d _) (strides_answer _)
  -- runtimes
  | newRuntime s =>
    unfold perform
    dsimp only
    split
    · exact strides_pure _
    · exact strides_change fun h => strokes_addRuntime h _ s
  | dropRuntime rt => exact strides_first (fun h => strokes_release h rt) (strides_answer _)
  | bind rt n attr expression scope => exact strides_attempt strokes_bindAttr
  | bindDirective rt n d scope => exact strides_attempt strokes_bind
  | bindAttributes rt n scope =>
    refine strides_change fun h => ?_
    have hs := strokes_bindAttrs h rt n scope
    split <;> rename_i e <;> rw [e] at hs <;> exact hs
  | unbind rt id => exact strides_change fun h => strokes_unbind h rt id
  | unbindElement rt n => exact strides_change fun h => strokes_unbindAll h rt _
  | onError rt s => exact strides_first (fun h => strokes_editRuntime h rt fun _ => ⟨rfl, Iff.rfl⟩) (strides_pure _)
  | resetOutside rt => exact strides_first (fun h => strokes_resetOutside h rt) (strides_answer _)
  -- outside trackers
  | newTracker => exact strides_changed fun _ => ⟨rfl, rfl, rfl, rfl, rfl⟩
  | registerOutside t id n event s =>
    refine strides_get fun h => ?_
    split
    · exact strides_first (fun h => strokes_register h _ _) (strides_answer _)
    · exact strides_answer _
  | unregisterOutside t id =>
    refine strides_changed fun h => ?_
    split <;> exact ⟨rfl, rfl, rfl, rfl, rfl⟩
  | resetTracker t =>
    refine strides_get fun h => ?_
    split
    · exact strides_first (fun h => strokes_resetTracker h _) (strides_answer _)
    · exact strides_answer _
  -- the others look, or do nothing
  | stop | stopAtOnce | prevent | event | eventValue => exact strides_pure _
  | _ => exact strides_answer _

/-! ## Tasks -/

/-- What an advance does. It is set apart, for it moves its clock at the end. -/
theorem chained_advance {c instant : Nat} (hc : Chained start (.begins (.advance c instant) h :: tr)) :
    (Task.advance c instant).body.Meets (striding start) h (.begins (.advance c instant) h :: tr) fun n h' tr' =>
      Chained start (.ends (.advance c instant) n h' :: tr') := by
  unfold Task.body
  rw [meets_bind, meets_get]
  split
  · rename_i hnone
    exact ⟨.pass rfl hnone, hc⟩
  · rename_i t k hsome
    have hrest : Strides (do return (← call (.advance c instant)) + 1 : Proc Nat) :=
      (strides_call (.advance c instant) fun _ => rfl).answers _
    refine (strides_ring ⟨hc, .rfl h⟩ (Clock.takeDue?_eq_some.mp hsome).1 hrest).mono fun n h' tr' hu => ?_
    exact ⟨.strokes hu.strokes rfl, hu.chained⟩

theorem strides_body (t : Task κ) (ht : ∀ h, (Moment.begins t h).isAdvance = false) : Strides t.body := by
  cases t with
  | listen l e =>
    unfold Task.body
    dsimp only
    split
    · exact strides_note _ (strides_runWithEvent _ e)
    · exact strides_fire _ _ e
    · refine strides_beside (fun _ => ⟨rfl, rfl, rfl, rfl, rfl⟩) (strides_get fun h => ?_)
      exact (strides_callEntries _ e _).bind fun e' =>
        strides_beside (fun _ => ⟨rfl, rfl, rfl, rfl, rfl⟩) (strides_pure e')
  | outside w e =>
    unfold Task.body
    dsimp only
    split
    · exact strides_note _ (strides_runWithEvent _ e)
    · exact strides_fire _ _ e
  | effect rt b e =>
    refine strides_get fun h => ?_
    split
    · exact strides_pure _
    · split
      · exact strides_note _ (strides_converse _ _)
      · exact strides_first (fun h => strokes_editRuntime h rt fun _ => ⟨rfl, Iff.rfl⟩) (strides_converse _ _)
  | watch w c =>
    unfold Task.body
    dsimp only
    split
    · exact strides_note _ (strides_runScript _)
    · exact strides_pure _
  | observe o ns =>
    cases o with
    | script s => exact strides_note _ (strides_runScript s)
    | runtime rt =>
      refine strides_get fun h => ?_
      split
      · exact strides_modify fun h => strokes_unbindAll h rt _
      · exact strides_pure _
  | hook s f => exact strides_note _ (strides_runScript s)
  | ring c t =>
    unfold Task.body
    dsimp only
    split
    · exact strides_beside (fun _ => ⟨rfl, rfl, rfl, rfl, rfl⟩) (strides_runScript _)
    · refine strides_first (fun h => strokes_editDebouncer h _ _) (strides_note _ ?_)
      exact (strides_runWithEvent _ _).bind fun _ => strides_modify fun h => strokes_settleEdited h _ _
    · exact strides_first (fun h => strokes_editRuntime h _ (mild_edit _ _)) ((strides_complete _ _ _).answers _)
  | advance c instant => exact fun _ h => absurd (ht h) (by simp [Moment.isAdvance])
  | act a => exact strides_perform a

theorem striding_holds (start : Host) : (striding start).Holds := by
  intro κ t h tr hc _
  cases ht : (Moment.begins t h).isAdvance with
  | false =>
    have hbody := strides_body t fun h' => by cases t <;> first | rfl | exact ht
    exact (hbody start h _ ⟨hc, .rfl h⟩).mono fun r h' tr' hu => ⟨tr', rfl, .strokes hu.strokes rfl, hu.chained⟩
  | true =>
    cases t with
    | advance c instant => exact (chained_advance hc).mono fun r h' tr' hc' => ⟨tr', rfl, hc'⟩
    | _ => cases ht

/-! ## Sessions -/

theorem Under.begins (hu : Under start h tr) (a : Action) : (striding start).pre (.act a) { h with log := [] } tr := by
  have hs : Strokes h { h with log := [] } := strokes_aside rfl rfl rfl rfl rfl
  exact ⟨.strokes (hu.edit hs).strokes rfl, hu.chained⟩

/-- The moments of a session are chained from the host that it starts in. -/
theorem session_chained (depth : Nat) (as : List Action) (start : Host) : Chained start (play depth as start []).2 :=
  play_kept (striding_holds start) (Under start) Under.begins (fun hp _ => under_of_post hp) depth as start [] trivial
    ⟨trivial, .rfl start⟩ fun _ _ => trivial

/-- What strokes, rings and passing time keep holds after a session that comes back. -/
theorem session_lasts {I : Host → Prop} {depth : Nat} {as : List Action} (hk : ∀ tr, Lasts I tr) (hi : I start)
    (e : (play depth as start []).1 = some h) : I h := by
  have hu : Under start h (play depth as start []).2 :=
    play_ready (striding_holds start) (Under start) Under.begins (fun _ hp _ => under_of_post hp) depth as start []
      ⟨trivial, .rfl start⟩ (fun _ _ => trivial) e
  exact (hk []).strokes hu.strokes (hu.chained.reached (hk _) hi)

end Eventful.Host
