import Eventful.Proofs.Host.Contract
import Eventful.Proofs.Host.Tidy

/-
  Eventful.Proofs.Host.Tending — what callbacks do to the page and to their event.

  Tasks edit the page as the host does, so it stays in order; and what they are given of an
  event they only stop or prevent (`Event.Handled`). A listener that is called stood just
  before, and a `once` listener is gone when it is called (`Called`). This holds whatever
  the tasks do otherwise: the contract (`tending`) asks nothing of a run.

  - `session_tended`: so it is at every moment of a session.
  - `session_reached`: the tree is one that edits come to.
  - `session_wellLinked`: in particular the links of the tree fit together.
-/

namespace Eventful.Page

/-- What callbacks can make of an event. -/
inductive Event.Handled (e : Event) : Event → Prop
  | untouched : Event.Handled e e
  | stop {e' : Event} : Event.Handled e e' → Event.Handled e e'.stop
  | stopAtOnce {e' : Event} : Event.Handled e e' → Event.Handled e e'.stopAtOnce
  | prevent {e' : Event} : Event.Handled e e' → Event.Handled e e'.prevent

theorem Event.Handled.trans {e e' e'' : Event} (h : e.Handled e') (h' : e'.Handled e'') : e.Handled e'' := by
  induction h' with
  | untouched => exact h
  | stop _ ih => exact ih.stop
  | stopAtOnce _ ih => exact ih.stopAtOnce
  | prevent _ ih => exact ih.prevent

/-- Handling does not change what an event is, nor where it started. -/
theorem Event.Handled.same {e e' : Event} (h : e.Handled e') :
    e'.name = e.name ∧ e'.target = e.target ∧ e'.passive = e.passive := by
  induction h with
  | untouched => exact ⟨rfl, rfl, rfl⟩
  | stop _ ih => exact ih
  | stopAtOnce _ ih => exact ih
  | @prevent e' _ ih =>
    unfold Event.prevent
    split
    · exact ih
    · exact ih

end Eventful.Page

namespace Eventful.Host

open Page Binding

variable {α β : Type} {κ : Kind} {h h' : Host} {tr : History} {rt : Nat}

theorem tidy_arm (h : Host) (rt id wait : Nat) (e : Event) : Tidy h (h.arm rt id wait e) := by
  unfold arm
  split
  · exact .rfl h
  · exact (tidy_cancelWaiting _ _ _).trans (tidy_frame rfl rfl)

/-! ## The contract -/

/-- The host in which a listener is called when its turn comes: a `once` listener is removed
    first. -/
def turn (h : Host) (l : Listener Reaction) : Host := if l.options.once then (h.unlisten l.id).2 else h

/-- A listener is called whose turn has come: it stood then, where listeners were later ones
    than any before. -/
structure Called (l : Listener Reaction) (h : Host) (tr : History) (h₀ : Host) (t : Target) : Prop where
  stands : h₀.page.listeners.Stands t l
  sound : h₀.page.listeners.Sound
  host : h = h₀.turn l
  later : ∀ m ∈ tr, ListenersLater m.host.page.listeners h₀.page.listeners

/-- What is known when a task begins, beside the page. -/
def Task.Due : {κ : Kind} → Task κ → Host → History → Prop
  | _, .listen l _, h, tr => ∃ h₀ t, Called l h tr h₀ t
  | _, _, _, _ => True

/-- An event that a task was given comes back handled. -/
def Task.Hands : {κ : Kind} → Task κ → κ.Carrier → Prop
  | _, .listen _ e, e' => e.Handled e'
  | _, .outside _ e, e' => e.Handled e'
  | _, _, _ => True

def Moment.Fine : Moment → History → Prop
  | .begins t h, tr => t.Due h tr
  | .ends t r _, _ => t.Hands r

/-- The page is in order, and its listeners are later ones than any before. -/
structure Kempt (h : Host) (tr : History) : Prop where
  tree : h.page.tree.Reached
  listeners : h.page.listeners.Sound
  later : ∀ m ∈ tr, ListenersLater m.host.page.listeners h.page.listeners

/-- So it is at all moments. -/
def Tended : History → Prop
  | [] => True
  | m :: tr => m.Fine tr ∧ Kempt m.host tr ∧ Tended tr

/-- What is known between two calls. -/
structure Tending (h : Host) (tr : History) : Prop extends Kempt h tr where
  tended : Tended tr

def tending : Contract where
  fair _ := True
  pre t h tr := Tending h tr ∧ t.Due h tr
  post t _ _ r h' tr' := ∃ tr'', tr' = .ends t r h' :: tr'' ∧ t.Hands r ∧ Tending h' tr''
  kept := Tended
  kept_begins hp := ⟨hp.2, hp.1.toKempt, hp.1.tended⟩
  kept_ends hp _ := by
    obtain ⟨tr'', rfl, hr, ht⟩ := hp
    exact ⟨hr, ht.toKempt, ht.tended⟩

/-! ## Procedures that tend the page -/

variable {Q : α → Prop} {R : β → Prop} {e : Event}

theorem Kempt.edit (hk : Kempt h tr) (ht : Tidy h h') : Kempt h' tr where
  tree := ht.tree hk.tree
  listeners := ht.listeners hk.listeners
  later m hm := (hk.later m hm).trans (ht.later hk.listeners)

theorem Kempt.cons {m : Moment} (hk : Kempt m.host tr) : Kempt m.host (m :: tr) :=
  ⟨hk.tree, hk.listeners, List.forall_mem_cons.mpr ⟨.rfl _, hk.later⟩⟩

theorem Tending.edit (ht : Tending h tr) (he : Tidy h h') : Tending h' tr := ⟨ht.toKempt.edit he, ht.tended⟩

theorem Tending.begins {t : Task κ} (ht : Tending h tr) (hd : t.Due h tr) : Tending h (.begins t h :: tr) :=
  ⟨Kempt.cons (m := .begins t h) ht.toKempt, hd, ht.toKempt, ht.tended⟩

theorem Tending.ends {t : Task κ} {r : κ.Carrier} (ht : Tending h tr) (hr : t.Hands r) :
    Tending h (.ends t r h :: tr) :=
  ⟨Kempt.cons (m := .ends t r h) ht.toKempt, hr, ht.toKempt, ht.tended⟩

/-- From here the procedure tends the page and comes back as `Q` says. -/
def TendsFrom (h : Host) (tr : History) (p : Proc α) (Q : α → Prop) : Prop :=
  p.Meets tending h tr fun a h' tr' => Q a ∧ Tending h' tr' ∧ ListenersLater h.page.listeners h'.page.listeners

def Tends (p : Proc α) (Q : α → Prop) : Prop := ∀ h tr, Tending h tr → TendsFrom h tr p Q

theorem tends_pure {a : α} (ha : Q a) : Tends (pure a : Proc α) Q := fun _ _ ht => ⟨ha, ht, .rfl _⟩

theorem TendsFrom.bind {p : Proc α} {f : α → Proc β} (hp : TendsFrom h tr p Q)
    (hf : ∀ a h' tr', Q a → Tending h' tr' → ListenersLater h.page.listeners h'.page.listeners →
      TendsFrom h' tr' (f a) R) : TendsFrom h tr (p >>= f) R :=
  meets_bind.mpr <| hp.mono fun a h' tr' ⟨ha, ht, hl⟩ =>
    (hf a h' tr' ha ht hl).mono fun _ _ _ ⟨hb, ht', hl'⟩ => ⟨hb, ht', hl.trans hl'⟩

theorem Tends.bind {p : Proc α} {f : α → Proc β} (hp : Tends p Q) (hf : ∀ a, Q a → Tends (f a) R) :
    Tends (p >>= f) R :=
  fun h tr ht => (hp h tr ht).bind fun a h' tr' ha ht' _ => hf a ha h' tr' ht'

theorem Tends.mono {Q' : α → Prop} {p : Proc α} (hp : Tends p Q) (hQ : ∀ a, Q a → Q' a) : Tends p Q' :=
  fun h tr ht => (hp h tr ht).mono fun a _ _ ha => ⟨hQ a ha.1, ha.2⟩

theorem tends_get {f : Host → Proc β} (hf : ∀ h, h.page.tree.Reached → Tends (f h) R) : Tends (get >>= f) R :=
  fun h tr ht => hf h ht.tree h tr ht

theorem tends_modify {f : Host → Host} (hf : ∀ h, Tidy h (f h)) : Tends (modify f : Proc PUnit) fun _ => True :=
  fun h _ ht => ⟨trivial, ht.edit (hf h), (hf h).later ht.listeners⟩

theorem tends_change {f : Host → α × Host} (hf : ∀ h, Tidy h (f h).2) : Tends (change f) fun _ => True :=
  fun h _ ht => ⟨trivial, ht.edit (hf h), (hf h).later ht.listeners⟩

theorem tends_answer (f : Host → Answer) : Tends (answer f) fun _ => True := fun _ _ ht => ⟨trivial, ht, .rfl _⟩

/-- A call of a task that is due. -/
theorem tendsFrom_call {t : Task κ} (ht : Tending h tr) (hd : t.Due h tr) : TendsFrom h tr (call t) t.Hands := by
  refine meets_call.mpr ⟨⟨ht, hd⟩, fun r h' tr' hp hcl _ => ?_⟩
  obtain ⟨tr'', rfl, hr, ht'⟩ := hp
  obtain ⟨inner, -, e⟩ := hcl
  refine ⟨hr, ht'.ends hr, ht'.later (.begins t h) ?_⟩
  rw [(List.cons.inj e).2]
  exact List.mem_append_right _ List.mem_cons_self

theorem tends_call (t : Task κ) (hd : ∀ h tr, t.Due h tr) : Tends (call t) t.Hands :=
  fun h tr ht => tendsFrom_call ht (hd h tr)

theorem tends_act (a : Action) : Tends (call (.act a)) fun _ => True := tends_call (.act a) fun _ _ => trivial

theorem tends_ring (c : Nat) (t : Timer Alarm) : Tends (call (.ring c t)) fun _ => True :=
  tends_call (.ring c t) fun _ _ => trivial

theorem tends_advance (c instant : Nat) : Tends (call (.advance c instant)) fun _ => True :=
  tends_call (.advance c instant) fun _ _ => trivial

/-- What is tended is followed by an answer. -/
theorem Tends.answers {p : Proc α} (hp : Tends p Q) (f : α → β) : Tends (p >>= fun a => pure (f a)) fun _ => True :=
  hp.bind fun _ _ => tends_pure trivial

/-- A tidy edit comes first. -/
theorem tends_first {f : Host → Host} {k : PUnit → Proc β} (hf : ∀ h, Tidy h (f h)) (hk : Tends (k ()) R) :
    Tends (modify f >>= k) R := (tends_modify hf).bind fun _ _ => hk

theorem tends_note (n : Note) : Tends (modify (·.note n)) fun _ => True := tends_modify fun _ => tidy_frame rfl rfl

/-! ## Scripts -/

theorem handled_onEvent {e e' : Event} {a : Action} {r : Answer} (h : onEvent? e a = some (e', r)) : e.Handled e' := by
  cases a with
  | stop => cases h; exact .stop .untouched
  | stopAtOnce => cases h; exact .stopAtOnce .untouched
  | prevent => cases h; exact .prevent .untouched
  | event => cases h; exact .untouched
  | eventValue => cases h; exact .untouched
  | _ => cases h

/-- The event of a script, if it has one, is handled. -/
def HandsBack (e : Option Event) (e' : Option Event) : Prop := ∀ e₀, e = some e₀ → ∃ e₁, e' = some e₁ ∧ e₀.Handled e₁

theorem tends_runActions (e : Option Event) (as : List Action) : Tends (runActions e as) (HandsBack e) := by
  induction as generalizing e with
  | nil => exact tends_pure fun e₀ he => ⟨e₀, he, .untouched⟩
  | cons a rest ih =>
    have hrest : ∀ p : Option Event × Answer, HandsBack e p.1 → Tends (do
        modify (·.note (.did a p.2))
        runActions p.1 rest) (HandsBack e) := fun p hp =>
      (tends_note _).bind fun _ _ => (ih p.1).mono fun e' he' e₀ he₀ => by
        obtain ⟨e₁, he₁, hh⟩ := hp e₀ he₀
        obtain ⟨e₂, he₂, hh'⟩ := he' e₁ he₁
        exact ⟨e₂, he₂, hh.trans hh'⟩
    unfold runActions
    dsimp only
    split
    · rename_i e₁ r hon
      refine hrest (some e₁, r) fun e₀ he₀ => ⟨e₁, rfl, ?_⟩
      subst he₀
      exact handled_onEvent hon
    · exact (tends_act a).bind fun r _ => hrest (e, r) fun e₀ he₀ => ⟨e₀, he₀, .untouched⟩

theorem tends_runScript (s : Script) : Tends (runScript s) fun _ => True :=
  (tends_runActions none s.actions).answers _

theorem tends_runWithEvent (s : Script) (e : Event) : Tends (runWithEvent s e) e.Handled :=
  (tends_runActions (some e) s.actions).bind fun e' he' => tends_pure <| by
    obtain ⟨e₁, rfl, hh⟩ := he' e rfl
    exact hh

theorem tends_report (f : Failure) (ss : List Script) : Tends (report f ss) fun _ => True := by
  induction ss with
  | nil => exact tends_pure trivial
  | cons s rest ih => exact (tends_call (.hook s f) fun _ _ => trivial).bind fun _ _ => ih

/-! ## Scopes and removals -/

theorem tends_tellAll (c : Change) (ws : List (Nat × Watcher)) : Tends (tellAll c ws) fun _ => True := by
  induction ws with
  | nil => exact tends_pure trivial
  | cons w rest ih => exact (tends_call (.watch w.2 c) fun _ _ => trivial).bind fun _ _ => ih

theorem tends_write (scope : Nat) (path : List String) (v : Value) : Tends (write scope path v) fun _ => True := by
  refine tends_get fun h _ => ?_
  split
  · exact tends_pure trivial
  · refine tends_first (fun _ => tidy_frame rfl rfl) <| ?_
    dsimp only
    split
    · exact (tends_tellAll _ _).answers _
    · exact tends_pure trivial

theorem tends_converse (scope : Nat) (d : Expr.Dialogue α) : Tends (converse scope d) fun _ => True := by
  induction d with
  | done a => exact tends_pure trivial
  | ask name k ih => exact tends_get fun _ _ => ih _
  | tell path v k ih => exact (tends_write scope path v).bind fun r _ => ih r

theorem tends_evaluate (scope : Nat) (source : String) (locals : List (String × Value)) (fresh : Bool) :
    Tends (evaluate scope source locals fresh) fun _ => True := by
  unfold evaluate
  split
  · exact tends_converse _ _
  · refine tends_get fun h _ => ?_
    dsimp only
    exact tends_first (fun _ => tidy_frame rfl rfl) <| tends_converse scope _

theorem tends_informAll (ns : List NodeId) (os : List (Nat × Observer)) : Tends (informAll ns os) fun _ => True := by
  induction os with
  | nil => exact tends_pure trivial
  | cons o rest ih => exact (tends_call (.observe o.2 ns) fun _ _ => trivial).bind fun _ _ => ih

/-- A page from which a node was removed. -/
theorem tidy_removeNode {n : NodeId} {ns : List NodeId} {page : Page Reaction Observer}
    (hp : h.page.removeNode n = .ok (ns, page)) : Tidy h { h with page } := by
  have hl : page.listeners = h.page.listeners := by
    unfold Page.removeNode at hp
    cases ht : h.page.tree.removeChild n with
    | error e => rw [ht] at hp; cases hp
    | ok t => rw [ht] at hp; cases hp; rfl
  exact ⟨fun ht => ht.removeChild (removeNode_tree hp), fun hs => hl ▸ hs, fun _ => hl ▸ .rfl _⟩

theorem tends_removeNode (n : NodeId) : Tends (removeNode n) fun _ => True := by
  intro h tr ht
  unfold removeNode TendsFrom
  rw [meets_bind, meets_get]
  split
  · exact tends_pure trivial h tr ht
  · rename_i ns page hp
    have hpage := tidy_removeNode hp
    refine TendsFrom.bind (Q := fun _ => True) ⟨trivial, ht.edit hpage, hpage.later ht.listeners⟩ fun _ h' tr' _ ht' _ => ?_
    dsimp only
    split
    · exact tends_pure trivial h' tr' ht'
    · exact ((tends_informAll _ _).answers _) h' tr' ht'

/-! ## Timers -/

theorem tends_runTimers (c limit : Nat) : Tends (runTimers c limit) fun _ => True := by
  induction limit with
  | zero => exact tends_pure trivial
  | succ limit ih =>
    refine tends_get fun h _ => ?_
    split
    · exact tends_pure trivial
    · rename_i t k _
      exact tends_first (fun _ => tidy_frame rfl rfl) <| (tends_ring c t).bind fun _ _ => ih.answers _

/-! ## Dispatch -/

/-- The turn of a listener comes. -/
theorem called_of_stands {l : Listener Reaction} {t : Target} (ht : Tending h tr) (hl : h.page.listeners.Stands t l) :
    Called l (h.turn l) tr h t :=
  ⟨hl, ht.listeners, rfl, ht.later⟩

theorem tendsFrom_callListeners (ls : List (Listener Reaction)) (e : Event) (ht : Tending h tr)
    (hk : ∀ l ∈ ls, Known l h.page.listeners) : TendsFrom h tr (callListeners e ls) fun _ => True := by
  induction ls generalizing e h tr with
  | nil => exact tends_pure trivial h tr ht
  | cons l rest ih =>
    have hrest : ∀ e {h' tr'}, Tending h' tr' → ListenersLater h.page.listeners h'.page.listeners →
        TendsFrom h' tr' (callListeners e rest) fun _ => True :=
      fun e _ _ ht' hl => ih e ht' fun l' hl' => (hk l' (List.mem_cons_of_mem _ hl')).later hl
    -- After the call the round goes on, unless the event was stopped at once.
    have hcalled : ∀ {h₁}, Tending h₁ tr → ListenersLater h.page.listeners h₁.page.listeners →
        (∃ h₀ t, Called l h₁ tr h₀ t) → TendsFrom h₁ tr (do
          let e ← call (.listen l { e with passive := l.options.passive })
          let e := { e with passive := false }
          if e.stoppedAtOnce then return e else callListeners e rest) fun _ => True := by
      intro h₁ ht₁ hl₁ hc
      refine (tendsFrom_call (t := .listen l { e with passive := l.options.passive }) ht₁ hc).bind fun e' h₂ tr₂ _ ht₂ hl₂ => ?_
      dsimp only
      split
      · exact tends_pure trivial h₂ tr₂ ht₂
      · exact hrest _ ht₂ (hl₁.trans hl₂)
    show TendsFrom h tr (if h.page.listeners.contains l.id then _ else _) _
    split
    · rename_i hc
      obtain ⟨t, l', hl, e'⟩ := (Listeners.contains_iff ht.listeners).mp hc
      cases (hk l List.mem_cons_self).unique hl e'
      have hdue := called_of_stands ht hl
      split
      · rename_i honce
        have htidy := tidy_unlisten h l.id
        have hlater := htidy.later ht.listeners
        rw [turn, if_pos honce] at hdue
        refine meets_bind.mpr (meets_modify.mpr ?_)
        refine (hcalled (ht.edit htidy) hlater ⟨h, t, hdue⟩).mono fun _ _ _ ⟨hq, ht', hl'⟩ => ?_
        exact ⟨hq, ht', hlater.trans hl'⟩
      · rename_i honce
        rw [turn, if_neg honce] at hdue
        exact hcalled ht (.rfl _) ⟨h, t, hdue⟩
    · exact hrest e ht (.rfl _)

theorem tends_makeRounds (e : Event) (rs : List Round) : Tends (makeRounds e rs) fun _ => True := by
  induction rs generalizing e with
  | nil => exact tends_pure trivial
  | cons r rest ih =>
    intro h tr ht
    refine TendsFrom.bind (p := callListeners _ _) (tendsFrom_callListeners _ _ ht fun l hl => ?_)
      fun e' h' tr' _ ht' _ => ?_
    · exact known_of_stands ht.listeners (List.mem_filter.mp hl).1
    · split
      · exact tends_pure trivial h' tr' ht'
      · exact ih e' h' tr' ht'

theorem tends_deliver (target : Target) (e : Event) : Tends (deliver target e) fun _ => True := by
  refine tends_get fun h _ => (tends_makeRounds _ _).bind fun e' _ => ?_
  dsimp only
  split
  · exact tends_pure trivial
  · exact (tends_makeRounds _ _).answers _

theorem tends_mapElement (n : NodeId) (ed : Element.Edit) :
    Tends (modify fun h => h.setTree (h.page.tree.mapElement n ed.on)) fun _ => True :=
  tends_modify fun _ => tidy_setTree fun hr => hr.mapElement n ed

theorem tends_click (n : NodeId) : Tends (click n) fun _ => True := by
  refine tends_get fun h _ => ?_
  dsimp only
  generalize ((h.page.tree.element? n).bind fun e => if e.isCheckbox then some e.checked else none) = before
  cases before with
  | none => exact (tends_deliver _ _).bind fun e _ => tends_pure trivial
  | some b =>
    refine (tends_mapElement n (.check !b)).bind fun _ _ => (tends_deliver _ _).bind fun e _ => ?_
    dsimp only
    split
    · exact (tends_mapElement n (.check b)).answers _
    · exact tends_pure trivial

theorem tends_input (n : NodeId) (value : String) : Tends (input n value) fun _ => True :=
  (tends_mapElement n (.enter value)).bind fun _ _ => tends_deliver _ _

/-! ## Bindings -/

theorem tends_complete (rt id : Nat) (e : Event) : Tends (complete rt id e) e.Handled := by
  refine tends_get fun h _ => ?_
  split
  · exact tends_pure .untouched
  · rename_i r b _
    dsimp only
    split
    · exact tends_pure .untouched
    · refine tends_first (fun _ => tidy_frame rfl rfl) <| (tends_call (.effect rt b e) fun _ _ => trivial).bind fun res _ => ?_
      -- The binding may be unbound after it, and its evaluation ends.
      have hover : ∀ e', e.Handled e' → Tends (do
          if b.plan.isOnce then
            modify fun h => (h.unbind rt id).2
          modify fun h => (h.endEvaluation rt id).endIfIdle rt
          return e' : Proc Event) e.Handled := by
        intro e' he'
        have hend : Tends (do
            modify fun h => (h.endEvaluation rt id).endIfIdle rt
            return e' : Proc Event) e.Handled :=
          tends_first (fun h => (tidy_endEvaluation h rt id).trans (tidy_endIfIdle _ rt)) <| tends_pure he'
        split
        · exact tends_first (fun h => tidy_unbind h rt id) <| hend
        · exact hend
      split
      · exact hover _ (.prevent .untouched)
      · exact hover e .untouched
      · exact tends_get fun _ _ => (tends_report _ _).bind fun _ _ => hover e .untouched

theorem tends_passGuards (rt : Nat) (b : Bound) (e : Event) (gs : List Directive.Guard) :
    Tends (passGuards rt b e gs) e.Handled := by
  induction gs generalizing e with
  | nil => exact tends_complete rt b.id e
  | cons g rest ih =>
    cases g with
    | key f =>
      unfold passGuards
      split
      · exact ih e
      · exact tends_pure .untouched
    | stop => exact (ih e.stop).mono fun _ he => (Event.Handled.untouched.stop).trans he
    | prevent => exact (ih e.prevent).mono fun _ he => (Event.Handled.untouched.prevent).trans he
    | outside =>
      refine tends_get fun h _ => ?_
      split
      · exact ih e
      · exact tends_pure .untouched
    | debounce wait =>
      exact tends_first (fun h => tidy_arm h rt b.id wait e) <| tends_pure .untouched
    | once => exact ih e

theorem tends_fire (rt id : Nat) (e : Event) : Tends (fire rt id e) e.Handled := by
  refine tends_get fun h _ => ?_
  split
  · exact tends_pure .untouched
  · split
    · exact tends_pure .untouched
    · exact tends_passGuards _ _ _ _

theorem tends_callEntries (k : Nat) (e : Event) (ws : List (Entry Waiter)) : Tends (callEntries k e ws) e.Handled := by
  induction ws generalizing e with
  | nil => exact tends_pure .untouched
  | cons w rest ih =>
    refine tends_get fun h _ => ?_
    split
    · exact (tends_call (.outside w e) fun _ _ => trivial).bind fun e' he' => (ih e').mono fun _ he => Event.Handled.trans he' he
    · exact ih e

/-! ## Actions -/

theorem tends_edit {f : Tree → Except TreeError Tree} (hf : ∀ {t t'}, t.Reached → f t = .ok t' → t'.Reached) :
    Tends (edit f) fun _ => True := by
  refine tends_get fun h hr => ?_
  split
  · exact tends_pure trivial
  · rename_i t ht
    exact (tends_modify fun _ => tidy_setTree fun _ => hf hr ht).answers _

theorem tends_create {f : Tree → NodeId × Tree} (hf : ∀ {t}, t.Reached → (f t).2.Reached) :
    Tends (create f) fun _ => True :=
  tends_get fun _ hr => (tends_modify fun _ => tidy_setTree fun _ => hf hr).bind fun _ _ => tends_pure trivial

theorem tends_eventOf (s : Source) : Tends (eventOf s) fun _ => True := by
  cases s with
  | event e => exact tends_pure trivial
  | last => exact tends_get fun _ _ => tends_pure trivial

theorem tends_back (e : Event) : Tends (back e) fun _ => True := tends_first (fun _ => tidy_frame rfl rfl) (tends_pure trivial)

theorem tends_attempt {f : Host → Except Directive.Error (Nat × Host)}
    (hf : ∀ {h id h'}, f h = .ok (id, h') → Tidy h h') : Tends (attempt f) fun _ => True := by
  intro h tr ht
  unfold attempt TendsFrom
  rw [meets_bind, meets_get]
  split
  · exact tends_pure trivial h tr ht
  · rename_i id h' e
    exact ⟨trivial, ht.edit (hf e), (hf e).later ht.listeners⟩

theorem tends_perform (a : Action) : Tends (perform a) fun _ => True := by
  cases a with
  -- the tree
  | createElement tag => exact (tends_create fun hr => hr.createElement tag).answers _
  | createText s => exact (tends_create fun hr => hr.createText s).answers _
  | makeComment n s => exact tends_change fun _ => tidy_setTree fun hr => hr.makeComment n s
  | appendElement parent tag =>
    refine tends_change fun h => ?_
    have hnew : h.page.tree.Reached → (h.page.tree.appendElement parent tag).2.Reached := fun hr =>
      Tree.kept_reached.appendElement hr parent tag
    split <;> rename_i e <;> rw [e] at hnew <;> exact tidy_setTree hnew
  | appendChild parent child => exact tends_edit fun hr e => hr.appendChild e
  | removeNode n => exact tends_removeNode n
  | detachNode n => exact tends_edit fun hr e => hr.removeChild e
  | setAttr n name value => exact tends_edit fun hr e => hr.editElement (.setAttr name value) e
  | removeAttr n name =>
    refine tends_get fun h hr => ?_
    split
    · exact tends_pure trivial
    · rename_i old t ht
      exact (tends_modify fun _ => tidy_setTree fun _ => hr.removeAttr ht).answers _
  | addClass n c => exact tends_edit fun hr e => hr.editElement (.addClass c) e
  | removeClass n c => exact tends_edit fun hr e => hr.editElement (.removeClass c) e
  | setSize n width height => exact tends_edit fun hr e => hr.editElement (.setSize width height) e
  | setBox n width height => exact tends_change fun _ => tidy_setTree fun hr => hr.mapElement n (.place (.sized width height))
  | setText n s => exact tends_edit fun hr e => Tree.kept_reached.setText hr e
  -- listeners and dispatch
  | listen t event o s => exact tends_change fun h => tidy_listen h t event o _
  | unlisten id => exact tends_change fun h => tidy_unlisten h id
  | observe s => exact tends_change fun _ => tidy_frame rfl rfl
  | disconnect o =>
    refine tends_change fun h => ?_
    split <;> exact tidy_frame rfl rfl
  | dispatch t s =>
    refine (tends_eventOf s).bind fun e _ => ?_
    split
    · exact tends_pure trivial
    · exact (tends_deliver _ _).bind fun e _ => tends_back e
  | click n => exact (tends_click n).bind fun e _ => tends_back e
  | keyDown n k => exact (tends_deliver _ _).bind fun e _ => tends_back e
  | keyUp n k => exact (tends_deliver _ _).bind fun e _ => tends_back e
  | input n v => exact (tends_input n v).bind fun e _ => tends_back e
  -- scopes
  | newScope v => exact tends_change fun _ => tidy_frame rfl rfl
  | set i name v => exact (tends_write i [name] v).bind fun _ _ => tends_answer _
  | setPath i path v =>
    refine (tends_write i path v).bind fun r _ => ?_
    split
    · exact tends_pure trivial
    · exact tends_answer _
  | subscribe i path s => exact tends_change fun _ => tidy_frame rfl rfl
  | unsubscribe sub =>
    refine tends_change fun h => ?_
    split <;> exact tidy_frame rfl rfl
  | eval i source locals fresh => exact (tends_evaluate i source locals fresh).answers _
  | compile source => exact tends_change fun _ => tidy_frame rfl rfl
  -- timers and debouncers
  | timeout c delay s => exact tends_change fun _ => tidy_frame rfl rfl
  | clear c id => exact tends_change fun _ => tidy_frame rfl rfl
  | advance c delta => exact tends_get fun _ _ => (tends_advance _ _).answers _
  | advanceTo c instant => exact tends_get fun _ _ => (tends_advance _ _).answers _
  | runUntilIdle c limit => exact tends_get fun _ _ => (tends_runTimers _ limit).answers _
  | newDebouncer wait => exact tends_change fun _ => tidy_frame rfl rfl
  | schedule d source s =>
    refine (tends_eventOf source).bind fun e _ => ?_
    split
    · exact tends_pure trivial
    · exact tends_first (fun h => tidy_schedule h d _ s) <| tends_answer _
  | cancelDebouncer d => exact tends_change fun h => tidy_cancelDebouncer h d
  | dropDebouncer d =>
    exact tends_first (fun h => tidy_settleEdited h d _) <| tends_answer _
  -- runtimes
  | newRuntime s =>
    unfold perform
    dsimp only
    split
    · exact tends_pure trivial
    · exact tends_change fun h => tidy_addRuntime h _ s
  | dropRuntime rt => exact tends_first (fun h => tidy_release h rt) <| tends_answer _
  | bind rt n attr expression scope => exact tends_attempt tidy_bindAttr
  | bindDirective rt n d scope => exact tends_attempt tidy_bind
  | bindAttributes rt n scope =>
    refine tends_change fun h => ?_
    have ht := tidy_bindAttrs h rt n scope
    split <;> rename_i e <;> rw [e] at ht <;> exact ht
  | unbind rt id => exact tends_change fun h => tidy_unbind h rt id
  | unbindElement rt n => exact tends_change fun h => tidy_unbindAll h rt _
  | onError rt s => exact tends_first (fun _ => tidy_frame rfl rfl) (tends_pure trivial)
  | resetOutside rt => exact tends_first (fun h => tidy_resetOutside h rt) <| tends_answer _
  -- outside trackers
  | newTracker => exact tends_change fun _ => tidy_frame rfl rfl
  | registerOutside t id n event s =>
    refine tends_get fun h _ => ?_
    split
    · exact tends_first (fun h => tidy_register h _ _) <| tends_answer _
    · exact tends_answer _
  | unregisterOutside t id =>
    refine tends_change fun h => ?_
    split <;> exact tidy_frame rfl rfl
  | resetTracker t =>
    refine tends_get fun h _ => ?_
    split
    · exact tends_first (fun h => tidy_resetTracker h _) <| tends_answer _
    · exact tends_answer _
  -- the others look, or do nothing
  | stop | stopAtOnce | prevent | event | eventValue => exact tends_pure trivial
  | _ => exact tends_answer _

/-! ## Tasks -/

theorem tends_body (t : Task κ) : Tends t.body t.Hands := by
  cases t with
  | listen l e =>
    unfold Task.body
    dsimp only
    split
    · exact (tends_note _).bind fun _ _ => tends_runWithEvent _ e
    · exact tends_fire _ _ e
    · refine tends_first (fun _ => tidy_frame rfl rfl) <| tends_get fun h _ => ?_
      exact (tends_callEntries _ e _).bind fun e' he' => tends_first (fun _ => tidy_frame rfl rfl) <| tends_pure he'
  | outside w e =>
    unfold Task.body
    dsimp only
    split
    · exact (tends_note _).bind fun _ _ => tends_runWithEvent _ e
    · exact tends_fire _ _ e
  | effect rt b e =>
    refine tends_get fun h _ => ?_
    split
    · exact tends_pure trivial
    · split
      · exact (tends_note _).bind fun _ _ => tends_converse _ _
      · exact tends_first (fun _ => tidy_frame rfl rfl) <| tends_converse _ _
  | watch w c =>
    unfold Task.body
    dsimp only
    split
    · exact (tends_note _).bind fun _ _ => tends_runScript _
    · exact tends_pure trivial
  | observe o ns =>
    cases o with
    | script s => exact (tends_note _).bind fun _ _ => tends_runScript s
    | runtime rt =>
      refine tends_get fun h _ => ?_
      split
      · exact tends_modify fun h => tidy_unbindAll h rt _
      · exact tends_pure trivial
  | hook s f => exact (tends_note _).bind fun _ _ => tends_runScript s
  | ring c t =>
    unfold Task.body
    dsimp only
    split
    · exact tends_first (fun _ => tidy_frame rfl rfl) <| tends_runScript _
    · refine tends_first (fun _ => tidy_frame rfl rfl) <| (tends_note _).bind fun _ _ => ?_
      exact (tends_runWithEvent _ _).bind fun _ _ => tends_modify fun h => tidy_settleEdited h _ _
    · exact tends_first (fun _ => tidy_frame rfl rfl) <| (tends_complete _ _ _).answers _
  | advance c instant =>
    refine tends_get fun h _ => ?_
    split
    · exact tends_first (fun _ => tidy_frame rfl rfl) (tends_pure trivial)
    · rename_i t k _
      exact tends_first (fun _ => tidy_frame rfl rfl) <| (tends_ring c t).bind fun _ _ => (tends_advance c instant).answers _
  | act a => exact tends_perform a

theorem tending_holds : tending.Holds := by
  intro κ t h tr ⟨ht, hd⟩ _
  exact (tends_body t h _ (ht.begins hd)).mono fun r h' tr' ⟨hr, ht', _⟩ => ⟨tr', rfl, hr, ht'⟩

/-! ## Sessions -/

theorem session_tended (depth : Nat) (as : List Action) (url : String) (globals : Globals) (scopes : List Value) :
    Tended (play depth as (.new url globals scopes) []).2 := by
  refine play_kept tending_holds Tending (fun ht _ => ⟨ht.edit (tidy_frame rfl rfl), trivial⟩) (fun hp _ => ?_) depth as _ []
    trivial ⟨⟨reached_new url globals, Listeners.sound_empty, fun _ hm => by cases hm⟩, trivial⟩ fun _ _ => trivial
  obtain ⟨tr'', rfl, hr, ht⟩ := hp
  exact ht.ends hr

theorem Tended.split {later earlier : History} {m : Moment} (ht : Tended (later ++ m :: earlier)) :
    m.Fine earlier ∧ Kempt m.host earlier ∧ ∀ m' ∈ later, ListenersLater m.host.page.listeners m'.host.page.listeners := by
  induction later with
  | nil => exact ⟨ht.1, ht.2.1, fun _ hm => by cases hm⟩
  | cons m' later ih =>
    obtain ⟨hfine, hkempt, hlater⟩ := ih ht.2.2
    refine ⟨hfine, hkempt, List.forall_mem_cons.mpr ⟨?_, hlater⟩⟩
    exact ht.2.1.later m (List.mem_append_right _ List.mem_cons_self)

theorem Tended.drop {later : History} (ht : Tended (later ++ tr)) : Tended tr := by
  induction later with
  | nil => exact ht
  | cons m later ih => exact ih ht.2.2

theorem Tended.kempt {m : Moment} (ht : Tended tr) (hm : m ∈ tr) : m.host.page.tree.Sound ∧ m.host.page.listeners.Sound := by
  obtain ⟨later, earlier, rfl⟩ := List.append_of_mem hm
  obtain ⟨-, hkempt, -⟩ := ht.split
  exact ⟨hkempt.tree.sound, hkempt.listeners⟩

/-- At every moment of a session the tree is one that edits come to. -/
theorem session_reached {depth : Nat} {as : List Action} {url : String} {globals : Globals} {scopes : List Value}
    {m : Moment} (hm : m ∈ (play depth as (.new url globals scopes) []).2) : m.host.page.tree.Reached := by
  obtain ⟨later, earlier, e⟩ := List.append_of_mem hm
  have htended := session_tended depth as url globals scopes
  rw [e] at htended
  exact htended.split.2.1.tree

/-- What came back of an event had been handled. -/
theorem Tended.handed {t : Task κ} {r : κ.Carrier} (ht : Tended tr) (hm : .ends t r h ∈ tr) : t.Hands r := by
  obtain ⟨later, earlier, rfl⟩ := List.append_of_mem hm
  exact ht.split.1

/-- Edit a page that holds nothing but the document node, or a new page, in any way: the
    tree is linked as it should be. So it is at every moment of a session, whatever
    callbacks do to it in the course of an edit. -/
theorem session_wellLinked :
    (∀ (p : Page Reaction Observer), (p.tree = .empty ∨ ∃ url globals, p = .new url globals) →
      ∀ es : List Edit, (es.foldl Edit.on p).tree.WellLinked) ∧
    ∀ depth as url globals scopes, ∀ m ∈ (play depth as (.new url globals scopes) []).2, m.host.page.tree.WellLinked := by
  refine ⟨fun p hp es => ?_, fun depth as url globals scopes m hm => ?_⟩
  · refine (sound_edits ?_ es).wellLinked
    rcases hp with hp | ⟨url, globals, rfl⟩
    · rw [hp]
      exact Tree.sound_empty
    · exact sound_new url globals
  · exact ((session_tended depth as url globals scopes).kempt hm).1.wellLinked

/-- A list whose first item is put at its end; that a list goes under its own item, or under
    no node at all, is refused. -/
def shuffledItems : List Edit :=
  [.appendElement 3 "ul", .appendElement 4 "li", .appendElement 4 "li", .appendChild 4 5, .appendChild 6 4,
    .appendChild noNode 6]

/-- An observer that puts back what was removed. -/
def putBack : List Action := [.appendElement 3 "ul", .observe (.mk "back" [.appendChild 3 4]), .removeNode 4]

theorem putBack_wellLinked :
    (shuffledItems.foldl Edit.on (.new "" .browser : Page Reaction Observer)).tree.WellLinked ∧
      (shuffledItems.foldl Edit.on (.new "" .browser : Page Reaction Observer)).tree.children 4 = [6, 5] ∧
      ∃ h, .ends (.act (.appendChild 3 4)) .done h ∈ (play 5 putBack (.new "" .browser []) []).2 ∧
        h.page.tree.WellLinked ∧ h.page.tree.children 3 = [4] := by
  obtain ⟨hedits, hsession⟩ := session_wellLinked
  refine ⟨hedits _ (.inr ⟨"", .browser, rfl⟩) shuffledItems, rfl, _, List.mem_of_getElem? (i := 2) rfl, ?_, rfl⟩
  exact hsession 5 putBack "" .browser [] (.ends (.act (.appendChild 3 4)) .done _) (List.mem_of_getElem? (i := 2) rfl)

end Eventful.Host
