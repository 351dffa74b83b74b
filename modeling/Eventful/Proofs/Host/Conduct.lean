import Eventful.Proofs.Host.Firing

/-
  Eventful.Proofs.Host.Conduct — every task of a host keeps the books.

  An action keeps them if it spares what the runtimes of `F` registered; every other task
  keeps them by itself (`bookkeeping_holds`). So they are in order at every moment of a
  session that spares those runtimes, at whatever depth of callbacks within callbacks
  (`session_told`), and for no runtimes at all there is nothing to spare.
-/

namespace Eventful.Host

open Page Binding

variable {F : Nat → Prop} {h h' : Host} {tr : History} {rt : Nat} {κ : Kind}

/-! ## Parts of actions -/

theorem safe_edit (f : Tree → Except TreeError Tree) : Safe F (edit f) := by
  refine safe_get fun h tr hn => ?_
  split
  · exact safe_pure _ h tr hn
  · exact Safe.bind (safe_modify fun _ hb => goes_setTree hb _) (fun _ => safe_pure _) h tr hn

theorem safe_create (f : Tree → NodeId × Tree) : Safe F (create f) :=
  safe_get fun h tr hn => Safe.bind (safe_modify fun _ hb => goes_setTree hb _) (fun _ => safe_pure _) h tr hn

theorem safe_eventOf (s : Source) : Safe F (eventOf s) := by
  cases s with
  | event e => exact safe_pure _
  | last => exact safe_get fun h tr hn => safe_pure h.last h tr hn

theorem safe_back (e : Event) : Safe F (back e) :=
  (safe_modify (f := fun h => { h with last := some e }) fun _ hb => goes_frame hb rfl rfl rfl rfl rfl rfl rfl).bind
    fun _ => safe_pure _

theorem safe_attempt {f : Host → Except Directive.Error (Nat × Host)}
    (hf : ∀ {h id h'}, Books F h → f h = .ok (id, h') → Goes F h h') : Safe F (attempt f) := by
  refine safe_get fun h tr hn => ?_
  split
  · exact safe_pure _ h tr hn
  · rename_i id h' e
    exact SafeFrom.then (p := set h') ((hf hn.books e).comes hn) fun _ => safe_pure _

/-- The callbacks of an action are run, and then it answers. -/
theorem Safe.answers {α : Type} {p : Proc α} (hp : Safe F p) (f : α → Answer) : Safe F (p >>= fun a => pure (f a)) :=
  hp.bind fun a => safe_pure (f a)

/-! ## Actions -/

theorem goes_observe (hb : Books F h) (s : Script) :
    Goes F h { h with
      page := (h.page.observe (.script s)).2
      observers := h.observers ++ [(h.page.observe (.script s)).1] } :=
  goes_frame hb rfl rfl rfl rfl rfl rfl rfl

theorem safeFrom_perform {a : Action} (hn : Now F h tr) (ha : .begins (.act a) h ∈ tr) (hs : Spares F h a) :
    SafeFrom F h tr (perform a) := by
  cases a with
  -- the tree
  | createElement tag => exact (safe_create _).answers _ h tr hn
  | createText s => exact (safe_create _).answers _ h tr hn
  | makeComment n s => exact (goes_setTree hn.books _).comes hn
  | appendElement parent tag =>
    refine safe_change (fun h hb => ?_) h tr hn
    split <;> exact goes_setTree hb _
  | appendChild parent child => exact safe_edit (·.appendChild parent child) h tr hn
  | removeNode n => exact safe_removeNode n h tr hn
  | detachNode n => exact safe_edit (·.removeChild n) h tr hn
  | setAttr n name value => exact safe_edit (·.editElement n (·.setAttr name value)) h tr hn
  | removeAttr n name =>
    refine safeFrom_get ?_
    split
    · exact safe_pure _ h tr hn
    · exact Safe.bind (safe_modify fun _ hb => goes_setTree hb _) (fun _ => safe_pure _) h tr hn
  | addClass n c => exact safe_edit (·.editElement n (·.addClass c)) h tr hn
  | removeClass n c => exact safe_edit (·.editElement n (·.removeClass c)) h tr hn
  | setSize n width height => exact safe_edit (·.editElement n (·.setSize width height)) h tr hn
  | setBox n width height => exact (goes_setTree hn.books _).comes hn
  | setText n s => exact safe_edit (·.setText n s) h tr hn
  -- listeners and dispatch
  | listen t event o s => exact (goes_listen hn.books t event o s).comes hn
  | unlisten id => exact (goes_unlisten hn.books fun {t l} hl e => hs t l hl e).comes hn
  | observe s => exact (goes_observe hn.books s).comes hn
  | disconnect o =>
    refine safe_change (fun h hb => ?_) h tr hn
    split
    · exact .rfl hb
    · exact goes_frame hb rfl rfl rfl rfl rfl rfl rfl
  | dispatch t s =>
    refine Safe.bind (safe_eventOf s) (fun e => ?_) h tr hn
    split
    · exact safe_pure _
    · exact (safe_deliver _ _).bind safe_back
  | click n => exact (safe_click n).bind safe_back h tr hn
  | keyDown n k => exact (safe_deliver _ _).bind safe_back h tr hn
  | keyUp n k => exact (safe_deliver _ _).bind safe_back h tr hn
  | input n v => exact (safe_input n v).bind safe_back h tr hn
  -- scopes
  | newScope v => exact safe_change (fun _ hb => goes_frame hb rfl rfl rfl rfl rfl rfl rfl) h tr hn
  | set i name v => exact (safe_write i [name] v).bind (fun _ => safe_answer _) h tr hn
  | setPath i path v =>
    refine Safe.bind (safe_write i path v) (fun r => ?_) h tr hn
    split
    · exact safe_pure _
    · exact safe_answer _
  | subscribe i path s => exact safe_change (fun _ hb => goes_frame hb rfl rfl rfl rfl rfl rfl rfl) h tr hn
  | unsubscribe sub =>
    refine safe_change (fun h hb => ?_) h tr hn
    split
    · exact .rfl hb
    · exact goes_setScope hb _ _
  | eval i source locals fresh => exact (safe_evaluate i source locals fresh).answers _ h tr hn
  | compile source => exact safe_change (fun _ hb => goes_frame hb rfl rfl rfl rfl rfl rfl rfl) h tr hn
  -- timers and debouncers
  | timeout c delay s => exact (goes_startTimer hn.books _ delay fun _ _ _ e => by cases e).comes hn
  | clear c id =>
    exact (goes_cancelTimer hn.books (h.clockOf c) id fun {rt t id' e} ht hid ha => hs rt t id' e ht hid ha).comes hn
  | advance c delta => exact safe_get (fun h tr hn => (safe_advance _ _).answers _ h tr hn) h tr hn
  | advanceTo c instant => exact safe_get (fun h tr hn => (safe_advance _ _).answers _ h tr hn) h tr hn
  | runUntilIdle c limit =>
    exact safeFrom_get ((safeFrom_runTimers limit hn ⟨c, limit, h, ha, rfl⟩).then fun n => safe_pure (Answer.count n))
  | newDebouncer wait => exact (goes_newDebouncer hn.books wait).comes hn
  | schedule d source s =>
    refine Safe.bind (safe_eventOf source) (fun e => ?_) h tr hn
    split
    · exact safe_pure _
    · exact (safe_modify fun _ hb => goes_schedule hb d _ s).bind fun _ => safe_answer _
  | cancelDebouncer d => exact (goes_cancelDebouncer hn.books d).comes hn
  | dropDebouncer d =>
    exact Safe.bind (safe_modify fun _ hb => goes_dropDebouncer hb d) (fun _ => safe_answer _) h tr hn
  -- runtimes
  | newRuntime s =>
    unfold perform
    dsimp only
    split
    · exact safe_pure _ h tr hn
    · exact (goes_addRuntime hn.books _ s).comes hn
  | dropRuntime rt =>
    exact Safe.bind (safe_modify fun _ hb => goes_release hb rt) (fun _ => safe_answer _) h tr hn
  | bind rt n attr expression scope => exact safe_attempt (fun hb e => goes_bindAttr hb e) h tr hn
  | bindDirective rt n d scope => exact safe_attempt (fun hb e => goes_bind hb e) h tr hn
  | bindAttributes rt n scope =>
    refine safe_change (fun h hb => ?_) h tr hn
    have hg := goes_bindAttrs hb rt n scope
    split
    · rename_i e; rw [e] at hg; exact hg
    · rename_i e; rw [e] at hg; exact hg
  | unbind rt id => exact (goes_unbind hn.books rt id).comes hn
  | unbindElement rt n => exact (goes_unbindElements hn.books rt [n]).comes hn
  | onError rt s =>
    refine (goes_aside hn.books rt fun r => ?_ : Goes F h _).comes hn
    exact ⟨rfl, rfl, rfl, rfl, rfl, Iff.rfl, rfl, rfl⟩
  | resetOutside rt =>
    exact Safe.bind (safe_modify fun _ hb => goes_resetOutside hb rt) (fun _ => safe_answer _) h tr hn
  -- outside trackers
  | newTracker => exact (goes_newTracker hn.books).comes hn
  | registerOutside t id n event s =>
    refine safeFrom_get ?_
    split
    · rename_i k hk
      have hlt : k < h.trackers.length := by
        cases t with
        | shared i => exact hn.books.entries.places.shared (List.mem_of_getElem? hk)
        | runtime rt =>
          obtain ⟨r, hr, rfl⟩ := Option.map_eq_some_iff.mp hk
          exact hn.books.entries.places.place ⟨r, (held?_eq_some.mp hr).1, rfl⟩
      exact (safeFrom_modify hn (goes_register hn.books hlt (hs k hk) rfl)).then fun _ => safe_answer _
    · exact safe_answer _ h tr hn
  | unregisterOutside t id =>
    refine safeFrom_change hn ?_
    split
    · exact .rfl hn.books
    · rename_i k hk
      exact goes_unregister hn.books (hs k hk) id
  | resetTracker t =>
    refine safeFrom_get ?_
    split
    · rename_i k hk
      have hg := goes_resetTracker hn.books (k := k) fun hF ho => absurd ho (hs k hk _ hF)
      exact (safeFrom_modify hn hg).then fun _ => safe_answer _
    · exact safe_answer _ h tr hn
  -- the others look, or do nothing
  | stop => exact safe_pure _ h tr hn
  | stopAtOnce => exact safe_pure _ h tr hn
  | prevent => exact safe_pure _ h tr hn
  | event => exact safe_pure _ h tr hn
  | eventValue => exact safe_pure _ h tr hn
  | _ => exact safe_answer _ h tr hn

/-! ## Tasks -/

theorem safeFrom_body_listen {l : Listener Reaction} {e : Event} (ho : Opens F (.begins (.listen l e) h) tr)
    (hbound : ∀ rt id, l.action = .binding rt id → ∃ b, Binds h.runtimes rt b ∧ b.id = id) :
    SafeFrom F h (.begins (.listen l e) h :: tr) (Task.listen l e).body := by
  have hother : (∀ rt id, l.action ≠ .binding rt id) → Now F h (.begins (.listen l e) h :: tr) :=
    fun hn => ho.now fun rt id => Moment.not_turns (fun _ hf => hn rt id hf.1) fun _ hr => hr
  unfold Task.body
  dsimp only
  split
  · rename_i s ha
    have hn := hother fun _ _ e => by cases ha.symm.trans e
    exact Safe.bind (safe_note _) (fun _ => safe_runWithEvent _ _) h _ hn
  · rename_i rt id ha
    exact safeFrom_fire ho (fun _ _ _ => hbound rt id ha) ⟨ha, rfl⟩
  · rename_i k ha
    have hn := hother fun _ _ e => by cases ha.symm.trans e
    have hg := goes_beginWalk hn.books k
    refine SafeFrom.bind (safeFrom_modify (f := fun h => h.setTracker k (h.tracker k).beginWalk) hn hg)
      fun _ h₁ tr₁ hc₁ => safeFrom_get ?_
    refine SafeFrom.then (safeFrom_callEntries k _ e hc₁.now fun w hw => ?_) fun e' => ?_
    · exact recalled_of_mem hc₁.now.books (List.mem_filter.mp hw).1
    · exact (safe_modify fun _ hb => goes_endWalk hb k).bind fun _ => safe_pure e'

theorem safeFrom_body_outside {w : Entry Waiter} {e : Event} (ho : Opens F (.begins (.outside w e) h) tr)
    (hbound : ∀ rt id, w.action = .binding rt id → BoundFor F h rt id) :
    SafeFrom F h (.begins (.outside w e) h :: tr) (Task.outside w e).body := by
  unfold Task.body
  dsimp only
  split
  · rename_i s ha
    have hn : Now F h (.begins (.outside w e) h :: tr) := ho.now fun rt id =>
      Moment.not_turns (fun _ hf => by cases ha.symm.trans hf.1) fun _ hr => hr
    exact Safe.bind (safe_note _) (fun _ => safe_runWithEvent _ _) h _ hn
  · rename_i rt id ha
    exact safeFrom_fire ho (hbound rt id ha) ⟨ha, rfl⟩

theorem safe_body_effect (rt : Nat) (b : Bound) (e : Event) : Safe F (Task.effect rt b e).body := by
  refine safe_get fun h tr hn => ?_
  split
  · exact safe_pure _ h tr hn
  · split
    · exact Safe.bind (safe_note _) (fun _ => safe_converse _ _) h tr hn
    · rename_i cache _
      have hg : Goes F h (h.editRuntime rt fun r => { r with
          evaluator := .script (evaluateScript cache b.directive.expression (.ofEvent e)).2 }) :=
        goes_aside hn.books rt fun r => ⟨rfl, rfl, rfl, rfl, rfl, Iff.rfl, rfl, rfl⟩
      exact (safeFrom_modify hn hg).then fun _ => safe_converse _ _

theorem safe_body_watch (w : Watcher) (c : Change) : Safe F (Task.watch w c).body := by
  unfold Task.body
  dsimp only
  split
  · exact (safe_note _).bind fun _ => safe_runScript _
  · exact safe_pure _

theorem safe_body_observe (o : Observer) (ns : List NodeId) : Safe F (Task.observe o ns).body := by
  cases o with
  | script s => exact (safe_note _).bind fun _ => safe_runScript s
  | runtime rt =>
    refine safe_get fun h tr hn => ?_
    split
    · exact safe_modify (fun _ hb => goes_unbindElements hb rt ns) h tr hn
    · exact safe_pure _ h tr hn

theorem safe_body_hook (s : Script) (f : Failure) : Safe F (Task.hook s f).body :=
  (safe_note _).bind fun _ => safe_runScript s

/-- A timer that is not a binding's rings. -/
theorem safe_body_ring {c : Nat} {t : Timer Alarm} (ha : ∀ rt id e, t.action ≠ .binding rt id e) :
    Safe F (Task.ring c t).body := by
  unfold Task.body
  dsimp only
  split
  · exact Safe.bind (safe_modify fun _ hb => goes_note hb _) fun _ => safe_runScript _
  · rename_i d e s _
    refine Safe.bind (safe_modify fun _ hb => goes_editDebouncer hb d fun _ => .inl rfl) fun _ => ?_
    refine (safe_note _).bind fun _ => (safe_runWithEvent s e).bind fun _ => safe_modify fun _ hb => ?_
    have hg := goes_editDebouncer hb d (f := fun k => { k with running := k.running - 1 }) fun _ => .inr rfl
    exact hg.trans (goes_settleDebouncer hg.books d)
  · rename_i rt id e h
    exact absurd h (ha rt id e)

/-- A binding's timer rings: from the host it was taken in, the wait is over. -/
theorem safeFrom_body_ringBinding {h₀ : Host} {c id : Nat} {t : Timer Alarm} {k : Clock Alarm} {e : Event}
    (hk : Kept F h₀ tr) (ht : (h₀.clock c).takeFirst? = some (t, k)) (ha : t.action = .binding rt id e)
    (told : Told F (.begins (.ring c t) (h₀.setClock c k) :: tr)) (onward : ∀ m ∈ tr, Onward m.host h₀)
    (accounted : Accounted h₀ (.begins (.ring c t) (h₀.setClock c k) :: tr)) :
    SafeFrom F (h₀.setClock c k) (.begins (.ring c t) (h₀.setClock c k) :: tr) (Task.ring c t).body := by
  have hb := hk.books
  have hs := steps_ring hb ht ha
  obtain ⟨b, hkeeps, -, hid, hw⟩ := hb.timers.backed (Clock.takeFirst?_eq_some ht).1 ha
  subst hid
  have hedit : ∀ {b'}, Keeps ((h₀.setClock c k).waited rt b.id).runtimes
      rt b' → b'.id = b.id → b' = { b with waiting := none } := by
    intro b' hb' hid
    obtain ⟨b₁, h₁, rfl⟩ := keeps_edit.mp hb'
    have hid₁ : b₁.id = b.id := by split at hid <;> exact hid
    rw [if_pos ⟨rfl, hid₁⟩, keeps_unique hb.runtimes h₁ hkeeps hid₁]
  have hbound : BoundFor F ((h₀.setClock c k).waited rt b.id) rt
      b.id := by
    intro k' hF ho
    -- A binding that is leaving waits for nothing.
    rcases keeps_iff.mp hkeeps with hbinds | hleaves
    · exact ⟨_, binds_edit.mpr ⟨b, hbinds, rfl⟩, by split <;> rfl⟩
    · have hnone := hb.timers.left hF ((owns_iff (edit_parts _ _ _ _)).mp ho) hleaves
      cases hw.symm.trans hnone
  have honward : Onward (h₀.setClock c k) h₀ := ⟨.rfl _, .rfl _⟩
  have hn : Now F ((h₀.setClock c k).waited rt b.id)
      (.begins (.ring c t) (h₀.setClock c k) :: tr) := by
    refine (hs.comes told (fun m hm => ?_) accounted ?_).now
    · rcases List.mem_cons.mp hm with rfl | hm
      · exact honward
      · exact onward m hm
    · refine (clocked_take hb hk.clocked ht).still ?_ hs.onward.runtimes
      exact still_edit _ _ rt b.id none
  have hled : ∀ {b'}, Keeps ((h₀.setClock c k).waited rt b.id).runtimes
      rt b' → b'.id = b.id → Led rt b' e (.begins (.ring c t) (h₀.setClock c k) :: tr) := by
    intro b' hb' hid
    rw [hedit hb' hid]
    obtain ⟨wait, hwait⟩ := hb.timers.debounced hkeeps hw
    exact .inr ⟨fun hn => hn wait hwait, ha⟩
  unfold Task.body
  dsimp only
  rw [ha]
  have hs' := (safeFrom_complete hn hbound hled).then (f := fun _ => pure ()) fun _ => safe_pure ()
  exact Proc.Meets.mono hs' fun _ h' tr' hc =>
    ⟨hc.now, (honward.trans hs.onward).trans hc.onward, hc.settled, hc.grown⟩

/-! ## The contract holds -/

theorem meets_body {t : Task κ} (ht : ∀ h, t.Over h) (hs : SafeFrom F h (.begins t h :: tr) t.body) :
    t.body.Meets (bookkeeping F) h (.begins t h :: tr) fun r h' tr' =>
      (bookkeeping F).post t h tr r h' (.ends t r h' :: tr') :=
  Proc.Meets.mono hs fun _ h' tr' hc => ⟨tr', rfl, hc, ht h'⟩

theorem bookkeeping_holds (F : Nat → Prop) : (bookkeeping F).Holds := by
  intro κ t h tr hp hf
  have htold : Told F (.begins t h :: tr) := (bookkeeping F).kept_begins hp
  obtain ⟨ready, -, onward, accounted⟩ := hp
  have hopens : Kept F h tr → Opens F (.begins t h) tr := fun hk => ⟨hk, htold, onward, accounted⟩
  have hnow : Kept F h tr → (∀ rt id e, ¬(Moment.begins t h).Fires rt id e) →
      (∀ rt id e, ¬(Moment.begins t h).Rings rt id e) → Now F h (.begins t h :: tr) :=
    fun hk hf hr => (hopens hk).now fun rt id => Moment.not_turns (hf rt id) (hr rt id)
  cases t with
  | listen l e => exact meets_body (fun _ => trivial) (safeFrom_body_listen (hopens ready.1) ready.2)
  | outside w e =>
    exact meets_body (fun _ => trivial) (safeFrom_body_outside (hopens ready.1) fun rt id ha => (ready.2 rt id ha).2)
  | effect rt b e => exact meets_body (fun _ => trivial) (safe_body_effect rt b e h _ (hnow ready.1 (fun _ _ _ h => h) fun _ _ _ h => h))
  | watch w c => exact meets_body (fun _ => trivial) (safe_body_watch w c h _ (hnow ready (fun _ _ _ h => h) fun _ _ _ h => h))
  | observe o ns => exact meets_body (fun _ => trivial) (safe_body_observe o ns h _ (hnow ready (fun _ _ _ h => h) fun _ _ _ h => h))
  | hook s f => exact meets_body (fun _ => trivial) (safe_body_hook s f h _ (hnow ready (fun _ _ _ h => h) fun _ _ _ h => h))
  | ring c t =>
    refine meets_body (fun _ => trivial) ?_
    obtain ⟨h₀, k, hk, ht, rfl, -⟩ := ready
    by_cases ha : ∃ rt id e, t.action = .binding rt id e
    · obtain ⟨rt, id, e, ha⟩ := ha
      exact safeFrom_body_ringBinding hk ht ha htold (fun m hm => ⟨(onward m hm).runtimes, (onward m hm).listeners⟩)
        accounted
    · have ha : ∀ rt id e, t.action ≠ .binding rt id e := fun rt id e h => ha ⟨rt, id, e, h⟩
      have hg := goes_take hk.books ht ha
      refine safe_body_ring ha _ _ (hnow
        ⟨hg.books, hk.clocked.still hg.still hg.onward.runtimes⟩ (fun _ _ _ h => h) fun rt id e h => ha rt id e h)
  | advance c instant =>
    exact Proc.Meets.mono (meets_advance (hnow ready (fun _ _ _ h => h) fun _ _ _ h => h) rfl) fun _ _ tr' hc => ⟨tr', rfl, hc.1, hc.2⟩
  | act a =>
    exact meets_body (fun _ => trivial) (safeFrom_perform (hnow ready (fun _ _ _ h => h) fun _ _ _ h => h) List.mem_cons_self hf)

/-! ## Sessions -/

theorem now_new (url : String) (globals : Globals) (scopes : List Value) : Now F (.new url globals scopes) [] where
  books := books_new url globals scopes
  clocked := clocked_nil fun c => congrArg Clock.timers (clockAt_append [] c)
  told := trivial
  onward := fun _ hm => by cases hm
  accounted := fun rt b hb _ => by
    obtain ⟨r, hr, -⟩ := hb
    simp [Host.new] at hr

theorem Now.begins (hn : Now F h tr) (a : Action) : (bookkeeping F).pre (.act a) { h with log := [] } tr := by
  have hg : Goes F h { h with log := [] } := goes_frame hn.books rfl rfl rfl rfl rfl rfl rfl
  have hn := (hg.comes hn).now
  exact hn.pre (t := .act a) hn.toKept

/-- What the history of a session tells, if the session spares the runtimes of `F`. -/
theorem session_told (depth : Nat) (as : List Action) (url : String) (globals : Globals) (scopes : List Value)
    (hf : ∀ m ∈ (play depth as (.new url globals scopes) []).2, Fair F m) :
    Told F (play depth as (.new url globals scopes) []).2 :=
  play_kept (bookkeeping_holds F) (Now F) Now.begins (fun hp hcl => (comes_of_post hp hcl).now) depth as _ [] trivial
    (now_new url globals scopes) hf

/-- The books of a host in which a session comes back. -/
theorem session_books {depth : Nat} {as : List Action} {url : String} {globals : Globals} {scopes : List Value}
    (hf : ∀ m ∈ (play depth as (.new url globals scopes) []).2, Fair F m)
    (e : (play depth as (.new url globals scopes) []).1 = some h) : Books F h :=
  (play_ready (bookkeeping_holds F) (Now F) Now.begins (fun _ hp hcl => (comes_of_post hp hcl).now) depth as _ []
    (now_new url globals scopes) hf e).books

end Eventful.Host
