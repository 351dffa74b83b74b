import Eventful.Proofs.Directive.Plan
import Eventful.Proofs.Host.Keeping

/-
  Eventful.Proofs.Host.Calling — the loops that call back keep the books.

  They go by induction on what they still have to do: the listeners of a round, the moves
  of a dialogue, the actions of a script, the timers of a run. What a loop remembers of its
  beginning stays good (`Known`), and what it looks up again before a call is what the
  called task relies on.
-/

namespace Eventful.Host

open Page Binding

variable {F : Nat → Prop} {h h' : Host} {tr : History} {rt : Nat}

/-! ## Edits that the books do not see -/

theorem goes_note (hb : Books F h) (n : Note) : Goes F h (h.note n) := goes_frame hb rfl rfl rfl rfl rfl rfl rfl

theorem goes_setTree (hb : Books F h) (t : Tree) : Goes F h (h.setTree t) := goes_frame hb rfl rfl rfl rfl rfl rfl rfl

theorem goes_setScope (hb : Books F h) (i : Nat) (s : Scope Watcher) : Goes F h (h.setScope i s) :=
  goes_frame hb rfl rfl rfl rfl rfl rfl rfl

theorem safe_note (n : Note) : Safe F (modify (·.note n)) := safe_modify fun _ hb => goes_note hb n

/-! ## Scripts -/

theorem safe_runActions (e : Option Event) (as : List Action) : Safe F (runActions e as) := by
  induction as generalizing e with
  | nil => exact safe_pure e
  | cons a rest ih =>
    intro h tr hn
    have hrest : ∀ p : Option Event × Answer, Safe F (do
        modify (·.note (.did a p.2))
        runActions p.1 rest) := fun p => (safe_note _).bind fun _ => ih p.1
    unfold runActions
    dsimp only
    split
    · exact hrest _ h tr hn
    · exact (safe_act a).bind (fun r => hrest (e, r)) h tr hn

theorem safe_runScript (s : Script) : Safe F (runScript s) :=
  (safe_runActions none s.actions).bind fun _ => safe_pure _

theorem safe_runWithEvent (s : Script) (e : Event) : Safe F (runWithEvent s e) :=
  (safe_runActions (some e) s.actions).bind fun _ => safe_pure _

theorem safe_report (f : Failure) (ss : List Script) : Safe F (report f ss) := by
  induction ss with
  | nil => exact safe_pure _
  | cons s rest ih =>
    exact (safe_hook s f).bind fun _ => ih

/-! ## Scopes -/

theorem safe_tellAll (c : Change) (ws : List (Nat × Watcher)) : Safe F (tellAll c ws) := by
  induction ws with
  | nil => exact safe_pure _
  | cons w rest ih =>
    exact (safe_watch w.2 c).bind fun _ => ih

theorem safe_write (scope : Nat) (path : List String) (v : Value) : Safe F (write scope path v) := by
  refine safe_get fun h tr hn => ?_
  split
  · exact safe_pure _ h tr hn
  · rename_i s change _
    refine Safe.bind (safe_modify fun _ hb => goes_setScope hb scope s) (fun _ => ?_) h tr hn
    split
    · exact (safe_tellAll _ _).bind fun _ => safe_pure _
    · exact safe_pure _

theorem safe_converse {α : Type} (scope : Nat) (d : Expr.Dialogue α) : Safe F (converse scope d) := by
  induction d with
  | done a => exact safe_pure a
  | ask name k ih => exact safe_get fun h tr hn => ih _ h tr hn
  | tell path v k ih => exact (safe_write scope path v).bind fun r => ih r

theorem safe_evaluate (scope : Nat) (source : String) (locals : List (String × Value)) (fresh : Bool) :
    Safe F (evaluate scope source locals fresh) := by
  unfold evaluate
  split
  · exact safe_converse _ _
  · refine safe_get fun h tr hn => ?_
    split
    rename_i dialogue cache _
    refine Safe.bind (safe_modify fun _ hb => ?_) (fun _ => safe_converse scope dialogue) h tr hn
    exact goes_frame hb rfl rfl rfl rfl rfl rfl rfl

/-! ## Removals -/

theorem safe_informAll (ns : List NodeId) (os : List (Nat × Observer)) : Safe F (informAll ns os) := by
  induction os with
  | nil => exact safe_pure _
  | cons o rest ih =>
    exact (safe_observe o.2 ns).bind fun _ => ih

theorem removeNode_page {κ ω : Type} {p p' : Page κ ω} {n : NodeId} {ns : List NodeId}
    (h : p.removeNode n = .ok (ns, p')) : p'.listeners = p.listeners ∧ p'.globals = p.globals := by
  unfold Page.removeNode at h
  cases ht : p.tree.removeChild n with
  | error e => rw [ht] at h; cases h
  | ok t =>
    rw [ht] at h
    cases h
    exact ⟨rfl, rfl⟩

theorem safe_removeNode (n : NodeId) : Safe F (removeNode n) := by
  refine safe_get fun h tr hn => ?_
  split
  · exact safe_pure _ h tr hn
  · rename_i ns page hp
    obtain ⟨hl, hg⟩ := removeNode_page hp
    have hgoes : Goes F h { h with page } := goes_frame hn.books rfl rfl rfl hg hl rfl rfl
    refine SafeFrom.then (hgoes.comes hn) fun _ => ?_
    dsimp only
    split
    · exact safe_pure _
    · exact (safe_informAll _ _).bind fun _ => safe_pure _

/-! ## Timers -/

/-- A timer is taken and rings. -/
theorem meets_ring {α : Type} {c : Nat} {t : Timer Alarm} {k : Clock Alarm} {f : Unit → Proc α}
    {Q : α → Host → History → Prop} (hn : Now F h tr) (ht : (h.clock c).takeFirst? = some (t, k)) (hdue : Due c t tr)
    (hf : ∀ a h' tr', Comes F h tr h' tr' → (f a).Meets (bookkeeping F) h' tr' Q) :
    Proc.Meets (bookkeeping F) (do
      modify (·.setClock c k)
      let a ← call (.ring c t)
      f a) h tr Q := by
  have honward : Onward h (h.setClock c k) := ⟨.rfl _, .rfl _⟩
  rw [meets_bind, meets_modify, meets_bind, meets_call]
  refine ⟨⟨⟨h, k, hn.toKept, ht, rfl, hdue⟩, hn.told, fun m hm => (hn.onward m hm).trans honward, ?_⟩,
    fun a h' tr' hp hcl _ => ?_⟩
  · exact fun rt b hb hf => (hn.accounted rt b hb hf).mono (List.subset_cons_self _ _)
  · have hc := comes_of_post hp hcl
    exact hf a h' tr' ⟨hc.now, honward.trans hc.onward, fun rt b hb honce he =>
      evaluated_begins (fun _ _ _ e => by cases e) (hc.settled rt b hb honce he), (List.suffix_cons _ _).trans hc.grown⟩

theorem safeFrom_runTimers {c : Nat} (limit : Nat) (hn : Now F h tr)
    (hrun : ∃ clock limit h, .begins (.act (.runUntilIdle clock limit)) h ∈ tr ∧ h.clockOf clock = c) :
    SafeFrom F h tr (runTimers c limit) := by
  induction limit generalizing h tr with
  | zero => exact safe_pure 0 h tr hn
  | succ limit ih =>
    refine safeFrom_get ?_
    split
    · exact safe_pure 0 h tr hn
    · rename_i t k ht
      refine meets_ring hn ht (.inr hrun) fun _ h' tr' hc => ?_
      obtain ⟨clock, limit₀, h₀, hm, hclock⟩ := hrun
      have hrest := ih hc.now ⟨clock, limit₀, h₀, hc.grown.subset hm, hclock⟩
      exact (hrest.then (f := fun n => pure (n + 1)) fun _ => safe_pure _).mono fun _ _ _ hc' => hc.trans hc'

theorem mem_setClock {c : Nat} {k : Clock Alarm} {u : Timer Alarm} (hu : u ∈ ((h.setClock c k).clock c).timers) :
    u ∈ k.timers := by
  change u ∈ (clockAt (h.clocks.set c k) c).timers at hu
  by_cases hc : c < h.clocks.length
  · rw [clockAt_set k c hc, if_pos rfl] at hu
    exact hu
  · rw [set_of_le k (Nat.le_of_not_lt hc), clockAt_of_le (Nat.le_of_not_lt hc)] at hu
    cases hu

/-- An advance goes on until nothing is due. -/
theorem meets_advance {c instant : Nat} {before : History} (hn : Now F h tr)
    (htr : tr = .begins (.advance c instant) h :: before) :
    (Task.advance c instant).body.Meets (bookkeeping F) h tr fun _ h' tr' =>
      Comes F h tr h' tr' ∧ (Task.advance c instant).Over h' := by
  rw [Task.body, meets_bind, meets_get]
  split
  · rename_i hnone
    have hdue := Clock.takeDue?_eq_none.mp hnone
    have hg := goes_moveTo hn.books fun t ht => Nat.le_of_lt (hdue t ht)
    exact ⟨hg.comes hn, fun t ht => hdue t (mem_setClock (h := h) (k := (h.clock c).moveTo instant) ht)⟩
  · rename_i t k ht
    obtain ⟨htake, hle⟩ := Clock.takeDue?_eq_some.mp ht
    refine meets_ring hn htake (.inl ⟨instant, h, before, htr, hle⟩) fun _ h₁ tr₁ hc₁ => ?_
    rw [meets_bind, meets_call]
    refine ⟨hc₁.now.pre hc₁.now.toKept, fun n h₂ tr₂ hp hcl _ => ?_⟩
    exact ⟨hc₁.trans ((comes_of_post hp hcl).drop fun _ _ _ e => by cases e), over_of_post hp⟩

/-! ## Dispatch -/

/-- A listener of a binding or a tracker is not removed by being called. -/
theorem unneeded_of_once {rs : Runtimes} {ts : List (Tracker Waiter)} {g : Page.Globals} {ls : Listeners Reaction}
    (hs : ∀ {rt : Nat} {r : Runtime Script}, rs[rt]? = some r → r.Sound) (hb : ListenerBooks F rs ts g ls) {t : Target}
    {l : Listener Reaction} (hl : ls.Stands t l) (honce : l.options.once = true) :
    ∃ s, l.action = .script s := by
  cases ha : l.action with
  | script s => exact ⟨s, rfl⟩
  | binding rt id =>
    obtain ⟨b, ⟨r, hr, h₀⟩, hfits⟩ := hb.backed hl ha
    rw [hfits.options, Directive.Plan.options_once ((hs hr).built (.inl h₀))] at honce
    cases honce
  | tracker k =>
    rw [(hb.serves hl ha).2.1] at honce
    cases honce

/-- A listener is called that stands. -/
theorem safeFrom_listen (hn : Now F h tr) {t : Target} {l : Listener Reaction} (hl : h.page.listeners.Stands t l)
    (e : Event) : SafeFrom F h tr (call (.listen l e)) := by
  refine safeFrom_call hn (fun _ _ _ e => by cases e) ⟨hn.toKept, fun rt id ha => ?_⟩
  obtain ⟨b, hb, hfits⟩ := hn.books.listeners.backed hl ha
  rw [hfits.action] at ha
  cases ha
  exact ⟨b, hb, rfl⟩

/-- A script's listener is called, whether it stands or not. -/
theorem safeFrom_listenScript (hn : Now F h tr) {l : Listener Reaction} {s : Script} (hs : l.action = .script s)
    (e : Event) : SafeFrom F h tr (call (.listen l e)) :=
  safeFrom_call hn (fun _ _ _ e => by cases e) ⟨hn.toKept, fun rt id ha => by rw [hs] at ha; cases ha⟩

theorem safeFrom_callListeners (ls : List (Listener Reaction)) (e : Event) (hn : Now F h tr)
    (hk : ∀ l ∈ ls, Known l h.page.listeners) : SafeFrom F h tr (callListeners e ls) := by
  induction ls generalizing e h tr with
  | nil => exact safe_pure e h tr hn
  | cons l rest ih =>
    have hrest : ∀ e {h' tr'}, Comes F h tr h' tr' → SafeFrom F h' tr' (callListeners e rest) :=
      fun e _ _ hc => ih e hc.now fun l' hl' => (hk l' (List.mem_cons_of_mem _ hl')).later hc.onward.listeners
    -- After the call the round goes on, unless the event was stopped at once.
    have hcalled : ∀ {h₁ tr₁}, Comes F h tr h₁ tr₁ →
        SafeFrom F h₁ tr₁ (call (.listen l { e with passive := l.options.passive })) →
        SafeFrom F h₁ tr₁ (do
          let e ← call (.listen l { e with passive := l.options.passive })
          let e := { e with passive := false }
          if e.stoppedAtOnce then return e else callListeners e rest) := by
      intro h₁ tr₁ hc₁ hcall
      refine hcall.bind fun e' h₂ tr₂ hc₂ => ?_
      dsimp only
      split
      · exact safe_pure _ h₂ tr₂ hc₂.now
      · exact hrest _ (hc₁.trans hc₂)
    show SafeFrom F h tr (if h.page.listeners.contains l.id then _ else _)
    split
    · rename_i hc
      obtain ⟨t, l', hl, e'⟩ := (Listeners.contains_iff hn.books.listeners.sound).mp hc
      cases (hk l List.mem_cons_self).unique hl e'
      split
      · rename_i honce
        obtain ⟨s, hs⟩ := unneeded_of_once hn.books.runtimes hn.books.listeners hl honce
        have hg : Goes F h (h.unlisten l.id).2 := goes_unlisten hn.books fun {t' l'} hl' e' => by
          cases (hk l List.mem_cons_self).unique hl' e'
          exact ⟨fun ha => (by rw [hs] at ha; cases ha), fun ha => (by rw [hs] at ha; cases ha)⟩
        refine SafeFrom.bind (hg.comes hn) fun _ h₁ tr₁ hc₁ => ?_
        exact hcalled hc₁ (safeFrom_listenScript hc₁.now hs _)
      · exact hcalled (.rfl hn) (safeFrom_listen hn hl _)
    · exact hrest e (.rfl hn)

theorem safe_makeRounds (e : Event) (rs : List Round) : Safe F (makeRounds e rs) := by
  induction rs generalizing e with
  | nil => exact safe_pure e
  | cons r rest ih =>
    refine safe_get fun h tr hn => ?_
    refine SafeFrom.then (safeFrom_callListeners _ _ hn fun l hl => ?_) fun e' => ?_
    · exact known_of_stands hn.books.listeners.sound (List.mem_filter.mp hl).1
    · split
      · exact safe_pure e'
      · exact ih e'

theorem safe_deliver (target : Target) (e : Event) : Safe F (deliver target e) := by
  refine safe_get fun h tr hn => Safe.bind (safe_makeRounds _ _) (fun e' => ?_) h tr hn
  dsimp only
  split
  · exact safe_pure _
  · exact (safe_makeRounds _ _).bind fun _ => safe_pure _

theorem safe_click (n : NodeId) : Safe F (click n) := by
  have hcheck : ∀ b, Safe F (modify fun h => h.setTree (h.page.tree.mapElement n fun e => { e with checked := b })) :=
    fun b => safe_modify fun _ hb => goes_setTree hb _
  refine safe_get fun h tr hn => ?_
  dsimp only
  generalize ((h.page.tree.element? n).bind fun e => if e.isCheckbox then some e.checked else none) = before
  cases before with
  | none => exact Safe.bind (safe_deliver _ _) (fun e => safe_pure _) h tr hn
  | some b =>
    refine Safe.bind (hcheck _) (fun _ => (safe_deliver _ _).bind fun e => ?_) h tr hn
    dsimp only
    split
    · exact (hcheck _).bind fun _ => safe_pure _
    · exact safe_pure _

theorem safe_input (n : NodeId) (value : String) : Safe F (input n value) :=
  Safe.bind (safe_modify fun _ hb => goes_setTree hb _) fun _ => safe_deliver _ _

end Eventful.Host
