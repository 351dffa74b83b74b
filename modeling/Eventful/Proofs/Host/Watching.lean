import Eventful.Proofs.Host.Passage

/-
  Eventful.Proofs.Host.Watching — every runtime hears of removals until it ends.

  A runtime observes the page under an id of its own. Nobody else can disconnect it: an
  action names an observer that an action made, and the end of another runtime names that
  runtime's own id.

  - `session_watched`: at every moment of a session, every runtime that has not ended is
    among the page's observers.
  - `session_unwatched`: one that has ended is not, after a session that comes back.
-/

namespace Eventful.Host

open Page Binding

variable {h h' : Host}

/-- The runtimes are told of removals, each by an id that nobody else goes by. -/
structure Watched (h : Host) : Prop where
  told : ∀ {rt : Nat} {r : Runtime Script}, h.runtimes[rt]? = some r → r.status ≠ .ended →
    (r.observer, Observer.runtime rt) ∈ h.page.observers
  distinct : (h.page.observers.map (·.1)).Nodup
  issued : ∀ o ∈ h.page.observers, o.1 ≤ h.page.lastObserver
  /-- Actions know the ids of scripts only. -/
  scripts : ∀ id ∈ h.observers, id ≤ h.page.lastObserver ∧ ∀ o ∈ h.page.observers, o.1 = id → ∃ s, o.2 = .script s

/-- One id is that of one observer. -/
theorem Watched.unique (hw : Watched h) {id : Nat} {o o' : Observer} (ho : (id, o) ∈ h.page.observers)
    (ho' : (id, o') ∈ h.page.observers) : o = o' :=
  congrArg Prod.snd (List.inj_on_of_nodup_map hw.distinct ho ho' rfl)

theorem watched_same (hw : Watched h) (runtimes : h'.runtimes = h.runtimes)
    (observers : h'.page.observers = h.page.observers) (lastObserver : h'.page.lastObserver = h.page.lastObserver)
    (scripts : h'.observers = h.observers) : Watched h' := by
  refine ⟨?_, ?_, ?_, ?_⟩
  · rw [runtimes, observers]
    exact hw.told
  · rw [observers]
    exact hw.distinct
  · rw [observers, lastObserver]
    exact hw.issued
  · rw [scripts, observers, lastObserver]
    exact hw.scripts

/-- A new observer goes by a new id. -/
theorem watched_observe (hw : Watched h) (o : Observer) : Watched { h with page := (h.page.observe o).2 } := by
  refine ⟨fun hr hne => List.mem_append_left _ (hw.told hr hne), ?_, fun o' ho' => ?_, fun id hid => ?_⟩
  · show ((h.page.observers ++ [(h.page.lastObserver + 1, o)]).map (·.1)).Nodup
    rw [List.map_append, List.nodup_append]
    refine ⟨hw.distinct, List.nodup_singleton _, fun i hi j hj e => ?_⟩
    obtain ⟨o', ho', rfl⟩ := List.mem_map.mp hi
    have hle := hw.issued o' ho'
    cases List.mem_singleton.mp hj
    exact absurd (e ▸ hle) (Nat.not_succ_le_self _)
  · rcases List.mem_append.mp ho' with ho' | ho'
    · exact Nat.le_succ_of_le (hw.issued o' ho')
    · cases List.mem_singleton.mp ho'
      exact Nat.le_refl _
  · obtain ⟨hle, hscript⟩ := hw.scripts id hid
    refine ⟨Nat.le_succ_of_le hle, fun o' ho' e => ?_⟩
    rcases List.mem_append.mp ho' with ho' | ho'
    · exact hscript o' ho' e
    · cases List.mem_singleton.mp ho'
      exact absurd (e ▸ hle) (Nat.not_succ_le_self _)

/-- The runtimes stay as they are, or end; an observer goes, if it is that of none that stays. -/
theorem watched_disconnect (hw : Watched h) {id : Nat} {rs : Runtimes}
    (hrs : ∀ {rt : Nat} {r : Runtime Script}, rs[rt]? = some r → r.status ≠ .ended →
      ∃ r₀, h.runtimes[rt]? = some r₀ ∧ r₀.status ≠ .ended ∧ r₀.observer = r.observer ∧ r.observer ≠ id) :
    Watched { h with page := (h.page.disconnect id).2, runtimes := rs } := by
  have hsub : h.page.observers.filter (·.1 != id) ⊆ h.page.observers := List.filter_subset_self _
  refine ⟨fun {rt r} hr hne => ?_, ?_, fun o ho => hw.issued o (hsub ho), fun i hi => ?_⟩
  · obtain ⟨r₀, hr₀, hne₀, e, hid⟩ := hrs hr hne
    exact List.mem_filter.mpr ⟨e ▸ hw.told hr₀ hne₀, bne_iff_ne.mpr hid⟩
  · exact hw.distinct.sublist (List.filter_sublist.map _)
  · obtain ⟨hle, hscript⟩ := hw.scripts i hi
    exact ⟨hle, fun o ho => hscript o (hsub ho)⟩

theorem watched_stroke (hs : Stroke h h') (hw : Watched h) : Watched h' := by
  cases hs with
  | aside ha => exact watched_same hw ha.runtimes ha.observers ha.lastObserver ha.scripts
  | start c delay a => exact watched_same hw rfl rfl rfl rfl
  | cancel c id => exact watched_same hw rfl rfl rfl rfl
  | clock => exact watched_same hw rfl rfl rfl rfl
  | observe s =>
    obtain ⟨told, distinct, issued, scripts⟩ := watched_observe hw (.script s)
    refine ⟨told, distinct, issued, fun id hid => ?_⟩
    rcases List.mem_append.mp hid with hid | hid
    · exact scripts id hid
    · cases List.mem_singleton.mp hid
      refine ⟨Nat.le_refl _, fun o ho e => ?_⟩
      rcases List.mem_append.mp ho with ho | ho
      · exact absurd (e ▸ hw.issued o ho) (Nat.not_succ_le_self _)
      · cases List.mem_singleton.mp ho
        exact ⟨s, rfl⟩
  | disconnect hid =>
    refine watched_disconnect hw fun {rt r} hr hne => ⟨r, hr, hne, rfl, fun e => ?_⟩
    obtain ⟨s, hs⟩ := (hw.scripts _ hid).2 _ (hw.told hr hne) e
    cases hs
  | runtime rt hf =>
    refine ⟨fun {rt' r'} hr' hne => ?_, hw.distinct, hw.issued, hw.scripts⟩
    obtain ⟨r, hr, rfl⟩ := modify_eq_some.mp hr'
    split at hne
    · rename_i hrt
      rw [if_pos hrt, (hf r).1]
      exact hw.told hr (mt (hf r).2.mpr hne)
    · rename_i hrt
      rw [if_neg hrt]
      exact hw.told hr hne
  | @enrol r he _ =>
    obtain ⟨told, distinct, issued, scripts⟩ := watched_observe hw (.runtime h.runtimes.length)
    refine ⟨fun {rt r'} hr' hne => ?_, distinct, issued, scripts⟩
    rcases append_eq_some.mp hr' with hr' | ⟨rfl, rfl⟩
    · exact told hr' hne
    · rw [he]
      exact List.mem_append_right _ List.mem_cons_self
  | @conclude rt r hr hne =>
    refine watched_disconnect hw fun {rt' r'} hr' hne' => ?_
    obtain ⟨r₀, hr₀, rfl⟩ := modify_eq_some.mp hr'
    split at hne'
    · exact absurd rfl hne'
    · rename_i hrt
      rw [if_neg hrt]
      refine ⟨r₀, hr₀, hne', rfl, fun e => hrt ?_⟩
      cases hw.unique (hw.told hr hne) (e ▸ hw.told hr₀ hne')
      rfl

/-- Only a runtime that has not ended is told of removals, by the id that it knows. -/
def Unwatched (h : Host) : Prop :=
  ∀ id rt, (id, Observer.runtime rt) ∈ h.page.observers →
    ∃ r, h.runtimes[rt]? = some r ∧ r.observer = id ∧ r.status ≠ .ended

theorem unwatched_stroke (hs : Stroke h h') (hu : Unwatched h) : Unwatched h' := by
  cases hs with
  | aside ha =>
    unfold Unwatched
    rw [ha.runtimes, ha.observers]
    exact hu
  | start c delay a => exact hu
  | cancel c id => exact hu
  | clock => exact hu
  | observe s =>
    intro id rt ho
    rcases List.mem_append.mp ho with ho | ho
    · exact hu id rt ho
    · cases List.mem_singleton.mp ho
  | disconnect hid => exact fun id rt ho => hu id rt (List.mem_of_mem_filter ho)
  | runtime rt hf =>
    intro id rt' ho
    obtain ⟨r, hr, e, hne⟩ := hu id rt' ho
    refine ⟨_, modify_eq_some.mpr ⟨r, hr, rfl⟩, ?_⟩
    split
    · exact ⟨(hf r).1.trans e, mt (hf r).2.mp hne⟩
    · exact ⟨e, hne⟩
  | @enrol r he hheld =>
    intro id rt ho
    rcases List.mem_append.mp ho with ho | ho
    · obtain ⟨r₀, hr₀, e, hne⟩ := hu id rt ho
      exact ⟨r₀, append_eq_some.mpr (.inl hr₀), e, hne⟩
    · cases List.mem_singleton.mp ho
      exact ⟨r, append_eq_some.mpr (.inr ⟨rfl, rfl⟩), he, by rw [hheld]; decide⟩
  | @conclude rt r hr hne =>
    intro id rt' ho
    obtain ⟨ho, hid⟩ := List.mem_filter.mp ho
    obtain ⟨r', hr', e, hne'⟩ := hu id rt' ho
    have hother : rt ≠ rt' := by
      rintro rfl
      cases hr.symm.trans hr'
      exact bne_iff_ne.mp hid e.symm
    exact ⟨r', modify_eq_some.mpr ⟨r', hr', (if_neg hother).symm⟩, e, hne'⟩

/-! ## Sessions -/

theorem lasts_watched (tr : History) : Lasts Watched tr where
  stroke := watched_stroke
  ring _ hw := watched_same hw rfl rfl rfl rfl
  pass _ _ hw := watched_same hw rfl rfl rfl rfl

theorem lasts_unwatched (tr : History) : Lasts Unwatched tr where
  stroke := unwatched_stroke
  ring _ hu := hu
  pass _ _ hu := hu

theorem watched_new (url : String) (globals : Globals) (scopes : List Value) : Watched (.new url globals scopes) where
  told hr := nomatch hr
  distinct := List.nodup_nil
  issued _ ho := nomatch ho
  scripts _ hid := nomatch hid

theorem unwatched_new (url : String) (globals : Globals) (scopes : List Value) :
    Unwatched (.new url globals scopes) := fun _ _ ho => nomatch ho

/-- At every moment of a session, every runtime that has not ended is told of removals. -/
theorem session_watched (depth : Nat) (as : List Action) (url : String) (globals : Globals) (scopes : List Value) :
    ∀ m ∈ (play depth as (.new url globals scopes) []).2, Watched m.host :=
  (session_chained depth as (.new url globals scopes)).always (lasts_watched _) (watched_new url globals scopes)

/-- After a session that comes back, a runtime that has ended is told of removals no longer. -/
theorem session_unwatched {depth : Nat} {as : List Action} {url : String} {globals : Globals} {scopes : List Value}
    (e : (play depth as (.new url globals scopes) []).1 = some h) : Unwatched h :=
  session_lasts lasts_unwatched (unwatched_new url globals scopes) e

end Eventful.Host
