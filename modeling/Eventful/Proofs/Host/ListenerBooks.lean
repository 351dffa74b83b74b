import Eventful.Proofs.Host.Books

/-
  Eventful.Proofs.Host.ListenerBooks — the listeners of bindings and trackers stay accounted for.

  Every edit of a host does one of three things to its listeners: nothing, while the other
  tables change (`retable`), one more (`add`), or some fewer (`remove`). What the edits
  are follows from these: a binding comes or goes, a tracker installs itself or is reset.
-/

namespace Eventful.Host

open Page Binding

variable {F : Nat → Prop} {rs rs' : Runtimes} {ts ts' : List (Tracker Waiter)} {g : Globals}
  {ls ls' : Listeners Reaction} {rt k : Nat}

namespace ListenerBooks

/-- Bindings come that have no listener, and nothing that has one changes. -/
theorem retable (h : ListenerBooks F rs ts g ls)
    (back : ∀ {rt b'}, Binds rs' rt b' → (∃ b, Binds rs rt b ∧ Same b b') ∨
      (b'.plan.isOutside = true ∧ b'.listener = none ∧ g.has (b'.plan.place.target b'.element) = true))
    (forth : ∀ {rt b}, Binds rs rt b → ∃ b', Binds rs' rt b' ∧ Same b b')
    (installed : ∀ k, (trackerAt ts' k).installed = (trackerAt ts k).installed)
    (owns : ∀ {rt k}, Owns rs' rt k → Owns rs rt k ∨ (trackerAt ts k).installed = []) :
    ListenerBooks F rs' ts' g ls where
  sound := h.sound
  backed hl ha := by
    obtain ⟨b, hb, hfits⟩ := h.backed hl ha
    obtain ⟨b', hb', e⟩ := forth hb
    exact ⟨b', hb', hfits.congr e⟩
  mine hb hid := by
    rcases back hb with ⟨b₀, h₀, e⟩ | ⟨-, hn, -⟩
    · rw [e.id]
      exact h.mine h₀ (e.listener ▸ hid)
    · rw [hn] at hid; cases hid
  filed hF hb hin := by
    rcases back hb with ⟨b₀, h₀, e⟩ | ⟨ho, -, -⟩
    · obtain ⟨t, l, hl, hfits⟩ := h.filed hF h₀ (e.plan ▸ hin)
      exact ⟨t, l, hl, hfits.congr e⟩
    · rw [ho] at hin; cases hin
  present hb := by
    rcases back hb with ⟨b₀, h₀, e⟩ | ⟨-, -, hg⟩
    · rw [e.plan, e.element]
      exact h.present h₀
    · exact hg
  serves hl ha := by
    rw [installed]
    exact h.serves hl ha
  theirs hi := by
    rw [installed] at hi
    exact h.theirs hi
  standing hF ho hi := by
    rw [installed] at hi
    rcases owns ho with ho | hn
    · exact h.standing hF ho hi
    · rw [hn] at hi; cases hi

/-- One more listener, and a binding or an installation that it is for. -/
theorem add (h : ListenerBooks F rs ts g ls) {t : Target} {event : String} {o : Options} {a : Reaction}
    (back : ∀ {rt b}, Binds rs' rt b → Binds rs rt b ∨
      (Fits rt b t ⟨ls.lastId + 1, event, o, a⟩ ∧ g.has t = true))
    (forth : ∀ {rt b}, Binds rs rt b → Binds rs' rt b)
    (binding : ∀ {rt id}, a = .binding rt id → ∃ b, Binds rs' rt b ∧ Fits rt b t ⟨ls.lastId + 1, event, o, a⟩)
    (owns : ∀ {rt k}, Owns rs' rt k → Owns rs rt k)
    (old : ∀ {k e}, e ∈ (trackerAt ts k).installed → e ∈ (trackerAt ts' k).installed)
    (tracker : ∀ {k}, a = .tracker k →
      t = .document ∧ o = capturing ∧ (event, ls.lastId + 1) ∈ (trackerAt ts' k).installed)
    (installed : ∀ {k e}, e ∈ (trackerAt ts' k).installed →
      e ∈ (trackerAt ts k).installed ∨ (a = .tracker k ∧ e = (event, ls.lastId + 1))) :
    ListenerBooks F rs' ts' g (ls.add t event o a).2 where
  sound := Listeners.sound_add h.sound t event o a
  backed hl ha := by
    rcases Listeners.stands_add.mp hl with hl | ⟨rfl, rfl⟩
    · obtain ⟨b, hb, hfits⟩ := h.backed hl ha
      exact ⟨b, forth hb, hfits⟩
    · exact binding ha
  mine {rt b id} hb hid := by
    rw [Listeners.add_lastId]
    rcases back hb with hb | ⟨hfits, -⟩
    · obtain ⟨hle, hm⟩ := h.mine hb hid
      refine ⟨by omega, fun hl e => ?_⟩
      rcases Listeners.stands_add.mp hl with hl | ⟨rfl, rfl⟩
      · exact hm hl e
      · simp only at e; omega
    · have hid' : id = ls.lastId + 1 := Option.some.inj (hid.symm.trans hfits.listener)
      refine ⟨by omega, fun hl e => ?_⟩
      rcases Listeners.stands_add.mp hl with hl | ⟨rfl, rfl⟩
      · have := h.sound.issued hl; omega
      · exact hfits.action
  filed hF hb hin := by
    rcases back hb with hb | ⟨hfits, -⟩
    · obtain ⟨t', l, hl, hfits⟩ := h.filed hF hb hin
      exact ⟨t', l, Listeners.stands_add.mpr (.inl hl), hfits⟩
    · exact ⟨t, _, Listeners.stands_add.mpr (.inr ⟨rfl, rfl⟩), hfits⟩
  present hb := by
    rcases back hb with hb | ⟨hfits, hg⟩
    · exact h.present hb
    · rw [← hfits.target]; exact hg
  serves hl ha := by
    rcases Listeners.stands_add.mp hl with hl | ⟨rfl, rfl⟩
    · obtain ⟨ht, ho, hi⟩ := h.serves hl ha
      exact ⟨ht, ho, old hi⟩
    · exact tracker ha
  theirs {k name id} hi := by
    rw [Listeners.add_lastId]
    rcases installed hi with hi | ⟨ha, e⟩
    · obtain ⟨hle, hm⟩ := h.theirs hi
      refine ⟨by omega, fun hl e => ?_⟩
      rcases Listeners.stands_add.mp hl with hl | ⟨rfl, rfl⟩
      · exact hm hl e
      · simp only at e; omega
    · cases e
      refine ⟨Nat.le_refl _, fun hl e => ?_⟩
      rcases Listeners.stands_add.mp hl with hl | ⟨rfl, rfl⟩
      · have := h.sound.issued hl; omega
      · exact ha
  standing hF ho hi := by
    rcases installed hi with hi | ⟨ha, e⟩
    · exact Listeners.stands_add.mpr (.inl (h.standing hF (owns ho) hi))
    · cases e
      obtain ⟨ht, hopt, -⟩ := tracker ha
      exact Listeners.stands_add.mpr (.inr ⟨ht.symm, by rw [ha, hopt]⟩)

/-- Some listeners go, and the bindings and installations that they were for. -/
theorem remove (h : ListenerBooks F rs ts g ls) {p : Listener Reaction → Bool} (hp : Listeners.Filtered p ls ls')
    (back : ∀ {rt b}, Binds rs' rt b → Binds rs rt b)
    (forth : ∀ {rt b t l}, Binds rs rt b → Fits rt b t l → p l = true → Binds rs' rt b)
    (filed : ∀ {rt b t l}, F rt → Binds rs' rt b → ls.Stands t l → Fits rt b t l → p l = true)
    (owns : ∀ {rt k}, Owns rs' rt k → Owns rs rt k)
    (installed : ∀ {k e}, e ∈ (trackerAt ts' k).installed → e ∈ (trackerAt ts k).installed)
    (serving : ∀ {t l k}, ls.Stands t l → l.action = .tracker k → p l = true →
      (l.event, l.id) ∈ (trackerAt ts k).installed → (l.event, l.id) ∈ (trackerAt ts' k).installed)
    (standing : ∀ {rt k l}, F rt → Owns rs rt k → l.action = .tracker k →
      (l.event, l.id) ∈ (trackerAt ts' k).installed → ls.Stands .document l → p l = true) :
    ListenerBooks F rs' ts' g ls' where
  sound := hp.sound
  backed hl ha := by
    obtain ⟨hl, hpl⟩ := hp.stands.mp hl
    obtain ⟨b, hb, hfits⟩ := h.backed hl ha
    exact ⟨b, forth hb hfits hpl, hfits⟩
  mine hb hid := by
    rw [hp.lastId]
    obtain ⟨hle, hm⟩ := h.mine (back hb) hid
    exact ⟨hle, fun hl e => hm (hp.stands.mp hl).1 e⟩
  filed hF hb hin := by
    obtain ⟨t, l, hl, hfits⟩ := h.filed hF (back hb) hin
    exact ⟨t, l, hp.stands.mpr ⟨hl, filed hF hb hl hfits⟩, hfits⟩
  present hb := h.present (back hb)
  serves hl ha := by
    obtain ⟨hl, hpl⟩ := hp.stands.mp hl
    obtain ⟨ht, ho, hi⟩ := h.serves hl ha
    exact ⟨ht, ho, serving hl ha hpl hi⟩
  theirs hi := by
    rw [hp.lastId]
    obtain ⟨hle, hm⟩ := h.theirs (installed hi)
    exact ⟨hle, fun hl e => hm (hp.stands.mp hl).1 e⟩
  standing hF ho hi := by
    have hl := h.standing hF (owns ho) (installed hi)
    exact hp.stands.mpr ⟨hl, standing hF (owns ho) rfl hi hl⟩

/-! ## Edits of runtimes and trackers alone -/

theorem alike (h : ListenerBooks F rs ts g ls) (ha : AlikeTables (AlikeBound Same) rs rs') :
    ListenerBooks F rs' ts g ls :=
  h.retable (fun hb => .inl (binds_of ha hb)) (fun hb => binds_to ha hb) (fun _ => rfl)
    fun ho => .inl ((owns_iff (ha.mono fun _ _ => alikeBound_parts)).mp ho)

theorem trackers (h : ListenerBooks F rs ts g ls)
    (installed : ∀ k, (trackerAt ts' k).installed = (trackerAt ts k).installed) : ListenerBooks F rs ts' g ls :=
  h.retable (fun hb => .inl ⟨_, hb, .rfl⟩) (fun hb => ⟨_, hb, .rfl⟩) installed .inl

theorem addRuntime (h : ListenerBooks F rs ts g ls) {r : Runtime Script} (hr : r.bindings = [])
    (installed : ∀ k, (trackerAt ts' k).installed = (trackerAt ts k).installed)
    (fresh : r.ownsTracker = true → (trackerAt ts r.tracker).installed = []) : ListenerBooks F (rs ++ [r]) ts' g ls :=
  h.retable (fun hb => .inl ⟨_, (binds_append hr).mp hb, .rfl⟩) (fun hb => ⟨_, (binds_append hr).mpr hb, .rfl⟩) installed
    fun ho => (owns_append.mp ho).imp_right fun ⟨_, ho, e⟩ => e ▸ fresh ho

/-! ## Binding and unbinding -/

theorem bindInside (h : ListenerBooks F rs ts g ls) {r : Runtime Script} (hr : rs[rt]? = some r) {b : Bound}
    (hin : b.plan.isOutside = false) (hl : b.listener = some (ls.lastId + 1))
    (hg : g.has (b.plan.place.target b.element) = true) :
    ListenerBooks F (rs.modify rt (·.with1 b)) ts g
      (ls.add (b.plan.place.target b.element) b.plan.event b.plan.options (.binding rt b.id)).2 := by
  have hfits : Fits rt b (b.plan.place.target b.element) ⟨ls.lastId + 1, b.plan.event, b.plan.options, .binding rt b.id⟩ :=
    ⟨hin, rfl, hl, rfl, rfl, rfl⟩
  refine h.add ?_ ?_ ?_ ?_ id ?_ .inl
  · intro rt' b' hb
    rcases (binds_with1 hr).mp hb with hb | ⟨rfl, rfl⟩
    · exact .inl hb
    · exact .inr ⟨hfits, hg⟩
  · exact fun hb => (binds_with1 hr).mpr (.inl hb)
  · rintro rt' id e
    cases e
    exact ⟨b, (binds_with1 hr).mpr (.inr ⟨rfl, rfl⟩), hfits⟩
  · exact fun ho => (owns_iff (with1_parts rs rt b)).mp ho
  · rintro k e; cases e

theorem bindOutside (h : ListenerBooks F rs ts g ls) {r : Runtime Script} (hr : rs[rt]? = some r) {b : Bound}
    (ho : b.plan.isOutside = true) (hl : b.listener = none) (hg : g.has (b.plan.place.target b.element) = true) :
    ListenerBooks F (rs.modify rt (·.with1 b)) ts g ls := by
  refine h.retable ?_ ?_ (fun _ => rfl) ?_
  · intro rt' b' hb
    rcases (binds_with1 hr).mp hb with hb | ⟨rfl, rfl⟩
    · exact .inl ⟨b', hb, .rfl⟩
    · exact .inr ⟨ho, hl, hg⟩
  · exact fun hb => ⟨_, (binds_with1 hr).mpr (.inl hb), .rfl⟩
  · exact fun ho => .inl ((owns_iff (with1_parts rs rt b)).mp ho)

/-- Bindings of one runtime go with their listeners. -/
theorem unbind (h : ListenerBooks F rs ts g ls) (gone : Bound → Prop) {p : Listener Reaction → Bool}
    (hp : Listeners.Filtered p ls ls') (hparts : AlikeTables SameParts rs rs')
    (binds : ∀ {rt' b}, Binds rs' rt' b ↔ Binds rs rt' b ∧ ¬(rt' = rt ∧ gone b))
    (hid : ∀ {b b'}, Binds rs rt b → gone b → Binds rs rt b' → b'.id = b.id → gone b')
    (hgone : ∀ {l}, p l = false ↔ ∃ b, Binds rs rt b ∧ gone b ∧ b.listener = some l.id) :
    ListenerBooks F rs' ts g ls' := by
  refine h.remove hp (fun hb => (binds.mp hb).1) ?_ ?_ (fun ho => (owns_iff hparts).mp ho) id (fun _ _ _ hi => hi) ?_
  · intro rt' b t l hb hfits hpl
    refine binds.mpr ⟨hb, ?_⟩
    rintro ⟨rfl, hg⟩
    rw [hgone.mpr ⟨b, hb, hg, hfits.listener⟩] at hpl
    cases hpl
  · intro rt' b t l _ hb hl hfits
    refine Bool.of_not_eq_false fun hpl => ?_
    obtain ⟨b₀, h₀, hg, hl₀⟩ := hgone.mp hpl
    have ha := (h.mine h₀ hl₀).2 hl rfl
    rw [hfits.action] at ha
    simp only [Reaction.binding.injEq] at ha
    obtain ⟨hb, hne⟩ := binds.mp hb
    exact hne ⟨ha.1, hid h₀ hg (ha.1 ▸ hb) ha.2⟩
  · intro rt' k l _ _ ha _ hl
    refine Bool.of_not_eq_false fun hpl => ?_
    obtain ⟨b₀, h₀, -, hl₀⟩ := hgone.mp hpl
    have ha' := (h.mine h₀ hl₀).2 hl rfl
    rw [ha] at ha'
    cases ha'

/-! ## Scripts and trackers -/

theorem addScript (h : ListenerBooks F rs ts g ls) (t : Target) (event : String) (o : Options) (s : Script) :
    ListenerBooks F rs ts g (ls.add t event o (.script s)).2 :=
  h.add .inl id (fun e => by cases e) id id (fun e => by cases e) .inl

/-- The listener is none that a runtime of `F` needs. -/
structure Unneeded (F : Nat → Prop) (rs : Runtimes) (l : Listener Reaction) : Prop where
  binding : ∀ {rt id}, l.action = .binding rt id → ¬F rt
  tracker : ∀ {rt k}, l.action = .tracker k → F rt → ¬Owns rs rt k

theorem removeUnneeded (h : ListenerBooks F rs ts g ls) (id : Nat)
    (hu : ∀ {t l}, ls.Stands t l → l.id = id → Unneeded F rs l) : ListenerBooks F rs ts g (ls.remove id).2 := by
  refine h.remove (Listeners.filtered_remove h.sound id) (fun hb => hb) (fun hb _ _ => hb) ?_ (fun ho => ho)
    (fun hi => hi) (fun _ _ _ hi => hi) ?_
  · intro rt b t l hF _ hl hfits
    refine bne_iff_ne.mpr fun e => (hu hl e).binding hfits.action hF
  · intro rt k l hF ho ha _ hl
    exact bne_iff_ne.mpr fun e => (hu hl e).tracker ha hF ho

/-- A tracker listens for one more event name. -/
theorem install (h : ListenerBooks F rs ts g ls) (event : String)
    (same : ∀ {k'}, k' ≠ k → (trackerAt ts' k').installed = (trackerAt ts k').installed)
    (one : (trackerAt ts' k).installed = (trackerAt ts k).installed ++ [(event, ls.lastId + 1)]) :
    ListenerBooks F rs ts' g (ls.add .document event capturing (.tracker k)).2 := by
  refine h.add .inl id (fun e => by cases e) id ?_ ?_ ?_
  · intro k' e he
    by_cases hk : k' = k
    · subst hk; rw [one]; exact List.mem_append_left _ he
    · rw [same hk]; exact he
  · rintro k' e
    cases e
    rw [one]
    exact ⟨rfl, rfl, List.mem_append_right _ List.mem_cons_self⟩
  · intro k' e he
    by_cases hk : k' = k
    · subst hk
      rw [one] at he
      rcases List.mem_append.mp he with he | he
      · exact .inl he
      · exact .inr ⟨rfl, List.mem_singleton.mp he⟩
    · rw [same hk] at he; exact .inl he

/-- A tracker removes all its listeners. -/
theorem reset (h : ListenerBooks F rs ts g ls) {p : Listener Reaction → Bool} (hp : Listeners.Filtered p ls ls')
    (hgone : ∀ {l}, p l = false ↔ ∃ name, (name, l.id) ∈ (trackerAt ts k).installed)
    (same : ∀ {k'}, k' ≠ k → (trackerAt ts' k').installed = (trackerAt ts k').installed)
    (none : (trackerAt ts' k).installed = []) : ListenerBooks F rs ts' g ls' := by
  refine h.remove hp (fun hb => hb) (fun hb _ _ => hb) ?_ (fun ho => ho) ?_ ?_ ?_
  · intro rt b t l _ _ hl hfits
    refine Bool.of_not_eq_false fun hpl => ?_
    obtain ⟨name, hi⟩ := hgone.mp hpl
    have ha := (h.theirs hi).2 hl rfl
    rw [hfits.action] at ha
    cases ha
  · intro k' e he
    by_cases hk : k' = k
    · subst hk; rw [none] at he; cases he
    · rw [same hk] at he; exact he
  · intro t l k' _ _ hpl hi
    by_cases hk : k' = k
    · subst hk
      rw [hgone.mpr ⟨_, hi⟩] at hpl
      cases hpl
    · rw [same hk]; exact hi
  · intro rt k' l _ _ ha hi hl
    have hk : k' ≠ k := by rintro rfl; rw [none] at hi; cases hi
    refine Bool.of_not_eq_false fun hpl => ?_
    obtain ⟨name, hi'⟩ := hgone.mp hpl
    have ha' := (h.theirs hi').2 hl rfl
    rw [ha] at ha'
    cases ha'
    exact hk rfl

end ListenerBooks
end Eventful.Host
