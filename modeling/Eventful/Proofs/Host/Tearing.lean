import Eventful.Proofs.Host.Sharing

/-
  Eventful.Proofs.Host.Tearing — bindings go, of any number and of any runtime.

  `Torn` says of two hosts that some bindings are gone from the tables, and what was
  registered for them from the page, the trackers and the clocks; nothing else is
  different, and what stays keeps its order. It composes, so what holds of one unbinding
  holds of the unbinding of many.

  A listener and a timer say whose they are, so they go with their own binding alone. The
  entries of a tracker go by the ids of their bindings.
-/

namespace Eventful.Host

open Page Binding

variable {α : Type} {F : Nat → Prop} {h h₁ h' : Host} {rt : Nat} {b : Bound} {as as' as'' : List α} {P P' : α → Prop}
  {Q Q' : Nat → Bound → Prop}

/-- The list without what has the property. -/
def RidOf (P : α → Prop) (as as' : List α) : Prop :=
  ∃ p : α → Bool, as' = as.filter p ∧ ∀ a ∈ as, p a = true ↔ ¬P a

theorem ridOf_none (hP : ∀ a ∈ as, ¬P a) : RidOf P as as :=
  ⟨fun _ => true, (List.filter_eq_self.mpr fun _ _ => rfl).symm, fun a ha => ⟨fun _ => hP a ha, fun _ => rfl⟩⟩

theorem RidOf.congr (hr : RidOf P as as') (hP : ∀ a ∈ as, P a ↔ P' a) : RidOf P' as as' := by
  obtain ⟨p, has, hp⟩ := hr
  exact ⟨p, has, fun a ha => (hp a ha).trans (not_congr (hP a ha))⟩

theorem RidOf.mem (hr : RidOf P as as') {a : α} : a ∈ as' ↔ a ∈ as ∧ ¬P a := by
  obtain ⟨p, rfl, hp⟩ := hr
  rw [List.mem_filter]
  exact and_congr_right fun ha => hp a ha

theorem RidOf.trans (hr : RidOf P as as') (hr' : RidOf P' as' as'') : RidOf (fun a => P a ∨ P' a) as as'' := by
  obtain ⟨p, rfl, hp⟩ := hr
  obtain ⟨p', rfl, hp'⟩ := hr'
  refine ⟨fun a => p' a && p a, List.filter_filter, fun a ha => ?_⟩
  rw [Bool.and_eq_true, not_or]
  constructor
  · intro ⟨h₁, h₀⟩
    exact ⟨(hp a ha).mp h₀, (hp' a (List.mem_filter.mpr ⟨ha, h₀⟩)).mp h₁⟩
  · intro ⟨hn, hn'⟩
    have h₀ := (hp a ha).mpr hn
    exact ⟨(hp' a (List.mem_filter.mpr ⟨ha, h₀⟩)).mpr hn', h₀⟩

/-- Some binding that goes is such. -/
def SomeGoes (Q : Nat → Bound → Prop) (h : Host) (A : Nat → Bound → Prop) : Prop :=
  ∃ rt b, Binds h.runtimes rt b ∧ Q rt b ∧ A rt b

/-- `h'` is `h` without the bindings that have the property, and without what was registered
    for them. -/
structure Torn (Q : Nat → Bound → Prop) (h h' : Host) : Prop where
  frame : ∃ ls rs ts cs log, h' = { h.setListeners ls with runtimes := rs, trackers := ts, clocks := cs, log }
  count : h'.runtimes.length = h.runtimes.length
  rows : ∀ {rt : Nat} {r : Runtime Script}, h.runtimes[rt]? = some r →
    ∃ bs leaving, h'.runtimes[rt]? = some { r with bindings := bs, leaving } ∧ RidOf (Q rt) r.bindings bs
  listeners : ∀ t, RidOf (fun l => SomeGoes Q h fun rt b => l.action = .binding rt b.id) (h.page.listeners.of t)
    (h'.page.listeners.of t)
  issued : h'.page.listeners.lastId = h.page.listeners.lastId
  trackers : ∀ k, h'.tracker k = { h.tracker k with entries := (h'.tracker k).entries }
  entries : ∀ k,
    TakenOut (fun id => SomeGoes Q h fun rt b => Uses h.runtimes rt k ∧ b.plan.isOutside = true ∧ b.id = id)
      (h.tracker k).entries (h'.tracker k).entries
  clocks : ∀ c, h'.clock c = { h.clock c with timers := (h'.clock c).timers }
  timers : ∀ c, RidOf (fun t => SomeGoes Q h fun rt b => ∃ e, t.action = .binding rt b.id e) (h.clock c).timers
    (h'.clock c).timers

/-! ## Composing -/

theorem someGoes_none (hQ : ∀ {rt b}, Binds h.runtimes rt b → ¬Q rt b) {A : Nat → Bound → Prop} : ¬SomeGoes Q h A :=
  fun ⟨_, _, hb, hq, _⟩ => hQ hb hq

theorem someGoes_congr (hQ : ∀ {rt b}, Binds h.runtimes rt b → (Q rt b ↔ Q' rt b)) {A : Nat → Bound → Prop} :
    SomeGoes Q h A ↔ SomeGoes Q' h A :=
  exists_congr fun _ => exists_congr fun _ => and_congr_right fun hb => and_congr_left fun _ => hQ hb

theorem torn_none (hQ : ∀ {rt b}, Binds h.runtimes rt b → ¬Q rt b) : Torn Q h h where
  frame := ⟨_, _, _, _, _, rfl⟩
  count := rfl
  rows {_ r} hr := ⟨r.bindings, r.leaving, hr, ridOf_none fun _ hb => hQ ⟨r, hr, hb⟩⟩
  listeners _ := ridOf_none fun _ _ => someGoes_none hQ
  issued := rfl
  trackers _ := rfl
  entries _ := takenOut_none fun _ => someGoes_none hQ
  clocks _ := rfl
  timers _ := ridOf_none fun _ _ => someGoes_none hQ

theorem Torn.congr (ht : Torn Q h h') (hQ : ∀ {rt b}, Binds h.runtimes rt b → (Q rt b ↔ Q' rt b)) : Torn Q' h h' where
  frame := ht.frame
  count := ht.count
  rows {_ r} hr := by
    obtain ⟨bs, leaving, hr', hrid⟩ := ht.rows hr
    exact ⟨bs, leaving, hr', hrid.congr fun _ hb => hQ ⟨r, hr, hb⟩⟩
  listeners t := (ht.listeners t).congr fun _ _ => someGoes_congr hQ
  issued := ht.issued
  trackers := ht.trackers
  entries k := (ht.entries k).congr fun _ => someGoes_congr hQ
  clocks := ht.clocks
  timers c := (ht.timers c).congr fun _ _ => someGoes_congr hQ

theorem Torn.row (ht : Torn Q h h') {r' : Runtime Script} (hr' : h'.runtimes[rt]? = some r') :
    ∃ r bs leaving, h.runtimes[rt]? = some r ∧ r' = { r with bindings := bs, leaving } ∧
      RidOf (Q rt) r.bindings bs := by
  have hlt : rt < h.runtimes.length := ht.count ▸ (List.getElem?_eq_some_iff.mp hr').1
  obtain ⟨bs, leaving, e, hrid⟩ := ht.rows (List.getElem?_eq_getElem hlt)
  exact ⟨_, bs, leaving, List.getElem?_eq_getElem hlt, Option.some.inj (hr'.symm.trans e), hrid⟩

theorem Torn.binds (ht : Torn Q h h') : Binds h'.runtimes rt b ↔ Binds h.runtimes rt b ∧ ¬Q rt b := by
  constructor
  · rintro ⟨r', hr', hb⟩
    obtain ⟨r, bs, leaving, hr, rfl, hrid⟩ := ht.row hr'
    obtain ⟨hb, hn⟩ := hrid.mem.mp hb
    exact ⟨⟨r, hr, hb⟩, hn⟩
  · rintro ⟨⟨r, hr, hb⟩, hn⟩
    obtain ⟨bs, leaving, hr', hrid⟩ := ht.rows hr
    exact ⟨_, hr', hrid.mem.mpr ⟨hb, hn⟩⟩

theorem Torn.uses (ht : Torn Q h h') {k : Nat} : Uses h'.runtimes rt k ↔ Uses h.runtimes rt k := by
  constructor
  · rintro ⟨r', hr', hk⟩
    obtain ⟨r, bs, leaving, hr, rfl, -⟩ := ht.row hr'
    exact ⟨r, hr, hk⟩
  · rintro ⟨r, hr, hk⟩
    obtain ⟨bs, leaving, hr', -⟩ := ht.rows hr
    exact ⟨_, hr', hk⟩

/-- Some go first, and of those that are left some go then. -/
theorem Torn.someGoes (ht : Torn Q h h₁) {A A' : Nat → Bound → Prop} (hA : ∀ rt b, A' rt b ↔ A rt b) :
    SomeGoes Q h A ∨ SomeGoes Q' h₁ A' ↔ SomeGoes (fun rt b => Q rt b ∨ Q' rt b) h A := by
  constructor
  · rintro (⟨rt, b, hb, hq, ha⟩ | ⟨rt, b, hb, hq, ha⟩)
    · exact ⟨rt, b, hb, .inl hq, ha⟩
    · exact ⟨rt, b, (ht.binds.mp hb).1, .inr hq, (hA rt b).mp ha⟩
  · rintro ⟨rt, b, hb, hq, ha⟩
    by_cases hgone : Q rt b
    · exact .inl ⟨rt, b, hb, hgone, ha⟩
    · exact .inr ⟨rt, b, ht.binds.mpr ⟨hb, hgone⟩, hq.resolve_left hgone, (hA rt b).mpr ha⟩

theorem Torn.trans (ht : Torn Q h h₁) (ht' : Torn Q' h₁ h') : Torn (fun rt b => Q rt b ∨ Q' rt b) h h' where
  frame := by
    obtain ⟨ls, rs, ts, cs, log, rfl⟩ := ht.frame
    obtain ⟨ls', rs', ts', cs', log', rfl⟩ := ht'.frame
    exact ⟨ls', rs', ts', cs', log', rfl⟩
  count := ht'.count.trans ht.count
  rows hr := by
    obtain ⟨bs, leaving, hr₁, hrid⟩ := ht.rows hr
    obtain ⟨bs', leaving', hr', hrid'⟩ := ht'.rows hr₁
    exact ⟨bs', leaving', hr', hrid.trans hrid'⟩
  listeners t := ((ht.listeners t).trans (ht'.listeners t)).congr fun _ _ => ht.someGoes fun _ _ => Iff.rfl
  issued := ht'.issued.trans ht.issued
  trackers k := by rw [ht'.trackers k, ht.trackers k]
  entries k := ((ht.entries k).trans (ht'.entries k)).congr fun _ =>
    ht.someGoes fun _ _ => and_congr_left fun _ => ht.uses
  clocks c := by rw [ht'.clocks c, ht.clocks c]
  timers c := ((ht.timers c).trans (ht'.timers c)).congr fun _ _ => ht.someGoes fun _ _ => Iff.rfl

/-! ## Whose a listener or a timer is -/

/-- What goes by the listener id of a binding is the binding's. -/
theorem Books.heard_iff (hb : Books F h) (hbound : Binds h.runtimes rt b) {t : Target} {l : Listener Reaction}
    (hl : h.page.listeners.Stands t l) : b.listener = some l.id ↔ l.action = .binding rt b.id := by
  constructor
  · exact fun he => (hb.listeners.mine hbound he).2 hl rfl
  · intro ha
    obtain ⟨b', hb', hfits⟩ := hb.listeners.backed hl ha
    have hid : b'.id = b.id := by
      have := hfits.action.symm.trans ha
      injection this
    cases keeps_unique hb.runtimes hb'.keeps hbound.keeps hid
    exact hfits.listener

theorem Books.timed_iff (hb : Books F h) (hbound : Binds h.runtimes rt b) {c : Nat} {t : Timer Alarm}
    (ht : t ∈ (h.clock c).timers) :
    (Ticks h.runtimes rt c ∧ b.waiting = some t.id) ↔ ∃ e, t.action = .binding rt b.id e := by
  constructor
  · exact fun ⟨htick, hw⟩ => (hb.timers.mine hbound.keeps htick hw).2 ht rfl
  · intro ⟨e, ha⟩
    obtain ⟨b', hb', htick, hid, hw⟩ := hb.timers.backed ht ha
    cases keeps_unique hb.runtimes hb' hbound.keeps hid
    exact ⟨htick, hw⟩

/-! ## Unbinding -/

theorem row_without {rs : Runtimes} {rt' : Nat} {r : Runtime Script} (hr : rs[rt']? = some r) {id : Nat} :
    ∃ bs leaving, (rs.modify rt (·.without id))[rt']? = some { r with bindings := bs, leaving } ∧
      RidOf (fun b => rt' = rt ∧ b.id = id) r.bindings bs := by
  by_cases hrt : rt = rt'
  · refine ⟨_, _, modify_eq_some.mpr ⟨r, hr, (if_pos hrt).symm⟩, _, rfl, fun b _ => ?_⟩
    rw [bne_iff_ne]
    exact not_congr (and_iff_right hrt.symm).symm
  · exact ⟨_, _, modify_eq_some.mpr ⟨r, hr, (if_neg hrt).symm⟩, ridOf_none fun _ _ hgoes => hrt hgoes.1.symm⟩

theorem torn_unbind (hb : Books F h) (rt id : Nat) :
    Torn (fun rt' b => rt' = rt ∧ b.id = id) h (h.unbind rt id).2 := by
  have hentries := takenOut_unbind hb.runtimes rt id
  rcases unbind_cases hb.runtimes rt id with ⟨e, hn⟩ | ⟨r, b, hr, hbr, rfl, e⟩
  · rw [e]
    exact torn_none fun hbound ⟨hrt, hid⟩ => hn _ (hrt ▸ hbound) hid
  · rw [e] at hentries ⊢
    have hbound : Binds h.runtimes rt b := ⟨r, hr, hbr⟩
    have hw := withdrawn_one r b (h.editRuntime rt (·.without b.id))
    -- What goes is this binding alone.
    have hone : ∀ A : Nat → Bound → Prop, SomeGoes (fun rt' b' => rt' = rt ∧ b'.id = b.id) h A ↔ A rt b := by
      intro A
      constructor
      · rintro ⟨_, b', hb', ⟨rfl, hid⟩, ha⟩
        cases keeps_unique hb.runtimes hb'.keeps hbound.keeps hid
        exact ha
      · exact fun ha => ⟨rt, b, hbound, ⟨rfl, rfl⟩, ha⟩
    have hlisteners := hw.listeners hb.listeners.sound
    have htracker := hw.tracker
    have hclock := hw.clock
    obtain ⟨ls, ts, cs, e'⟩ := hw.shape
    rw [e'] at hentries hlisteners htracker hclock ⊢
    simp only [List.any_cons, List.any_nil, Bool.or_false] at hlisteners htracker hclock
    refine ⟨⟨ls, _, ts, cs, h.log, rfl⟩, List.length_modify .., fun {rt' r'} hr' => ?_, fun t => ?_, hlisteners.lastId,
      fun k => ?_, fun k => (hentries k).congr fun id => ?_, fun c => ?_, fun c => ?_⟩
    · exact row_without hr'
    · refine ⟨_, hlisteners.of t, fun l hl => ?_⟩
      rw [Bool.not_eq_true', beq_eq_false_iff_ne]
      exact not_congr ((hb.heard_iff hbound hl).trans (hone fun rt b => l.action = .binding rt b.id).symm)
    · show trackerAt ts k = { trackerAt h.trackers k with entries := (trackerAt ts k).entries }
      rw [htracker]
      split <;> rfl
    · rw [hone]
      constructor
      · rintro ⟨huses, b', hb', hid, hout, he⟩
        cases keeps_unique hb.runtimes hb'.keeps hbound.keeps hid
        exact ⟨huses, hout, he⟩
      · exact fun ⟨huses, hout, he⟩ => ⟨huses, b, hbound, rfl, hout, he⟩
    · show clockAt cs c = { clockAt h.clocks c with timers := (clockAt cs c).timers }
      rw [hclock]
      split <;> rfl
    · show RidOf _ (clockAt h.clocks c).timers (clockAt cs c).timers
      rw [hclock]
      split
      · rename_i hc
        refine ⟨_, rfl, fun t ht => ?_⟩
        rw [Bool.not_eq_true', beq_eq_false_iff_ne]
        have hmine := (hone fun rt b => ∃ e, t.action = .binding rt b.id e).symm
        exact not_congr ((and_iff_right ⟨r, hr, hc.symm⟩).symm.trans ((hb.timed_iff hbound ht).trans hmine))
      · rename_i hc
        refine ridOf_none fun t ht hgoes => hc ?_
        obtain ⟨⟨r', hr', hc'⟩, -⟩ := (hb.timed_iff hbound ht).mpr ((hone _).mp hgoes)
        cases hr.symm.trans hr'
        exact hc'.symm

theorem torn_unbindAll (hb : Books F h) (rt : Nat) (ids : List Nat) :
    Torn (fun rt' b => rt' = rt ∧ b.id ∈ ids) h (h.unbindAll rt ids) := by
  induction ids generalizing h with
  | nil => exact torn_none fun _ ⟨_, hid⟩ => List.not_mem_nil hid
  | cons id ids ih =>
    refine ((torn_unbind hb rt id).trans (ih (goes_unbind hb rt id).books)).congr fun _ => ?_
    rw [← and_or_left, List.mem_cons]

theorem torn_unbindElements (hb : Books F h) (rt : Nat) (ns : List NodeId) :
    Torn (fun rt' b => rt' = rt ∧ b.element ∈ ns) h (h.unbindElements rt ns).2 := by
  refine (torn_unbindAll hb rt _).congr fun hbound => and_congr_right fun hrt => ?_
  exact mem_boundTo hb.runtimes (hrt ▸ hbound)

/-! ## What goes and what stays -/

/-- Nothing is known of the binding of this id. -/
structure Forgotten (h : Host) (rt id : Nat) : Prop where
  bindings : ∀ {b}, Binds h.runtimes rt b → b.id ≠ id
  listeners : ∀ {t l}, h.page.listeners.Stands t l → l.action ≠ .binding rt id
  entries : ∀ {k w}, w ∈ (h.tracker k).entries → w.action ≠ .binding rt id
  timers : ∀ {c t e}, t ∈ (h.clock c).timers → t.action ≠ .binding rt id e

/-- The binding is bound as it was, and what is registered for it stays. An entry of a
    tracker that others use as well may go by the id of another binding. -/
structure Untouched (h h' : Host) (rt : Nat) (b : Bound) : Prop where
  binds : Binds h'.runtimes rt b
  listeners : ∀ {t l}, l.action = .binding rt b.id → (h'.page.listeners.Stands t l ↔ h.page.listeners.Stands t l)
  entries : ∀ {k w}, Owns h.runtimes rt k → w.action = .binding rt b.id →
    (w ∈ (h'.tracker k).entries ↔ w ∈ (h.tracker k).entries)
  timers : ∀ {c t e}, t.action = .binding rt b.id e → (t ∈ (h'.clock c).timers ↔ t ∈ (h.clock c).timers)

theorem Torn.forgotten (ht : Torn Q h h') (hb : Books F h) (hbound : Binds h.runtimes rt b) (hq : Q rt b) :
    Forgotten h' rt b.id where
  bindings hb' hid := by
    obtain ⟨hb', hn⟩ := ht.binds.mp hb'
    cases keeps_unique hb.runtimes hb'.keeps hbound.keeps hid
    exact hn hq
  listeners {t _} hl ha := ((ht.listeners t).mem.mp hl).2 ⟨rt, b, hbound, hq, ha⟩
  entries {k w} hw ha := by
    obtain ⟨hw, hn⟩ := (ht.entries k).mem.mp hw
    obtain ⟨b', hb', huses, hout, rfl⟩ := hb.entries.backed hw ha
    injection ha with _ hid
    cases keeps_unique hb.runtimes hb'.keeps hbound.keeps hid
    exact hn ⟨rt, b, hbound, hq, huses, hout, rfl⟩
  timers {c _ e} htimer ha := ((ht.timers c).mem.mp htimer).2 ⟨rt, b, hbound, hq, e, ha⟩

theorem Torn.untouched (ht : Torn Q h h') (hb : Books F h) (hbound : Binds h.runtimes rt b) (hq : ¬Q rt b) :
    Untouched h h' rt b := by
  -- A binding that goes and has the same id is another runtime's.
  have hother : ∀ {rt' b'}, Binds h.runtimes rt' b' → Q rt' b' → b'.id = b.id → rt' ≠ rt := by
    rintro rt' b' hb' hq' hid rfl
    cases keeps_unique hb.runtimes hb'.keeps hbound.keeps hid
    exact hq hq'
  refine ⟨ht.binds.mpr ⟨hbound, hq⟩, fun {t l} ha => ?_, fun {k w} ho ha => ?_, fun {c t e} ha => ?_⟩
  · refine (ht.listeners t).mem.trans (and_iff_left ?_)
    rintro ⟨rt', b', hb', hq', ha'⟩
    injection ha'.symm.trans ha with hrt hid
    exact hother hb' hq' hid hrt
  · refine (ht.entries k).mem.trans (and_iff_left_of_imp fun hw => ?_)
    rintro ⟨rt', b', hb', hq', huses, -, hid⟩
    obtain ⟨b₀, -, -, -, rfl⟩ := hb.entries.backed hw ha
    injection ha with _ hid₀
    exact hother hb' hq' (hid.trans hid₀) (hb.entries.places.alone ho huses)
  · refine (ht.timers c).mem.trans (and_iff_left ?_)
    rintro ⟨rt', b', hb', hq', e', ha'⟩
    injection ha'.symm.trans ha with hrt hid
    exact hother hb' hq' hid hrt

theorem forgotten_of_consistent {r : Runtime Script} {id : Nat} (hc : Consistent h rt r) (hr : h.runtimes[rt]? = some r)
    (hn : ∀ b ∈ r.bindings, b.id ≠ id) : Forgotten h rt id where
  bindings hb hid := by
    obtain ⟨r', hr', hb⟩ := hb
    cases hr.symm.trans hr'
    exact hn _ hb hid
  listeners hl ha := by
    obtain ⟨b, hb, hid, -⟩ := hc.listeners hl ha
    exact hn b hb hid
  entries hw ha := by
    cases hc.elsewhere hw ha
    obtain ⟨b, hb, -, rfl⟩ := hc.entries _ hw
    injection ha with _ hid
    exact hn b hb hid
  timers ht ha := by
    obtain ⟨-, -, b, hb, hid, -⟩ := hc.timers ht ha
    exact hn b hb hid

end Eventful.Host
