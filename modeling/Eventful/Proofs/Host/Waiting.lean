import Eventful.Proofs.Host.Guards
import Eventful.Proofs.Host.Registering

/-
  Eventful.Proofs.Host.Waiting — the timers of bindings, as the history has them.

  A binding's timer is the work of the last moment that was about the binding's wait: an
  event reached it that started the wait (`Moment.Arms`) and neither another one did since
  nor did the timer ring. That is so for every timer, and for the bound bindings of `F`
  the other way round as well (`Clocked`). An edit that keeps still the timers of bindings
  keeps this too; what is left are the wait that begins (`clocked_arm`) and the timer that
  is taken to ring (`clocked_take`).
-/

namespace Eventful.Host

open Page Binding

variable {F : Nat → Prop} {h h' : Host} {tr : History} {m m' : Moment} {rt rt' id id' c c' due due' : Nat}
  {e e' : Event}

/-! ## The last moment of a kind -/

/-- The last moment of which `P` holds. -/
def Latest (P : Moment → Prop) (m : Moment) : History → Prop
  | [] => False
  | x :: tr => (P x ∧ x = m) ∨ (¬P x ∧ Latest P m tr)

variable {P : Moment → Prop}

theorem latest_self (hm : P m') : Latest P m (m' :: tr) ↔ m = m' :=
  (or_iff_left fun h => h.1 hm).trans ((and_iff_right hm).trans eq_comm)

theorem latest_cons (hm : ¬P m') : Latest P m (m' :: tr) ↔ Latest P m tr :=
  (or_iff_right fun h => hm h.1).trans (and_iff_right hm)

theorem Latest.mem (hl : Latest P m tr) : m ∈ tr := by
  induction tr with
  | nil => cases hl
  | cons x tr ih =>
    rcases hl with ⟨-, rfl⟩ | ⟨-, hl⟩
    · exact List.mem_cons_self
    · exact List.mem_cons_of_mem _ (ih hl)

theorem Latest.unique (hl : Latest P m tr) (hl' : Latest P m' tr) : m = m' := by
  induction tr with
  | nil => cases hl
  | cons x tr ih =>
    by_cases hx : P x
    · rw [(latest_self hx).mp hl, (latest_self hx).mp hl']
    · exact ih ((latest_cons hx).mp hl) ((latest_cons hx).mp hl')

/-! ## Moments of a binding's wait -/

/-- An event reaches the binding. -/
def Moment.Fires (rt id : Nat) (e : Event) : Moment → Prop
  | .begins (.listen l e') _ => l.action = .binding rt id ∧ e' = e
  | .begins (.outside w e') _ => w.action = .binding rt id ∧ e' = e
  | _ => False

/-- The binding's timer rings with the event. -/
def Moment.Rings (rt id : Nat) (e : Event) : Moment → Prop
  | .begins (.ring _ t) _ => t.action = .binding rt id e
  | _ => False

/-- An event reaches the binding that makes it wait until `due` on the clock `c`, with the
    event `e`. -/
def Moment.Arms (rt id c due : Nat) (e : Event) (m : Moment) : Prop :=
  ∃ r b e₀ wait, m.Fires rt id e₀ ∧ m.host.live? rt id = some (r, b) ∧ (b.plan.isOnce && b.fired) = false ∧
    b.plan.wait? = some wait ∧ Admits m.host.page.tree b.element e₀ (beforeWait b.plan.guards) ∧ c = r.clock ∧
    due = (m.host.clock c).instant wait ∧ e = heard e₀ (beforeWait b.plan.guards)

/-- The moment is about the binding's wait. -/
def Moment.Turns (rt id : Nat) (m : Moment) : Prop :=
  (∃ c due e, m.Arms rt id c due e) ∨ ∃ e, m.Rings rt id e

theorem Moment.Fires.unique (hf : m.Fires rt id e) (hf' : m.Fires rt' id' e') : rt = rt' ∧ id = id' ∧ e = e' := by
  cases m with
  | ends t r h => exact hf.elim
  | begins t h =>
    cases t with
    | listen l e₀ =>
      have ha := hf.1.symm.trans hf'.1
      injection ha with e₁ e₂
      exact ⟨e₁, e₂, hf.2.symm.trans hf'.2⟩
    | outside w e₀ =>
      have ha := hf.1.symm.trans hf'.1
      injection ha with e₁ e₂
      exact ⟨e₁, e₂, hf.2.symm.trans hf'.2⟩
    | _ => exact hf.elim

theorem Moment.Arms.unique (ha : m.Arms rt id c due e) (ha' : m.Arms rt id c' due' e') :
    c = c' ∧ due = due' ∧ e = e' := by
  obtain ⟨r, b, e₀, wait, hf, hlive, -, hwait, -, rfl, rfl, rfl⟩ := ha
  obtain ⟨r', b', e₀', wait', hf', hlive', -, hwait', -, rfl, rfl, rfl⟩ := ha'
  obtain ⟨rfl, rfl⟩ := Prod.mk.inj (Option.some.inj (hlive.symm.trans hlive'))
  obtain ⟨-, -, rfl⟩ := hf.unique hf'
  cases hwait.symm.trans hwait'
  exact ⟨rfl, rfl, rfl⟩

theorem Moment.not_turns (hf : ∀ e, ¬m.Fires rt id e) (hr : ∀ e, ¬m.Rings rt id e) : ¬m.Turns rt id := by
  intro ht
  rcases ht with ⟨_, _, _, e, _, _, _, hf', -⟩ | ⟨e, hr'⟩
  · exact hf _ hf'
  · exact hr e hr'

theorem Moment.Fires.not_rings (hf : m.Fires rt id e) : ¬m.Rings rt' id' e' := by
  intro hr
  cases m with
  | ends t r h => exact hf
  | begins t h =>
    cases t with
    | ring c t => exact hf
    | _ => exact hr

/-- A moment at which an event reaches a binding is about no other binding. -/
theorem Moment.Fires.of_turns (hf : m.Fires rt id e) (ht : m.Turns rt' id') : rt' = rt ∧ id' = id := by
  rcases ht with ⟨_, _, _, _, _, _, _, hf', -⟩ | ⟨e', hr⟩
  · obtain ⟨rfl, rfl, -⟩ := hf.unique hf'
    exact ⟨rfl, rfl⟩
  · exact absurd hr hf.not_rings

/-- An event that starts no wait. -/
theorem Moment.Fires.not_turns (hf : m.Fires rt id e) (hn : ∀ c due e, ¬m.Arms rt id c due e) (rt' id' : Nat) :
    ¬m.Turns rt' id' := by
  intro ht
  obtain ⟨rfl, rfl⟩ := hf.of_turns ht
  rcases ht with ⟨c, due, e', ha⟩ | ⟨e', hr⟩
  · exact hn c due e' ha
  · exact hf.not_rings hr

theorem turns_ring {c : Nat} {t : Timer Alarm} :
    (Moment.begins (.ring c t) h).Turns rt id ↔ ∃ e, t.action = .binding rt id e :=
  or_iff_right fun ⟨_, _, _, _, _, _, _, hf, _⟩ => hf

theorem turns_ends {κ : Kind} {t : Task κ} {r : κ.Carrier} : ¬(Moment.ends t r h).Turns rt id :=
  Moment.not_turns (fun _ hf => hf) fun _ hr => hr

/-! ## What the timers come from -/

structure Clocked (F : Nat → Prop) (h : Host) (tr : History) : Prop where
  armed : ∀ {c t rt id e}, t ∈ (h.clock c).timers → t.action = .binding rt id e →
    ∃ m, Latest (·.Turns rt id) m tr ∧ m.Arms rt id c t.due e ∧ (Gone h.runtimes rt id → Gone m.host.runtimes rt id)
  kept : ∀ {m rt id c due e}, F rt → Latest (·.Turns rt id) m tr → m.Arms rt id c due e →
    (∃ t ∈ (h.clock c).timers, t.due = due ∧ t.action = .binding rt id e) ∨ Gone h.runtimes rt id

/-- A history without timers. -/
theorem clocked_nil (hn : ∀ c, (h.clock c).timers = []) : Clocked F h [] where
  armed ht := by rw [hn] at ht; cases ht
  kept _ hl := by cases hl

theorem Clocked.still (hc : Clocked F h tr) (hs : Still F h.runtimes h'.runtimes h.clocks h'.clocks)
    (hl : RuntimesLater h.runtimes h'.runtimes) : Clocked F h' tr where
  armed ht ha := by
    obtain ⟨ht, hgone⟩ := hs.old ht ha
    obtain ⟨m, hm, harms, hg⟩ := hc.armed ht ha
    exact ⟨m, hm, harms, fun hgone' => hg (hgone hgone')⟩
  kept hF hm harms := by
    rcases hc.kept hF hm harms with ⟨t, ht, hdue, ha⟩ | hgone
    · exact (hs.kept hF ht ha).imp_left fun ht => ⟨t, ht, hdue, ha⟩
    · exact .inr (hgone.later hl)

/-- A moment that is about no binding's wait. -/
theorem Clocked.cons (hc : Clocked F h tr) (hm : ∀ rt id, ¬m.Turns rt id) : Clocked F h (m :: tr) where
  armed ht ha := by
    obtain ⟨m', hm', hrest⟩ := hc.armed ht ha
    exact ⟨m', (latest_cons (hm _ _)).mpr hm', hrest⟩
  kept hF hm' := hc.kept hF ((latest_cons (hm _ _)).mp hm')

/-- The timers of the clocks when one was taken. -/
theorem mem_set_take {cs : List (Clock Alarm)} {t u : Timer Alarm} {k : Clock Alarm}
    (ht : (clockAt cs c).takeFirst? = some (t, k)) :
    u ∈ (clockAt (cs.set c k) c').timers ↔ u ∈ (clockAt cs c').timers ∧ (c' = c → u.id ≠ t.id) := by
  obtain ⟨hm, -, rfl⟩ := Clock.takeFirst?_eq_some ht
  have hc : c < cs.length := by
    refine Nat.lt_of_not_le fun hle => ?_
    rw [clockAt_of_le hle] at hm
    cases hm
  rw [clockAt_set _ c' hc]
  by_cases e : c = c'
  · subst e
    simp
  · simp [e, Ne.symm e]

/-- A timer is taken and rings. -/
theorem clocked_take (hb : Books F h) (hc : Clocked F h tr) {t : Timer Alarm} {k : Clock Alarm}
    (ht : (h.clock c).takeFirst? = some (t, k)) :
    Clocked F (h.setClock c k) (.begins (.ring c t) (h.setClock c k) :: tr) where
  armed {c' u rt id e} hu ha := by
    obtain ⟨hu, hne⟩ := (mem_set_take ht).mp hu
    -- A binding has one timer at most, so the one that rings is another's.
    have hturns : ¬(Moment.begins (.ring c t) (h.setClock c k)).Turns rt id := by
      intro hturns
      obtain ⟨e', ha'⟩ := turns_ring.mp hturns
      obtain ⟨b, hkeeps, hticks, hid, hw⟩ := hb.timers.backed hu ha
      obtain ⟨b', hkeeps', hticks', hid', hw'⟩ := hb.timers.backed (Clock.takeFirst?_eq_some ht).1 ha'
      cases keeps_unique hb.runtimes hkeeps hkeeps' (hid.trans hid'.symm)
      exact hne (hticks.unique hticks') (Option.some.inj (hw.symm.trans hw'))
    obtain ⟨m, hm, harms, hgone⟩ := hc.armed hu ha
    exact ⟨m, (latest_cons hturns).mpr hm, harms, hgone⟩
  kept {m rt id c' due e} hF hm harms := by
    by_cases hturns : (Moment.begins (.ring c t) (h.setClock c k)).Turns rt id
    · rw [(latest_self hturns).mp hm] at harms
      obtain ⟨_, _, _, _, hfires, -⟩ := harms
      exact hfires.elim
    · rcases hc.kept hF ((latest_cons hturns).mp hm) harms with ⟨u, hu, hdue, ha⟩ | hgone
      · refine .inl ⟨u, (mem_set_take ht).mpr ⟨hu, fun ec eid => hturns (turns_ring.mpr ⟨e, ?_⟩)⟩, hdue, ha⟩
        subst ec
        rw [← ha, Clock.sound_unique (hb.timers.sound c') hu (Clock.takeFirst?_eq_some ht).1 eid]
      · exact .inr hgone

/-- That a binding waits for something else does not unbind it. -/
theorem gone_edit {rs : Runtimes} {w : Option Nat} {n : Nat}
    (hg : Gone (rs.modify rt (·.edit n fun b => { b with waiting := w })) rt' id) : Gone rs rt' id := by
  obtain ⟨r', hr', hle, hn⟩ := hg
  have ha : AlikeTables (AlikeBound Same) rs (rs.modify rt (·.edit n fun b => { b with waiting := w })) :=
    alike_modify _ rt (fun _ => AlikeBound.rfl fun _ => Same.rfl) fun r _ =>
      (alike_edit (f := fun b => { b with waiting := w }) r n (fun _ => Same.rfl)
        fun _ => ⟨rfl, rfl, rfl, rfl, rfl⟩).toAlikeBound
  obtain ⟨r, hr, h⟩ := ha.back hr'
  refine ⟨r, hr, h.lastId ▸ hle, fun b hb e => ?_⟩
  obtain ⟨b', hb', hsame⟩ := h.bindings_to hb
  exact hn b' hb' (hsame.id.trans e)

theorem still_edit (rs : Runtimes) (cs : List (Clock Alarm)) (rt n : Nat) (w : Option Nat) :
    Still F rs (rs.modify rt (·.edit n fun b => { b with waiting := w })) cs cs :=
  ⟨fun ht _ => ⟨ht, gone_edit⟩, fun _ ht _ => .inl ht⟩

/-- A wait begins. -/
theorem clocked_arm {r : Runtime Script} {b : Bound} {wait : Nat} (hb : Books F m.host) (hc : Clocked F m.host tr)
    (hlive : m.host.live? rt id = some (r, b)) (harms : m.Arms rt id r.clock ((m.host.clock r.clock).instant wait) e)
    (hl : RuntimesLater m.host.runtimes (m.host.arm rt id wait e).runtimes) :
    Clocked F (m.host.arm rt id wait e) (m :: tr) := by
  obtain ⟨k, harm, -, -, htimers⟩ := arm_eq hb hlive wait e
  obtain ⟨hr, -, hreach, hid⟩ := (live?_eq_some hb.runtimes).mp hlive
  have hkeeps : Keeps m.host.runtimes rt b := ⟨r, hr, hreach⟩
  have hticks : Ticks m.host.runtimes rt r.clock := ⟨r, hr, rfl⟩
  have hself : m.Turns rt id := .inl ⟨_, _, _, harms⟩
  have hother : ∀ {rt' id'}, ¬(rt' = rt ∧ id' = id) → ¬m.Turns rt' id' := by
    intro rt' id' hne ht
    obtain ⟨_, _, _, _, hfires, -⟩ := harms
    exact hne (hfires.of_turns ht)
  have hclock : ∀ {c' u}, u ∈ ((m.host.arm rt id wait e).clock c').timers ↔
      (u ∈ (m.host.clock c').timers ∧ (c' = r.clock → b.waiting ≠ some u.id)) ∨
        (c' = r.clock ∧ u = ⟨k.lastId, (m.host.clock r.clock).instant wait, .binding rt id e⟩) := by
    intro c' u
    rw [harm]
    show u ∈ (clockAt (m.host.clocks.set r.clock k) c').timers ↔ _
    rw [clockAt_set k c' (hb.timers.place hticks)]
    by_cases ec : r.clock = c'
    · subst ec
      simp [htimers]
    · simp only [ec, Ne.symm ec, if_false, false_and, or_false, false_implies, and_true]
      exact Iff.rfl
  have hback : ∀ {rt' id'}, Gone (m.host.arm rt id wait e).runtimes rt' id' → Gone m.host.runtimes rt' id' := by
    intro rt' id' hg
    rw [harm] at hg
    exact gone_edit hg
  refine ⟨fun {c' u rt' id' e'} hu ha => ?_, fun {m' rt' id' c' due e'} hF hm' harms' => ?_⟩
  · rcases hclock.mp hu with ⟨hold, hne⟩ | ⟨rfl, rfl⟩
    · have hid' : ¬(rt' = rt ∧ id' = id) := by
        intro ⟨e₁, e₂⟩
        subst e₁ e₂
        obtain ⟨b', hkeeps', hticks', hid', hw⟩ := hb.timers.backed hold ha
        cases keeps_unique hb.runtimes hkeeps' hkeeps (hid'.trans hid.symm)
        exact hne (hticks'.unique hticks) hw
      obtain ⟨m₀, hm₀, harms₀, hgone⟩ := hc.armed hold ha
      exact ⟨m₀, (latest_cons (hother hid')).mpr hm₀, harms₀, fun hg => hgone (hback hg)⟩
    · injection ha with e₁ e₂ e₃
      subst e₁ e₂ e₃
      exact ⟨m, (latest_self hself).mpr rfl, harms, hback⟩
  · by_cases hid' : rt' = rt ∧ id' = id
    · obtain ⟨rfl, rfl⟩ := hid'
      rw [(latest_self hself).mp hm'] at harms'
      obtain ⟨rfl, rfl, rfl⟩ := harms.unique harms'
      exact .inl ⟨_, hclock.mpr (.inr ⟨rfl, rfl⟩), rfl, rfl⟩
    · rcases hc.kept hF ((latest_cons (hother hid')).mp hm') harms' with ⟨u, hu, hdue, ha⟩ | hgone
      · refine .inl ⟨u, hclock.mpr (.inl ⟨hu, fun ec hw => hid' ?_⟩), hdue, ha⟩
        subst ec
        obtain ⟨e₁, ha'⟩ := (hb.timers.mine hkeeps hticks hw).2 hu rfl
        rw [ha] at ha'
        injection ha' with e₂ e₃
        exact ⟨e₂, e₃.trans hid⟩
      · exact .inr (hgone.later hl)

end Eventful.Host
