import Eventful.Proofs.Host.Once

/-
  Eventful.Proofs.Host.Ringing — when a binding's timer rings.

  A binding waits for the event that made it wait last, until the instant that this event
  set (`Waits`). If its timer rings then it waited, the clock stands at that instant, and
  what happens next is that its expression is evaluated for the event (`Rung`). Nothing
  else makes a debounced binding be evaluated.
-/

namespace Eventful.Host

open Page Binding

variable {F : Nat → Prop} {h : Host} {tr : History} {m : Moment} {rt id c c' due due' : Nat} {e e' : Event} {b : Bound}

/-! ## Waiting -/

/-- The binding waits until `due` on the clock `c`, for the event `e`. -/
def Waits (rt id c due : Nat) (e : Event) (tr : History) : Prop :=
  ∃ m, Latest (·.Turns rt id) m tr ∧ m.Arms rt id c due e

theorem Waits.unique (hw : Waits rt id c due e tr) (hw' : Waits rt id c' due' e' tr) : c = c' ∧ due = due' ∧ e = e' := by
  obtain ⟨m, hl, ha⟩ := hw
  obtain ⟨m', hl', ha'⟩ := hw'
  cases hl.unique hl'
  exact ha.unique ha'

theorem waits_cons (hm : ¬m.Turns rt id) : Waits rt id c due e (m :: tr) ↔ Waits rt id c due e tr :=
  exists_congr fun _ => and_congr_left fun _ => latest_cons hm

theorem waits_arms (hm : m.Arms rt id c due e) : Waits rt id c' due' e' (m :: tr) ↔ c' = c ∧ due' = due ∧ e' = e := by
  have hself : m.Turns rt id := .inl ⟨_, _, _, hm⟩
  constructor
  · intro ⟨m', hl, ha⟩
    rw [(latest_self hself).mp hl] at ha
    exact ha.unique hm
  · intro ⟨ec, ed, ee⟩
    subst ec ed ee
    exact ⟨m, (latest_self hself).mpr rfl, hm⟩

theorem not_waits (hm : m.Rings rt id e) : ¬Waits rt id c due e' (m :: tr) := by
  intro ⟨m', hl, ha⟩
  rw [(latest_self (.inr ⟨e, hm⟩)).mp hl] at ha
  obtain ⟨_, _, _, _, hf, -⟩ := ha
  exact hf.not_rings hm

/-! ## Ringing -/

/-- No event reaches the binding while it is unbound and still being evaluated. -/
def Unreentered (rt id : Nat) (tr : History) : Prop :=
  ∀ m ∈ tr, ∀ e, m.Fires rt id e → ∀ b, Leaves m.host.runtimes rt b → b.id ≠ id

/-- What is known when the binding's timer begins to ring. -/
structure Rung (rt id : Nat) (e : Event) (c : Nat) (t : Timer Alarm) (h : Host) (tr : History) : Prop where
  action : t.action = .binding rt id e
  ticks : Ticks h.runtimes rt c
  bound : ¬Gone h.runtimes rt id
  waited : Waits rt id c t.due e tr
  due : Due c t tr
  now : (h.clock c).now ≤ Clock.lastInstant → (h.clock c).now = t.due

theorem rung_of_rings (htold : Told F (m :: tr)) (hu : Unreentered rt id tr) (hm : m.Rings rt id e) :
    ∃ c t, m = .begins (.ring c t) m.host ∧ Rung rt id e c t m.host tr := by
  cases m with
  | ends t r h => exact hm.elim
  | begins t h =>
    cases t with
    | ring c t =>
      show ∃ c' t', Moment.begins (.ring c t) h = _ ∧ Rung rt id e c' t' h tr
      obtain ⟨⟨h₀, k, hkept, ht, rfl, hdue⟩, -, -, hearlier⟩ := htold
      obtain ⟨hmem, -, hk⟩ := Clock.takeFirst?_eq_some ht
      obtain ⟨m₀, hl, harms, hgone⟩ := hkept.clocked.armed hmem hm
      obtain ⟨b, -, hticks, -⟩ := hkept.books.timers.backed hmem hm
      refine ⟨c, t, rfl, hm, hticks, fun hg => ?_, ⟨m₀, hl, harms⟩, hdue, fun hle => ?_⟩
      · obtain ⟨r, b₀, e₀, _, hf, hlive, -⟩ := harms
        obtain ⟨_, hfit⟩ := hearlier.mem hl.mem
        obtain ⟨hr, -, hreach, hid⟩ := (live?_eq_some (books_of_fires hfit hf).runtimes).mp hlive
        rcases hreach with h₀ | h₀
        · exact (hgone hg).not_binds ⟨r, hr, h₀⟩ hid
        · exact hu m₀ hl.mem e₀ hf b₀ ⟨r, hr, h₀⟩ hid
      · -- A clock that counts in 64 bits has not passed the timer.
        have hc : c < h₀.clocks.length := hkept.books.timers.place hticks
        have hclock : ((h₀.setClock c k).clock c).now = max (h₀.clock c).now t.due := by
          show (clockAt (h₀.clocks.set c k) c).now = _
          rw [clockAt_set k c hc, if_pos rfl, hk]
        rw [hclock] at hle ⊢
        have := (hkept.books.timers.sound c).timely (Nat.le_trans (Nat.le_max_left _ _) hle) t hmem
        exact Nat.max_eq_right this
    | _ => exact hm.elim

theorem issued_of_fires (hfit : Fit F m tr) (hf : m.Fires rt id e) : Issued m.host.runtimes rt id := by
  cases m with
  | ends t r h => exact hf.elim
  | begins t h =>
    cases t with
    | listen l e' =>
      obtain ⟨b, hb, rfl⟩ := hfit.2 rt id hf.1
      exact issued_of_keeps hfit.1.books.runtimes hb.keeps
    | outside w e' => exact (hfit.2 rt id hf.1).1
    | _ => exact hf.elim

/-! ## Evaluations -/

/-- What a procedure does first it does first if something comes after it. -/
theorem first_bind {κ κ' κ'' : Kind} {t : Task κ} {t' : Task κ'} {t'' : Task κ''} {p : Proc κ.Carrier}
    {f : κ.Carrier → Proc κ'.Carrier} {h' : Host} (hp : p.first t h = .begins t'' h') :
    (p >>= f).first t' h = .begins t'' h' := by
  induction p generalizing h with
  | done r => cases hp
  | get k ih => exact ih h hp
  | set h₁ k ih => exact ih hp
  | call t₁ k => exact hp

/-- After the ringing the binding is evaluated. -/
theorem next_of_ring {t : Timer Alarm} (hfit : Fit F (.begins (.ring c t) h) tr) (hr : Rung rt id e c t h tr)
    (honce : ∀ {b}, Keeps h.runtimes rt b → b.id = id → b.plan.isOnce = false) :
    ∃ b h', (Moment.begins (.ring c t) h).next = some (.begins (.effect rt b e) h') ∧ b.id = id ∧
      h'.clocks = h.clocks := by
  obtain ⟨h₀, k, hkept, ht, rfl, -⟩ := hfit
  have hb := (steps_ring hkept.books ht hr.action).books
  obtain ⟨b, hkeeps, -, rfl, -⟩ := hkept.books.timers.backed (Clock.takeFirst?_eq_some ht).1 hr.action
  have hbinds : Binds h₀.runtimes rt b := by
    by_contra hn
    exact hr.bound (gone_of_unbound hkept.books.runtimes hkeeps hn)
  have hwaited : Binds ((h₀.setClock c k).waited rt b.id).runtimes rt { b with waiting := none } :=
    binds_edit.mpr ⟨b, hbinds, (if_pos ⟨rfl, rfl⟩).symm⟩
  obtain ⟨r, hr', h₁⟩ := id hwaited
  have hne : r.status ≠ .ended := by
    intro hended
    rw [((hb.runtimes hr').ended hended).1] at h₁
    cases h₁
  have hlive := (live?_eq_some hb.runtimes).mpr ⟨hr', hne, .inl h₁, rfl⟩
  have hfresh : (b.plan.isOnce && b.fired) = false := by rw [honce hkeeps rfl, Bool.false_and]
  refine ⟨{ b with waiting := none }, begun ((h₀.setClock c k).waited rt b.id) rt { b with waiting := none }, ?_, rfl, rfl⟩
  simp only [Moment.next, Task.body, hr.action]
  exact congrArg some (first_bind (first_complete hlive hfresh (.listen ⟨0, "", ⟨false, false, false⟩, .tracker 0⟩ e)))

/-- A debounced binding is evaluated when its timer rang. -/
theorem rings_of_evaluated {h' : Host} (hfit : Fit F (.begins (.effect rt b e) h') tr) (hw : ¬Waitless b.plan.guards) :
    ∃ m before, tr = m :: before ∧ m.Rings rt b.id e := by
  obtain ⟨-, -, -, -, hled⟩ := hfit
  cases tr with
  | nil => exact hled.elim
  | cons m before =>
    rcases hled with ⟨hn, -⟩ | ⟨-, hr⟩
    · exact absurd hn hw
    · exact ⟨m, before, rfl, hr⟩

end Eventful.Host
