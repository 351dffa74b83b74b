import Eventful.Proofs.Host.Ringing
import Mathlib.Algebra.Group.Nat.Defs

/-
  Eventful.Proofs.Host.Debounce — a debounced binding is a machine of two states.

  The machine (`Debounce`) is idle, or an event is pending that is due at an instant. It
  knows nothing of timers or of other bindings: what it is told is read off the history,
  moment by moment (`Moment.input?`).

  An advance tells the machine at once what the host does bit by bit. So in the course of
  an advance the host may still owe an evaluation (`Owes`); what it owes it gives before
  the advance is over, and otherwise host and machine are even (`Even`).

  - `session_debounced`: whenever no advance of its clock is under way, a debounced binding
    was evaluated as its machine says, for the same events at the same readings of the clock.
-/

namespace Eventful.Host

open Page Binding

/-! ## The machine -/

/-- A debounced binding by itself. -/
inductive Debounce where
  | idle
  | pending (e : Event) (due : Nat)

namespace Debounce

inductive Input where
  | fire (now : Nat) (e : Event)
  | advance (instant : Nat)
  | unbind

/-- The state after an input, and what is evaluated: at which instant, for which event. -/
def step (wait : Nat) : Debounce → Input → Debounce × List (Nat × Event)
  | _, .fire now e => (.pending e (min (now + wait) Clock.lastInstant), [])
  | .pending e due, .advance instant => if due ≤ instant then (.idle, [(due, e)]) else (.pending e due, [])
  | .idle, .advance _ => (.idle, [])
  | _, .unbind => (.idle, [])

@[simp] theorem step_fire (wait : Nat) (s : Debounce) (now : Nat) (e : Event) :
    s.step wait (.fire now e) = (.pending e (min (now + wait) Clock.lastInstant), []) := by cases s <;> rfl

@[simp] theorem step_unbind (wait : Nat) (s : Debounce) : s.step wait .unbind = (.idle, []) := by cases s <;> rfl

/-- The machine begins idle. -/
def run (wait : Nat) (is : List Input) : Debounce × List (Nat × Event) :=
  is.foldl (fun (s, out) i => ((s.step wait i).1, out ++ (s.step wait i).2)) (.idle, [])

theorem run_concat (wait : Nat) (is : List Input) (i : Input) :
    run wait (is ++ [i]) =
      (((run wait is).1.step wait i).1, (run wait is).2 ++ ((run wait is).1.step wait i).2) := by
  simp [run, List.foldl_append]

end Debounce

/-! ## What a history tells the machine -/

/-- The event that reaches the binding. -/
def Moment.firing? (rt id : Nat) : Moment → Option Event
  | .begins (.listen l e) _ => if l.action.isFor rt id then some e else none
  | .begins (.outside w e) _ => if w.action.isFor rt id then some e else none
  | _ => none

/-- The instant that the clock is to be advanced to. -/
def Moment.target? (c : Nat) : Moment → Option Nat
  | .begins (.advance c' instant) _ => if c' = c then some instant else none
  | _ => none

/-- What the moment is to the machine of a binding whose runtime's clock is `c`. -/
def Moment.input? (rt : Nat) (b : Bound) (c : Nat) (m : Moment) : Option Debounce.Input :=
  if Gone m.host.runtimes rt b.id then some .unbind
  else match m.firing? rt b.id with
    | some e =>
      if Admits m.host.page.tree b.element e (beforeWait b.plan.guards) then
        some (.fire (m.host.clock c).now (heard e (beforeWait b.plan.guards)))
      else none
    | none => (m.target? c).map .advance

/-- For which event the binding is evaluated, and what the clock says. -/
def Moment.evaluation? (rt id c : Nat) : Moment → Option (Nat × Event)
  | .begins (.effect rt' b e) h => if rt' = rt ∧ b.id = id then some ((h.clock c).now, e) else none
  | _ => none

def inputs (rt : Nat) (b : Bound) (c : Nat) (tr : History) : List Debounce.Input :=
  tr.reverse.filterMap (·.input? rt b c)

def evaluations (rt id c : Nat) (tr : History) : List (Nat × Event) := tr.reverse.filterMap (·.evaluation? rt id c)

/-- The machine after a history. -/
def machine (rt : Nat) (b : Bound) (c wait : Nat) (tr : History) : Debounce × List (Nat × Event) :=
  Debounce.run wait (inputs rt b c tr)

variable {h : Host} {tr : History} {m : Moment} {rt id c wait due instant : Nat} {e : Event} {b : Bound}

theorem firing?_eq_some : m.firing? rt id = some e ↔ m.Fires rt id e := by
  cases m with
  | ends t r h => simp [Moment.firing?, Moment.Fires]
  | begins t h =>
    cases t with
    | listen l e' =>
      simp only [Moment.firing?, Moment.Fires, Option.ite_none_right_eq_some, Option.some.injEq, Reaction.isFor_iff]
    | outside w e' =>
      simp only [Moment.firing?, Moment.Fires, Option.ite_none_right_eq_some, Option.some.injEq, Waiter.isFor_iff]
    | _ => simp [Moment.firing?, Moment.Fires]

theorem target?_eq_some : m.target? c = some instant ↔ ∃ h, m = .begins (.advance c instant) h := by
  cases m with
  | ends t r h => simp [Moment.target?]
  | begins t h =>
    cases t with
    | advance c' instant' => simp [Moment.target?]
    | _ => simp [Moment.target?]

theorem evaluation?_eq_none (hm : ¬m.Evaluates rt id) : m.evaluation? rt id c = none := by
  cases m with
  | ends t r h => rfl
  | begins t h =>
    cases t with
    | effect rt' b e =>
      refine if_neg fun ⟨hrt, hid⟩ => hm ⟨b, e, h, by rw [hrt], hid⟩
    | _ => rfl

theorem evaluations_cons (hm : ¬m.Evaluates rt id) : evaluations rt id c (m :: tr) = evaluations rt id c tr := by
  simp [evaluations, List.filterMap_append, evaluation?_eq_none hm]

theorem evaluations_effect (hid : b.id = id) :
    evaluations rt id c (.begins (.effect rt b e) h :: tr) = evaluations rt id c tr ++ [((h.clock c).now, e)] := by
  simp [evaluations, List.filterMap_append, Moment.evaluation?, hid]

theorem machine_cons (wait : Nat) (tr : History) {i : Debounce.Input} (hi : m.input? rt b c = some i) :
    machine rt b c wait (m :: tr) =
      (((machine rt b c wait tr).1.step wait i).1,
        (machine rt b c wait tr).2 ++ ((machine rt b c wait tr).1.step wait i).2) := by
  unfold machine inputs
  rw [List.reverse_cons, List.filterMap_append, ← Debounce.run_concat]
  simp [hi]

theorem machine_skip (wait : Nat) (tr : History) (hi : m.input? rt b c = none) : machine rt b c wait (m :: tr) = machine rt b c wait tr := by
  simp [machine, inputs, List.filterMap_append, hi]

theorem input_gone (hg : Gone m.host.runtimes rt b.id) : m.input? rt b c = some .unbind := if_pos hg

theorem input_fires (hg : ¬Gone m.host.runtimes rt b.id) (hf : m.Fires rt b.id e) :
    m.input? rt b c =
      if Admits m.host.page.tree b.element e (beforeWait b.plan.guards) then
        some (.fire (m.host.clock c).now (heard e (beforeWait b.plan.guards)))
      else none := by
  unfold Moment.input?
  rw [if_neg hg, firing?_eq_some.mpr hf]

theorem input_other (hg : ¬Gone m.host.runtimes rt b.id) (hf : ∀ e, ¬m.Fires rt b.id e) :
    m.input? rt b c = (m.target? c).map .advance := by
  have hnone : m.firing? rt b.id = none := Option.eq_none_iff_forall_ne_some.mpr fun e he => hf e (firing?_eq_some.mp he)
  unfold Moment.input?
  rw [if_neg hg, hnone]

/-! ## Advances under way -/

/-- The advances of the clock that began and are not over, the innermost first: to which
    instant, and in which host they began. -/
def underway (c : Nat) : History → List (Nat × Host)
  | [] => []
  | .begins (.advance c' instant) h :: tr => if c' = c then (instant, h) :: underway c tr else underway c tr
  | .ends (.advance c' _) _ _ :: tr => if c' = c then (underway c tr).tail else underway c tr
  | _ :: tr => underway c tr

theorem underway_begins (c instant : Nat) (h : Host) (tr : History) :
    underway c (.begins (.advance c instant) h :: tr) = (instant, h) :: underway c tr := if_pos rfl

theorem underway_ends (c instant : Nat) (r : Nat) (h : Host) (tr : History) :
    underway c (.ends (.advance c instant) r h :: tr) = (underway c tr).tail := if_pos rfl

/-- The moment begins no advance of the clock and ends none. -/
def Moment.Within (c : Nat) : Moment → Prop
  | .begins (.advance c' _) _ => c' ≠ c
  | .ends (.advance c' _) _ _ => c' ≠ c
  | _ => True

theorem underway_within (tr : History) (hm : m.Within c) : underway c (m :: tr) = underway c tr := by
  cases m with
  | begins t h =>
    cases t with
    | advance c' instant => exact if_neg hm
    | _ => rfl
  | ends t r h =>
    cases t with
    | advance c' instant => exact if_neg hm
    | _ => rfl

/-- A moment is the beginning of an advance of the clock, or the end of one, or neither. -/
theorem within_cases (c : Nat) (m : Moment) :
    (∃ instant h, m = .begins (.advance c instant) h) ∨ (∃ instant r h, m = .ends (.advance c instant) r h) ∨
      m.Within c := by
  cases m with
  | begins t h =>
    cases t with
    | advance c' instant =>
      by_cases hc : c' = c
      · subst hc
        exact .inl ⟨instant, h, rfl⟩
      · exact .inr (.inr hc)
    | _ => exact .inr (.inr trivial)
  | ends t r h =>
    cases t with
    | advance c' instant =>
      by_cases hc : c' = c
      · subst hc
        exact .inr (.inl ⟨instant, r, h, rfl⟩)
      · exact .inr (.inr hc)
    | _ => exact .inr (.inr trivial)

theorem underway_mem {p : Nat × Host} (hp : p ∈ underway c tr) : .begins (.advance c p.1) p.2 ∈ tr := by
  induction tr with
  | nil => cases hp
  | cons m tr ih =>
    rcases within_cases c m with ⟨instant, h, rfl⟩ | ⟨instant, r, h, rfl⟩ | hm
    · rw [underway_begins] at hp
      rcases List.mem_cons.mp hp with rfl | hp
      · exact List.mem_cons_self
      · exact List.mem_cons_of_mem _ (ih hp)
    · rw [underway_ends] at hp
      exact List.mem_cons_of_mem _ (ih (List.mem_of_mem_tail hp))
    · rw [underway_within _ hm] at hp
      exact List.mem_cons_of_mem _ (ih hp)

/-- Tasks that came back leave no advance under way. -/
theorem underway_nested {inner : History} (hn : Nested inner) (c : Nat) (tr : History) :
    underway c (inner ++ tr) = underway c tr := by
  induction hn generalizing tr with
  | nil => rfl
  | task t r h h' _ _ ih₁ ih₂ =>
    rw [List.cons_append, List.append_assoc, List.cons_append]
    rcases within_cases c (.begins t h) with ⟨instant, _, e⟩ | ⟨_, _, _, e⟩ | hm
    · cases e
      rw [underway_ends, ih₁, underway_begins, List.tail_cons, ih₂]
    · cases e
    · have hm' : (Moment.ends t r h').Within c := by
        cases t with
        | advance c' instant => exact hm
        | _ => trivial
      rw [underway_within _ hm', ih₁, underway_within _ hm, ih₂]

/-- In the course of an advance no event reaches the binding, and it is not unbound. -/
def LeftAlone (rt id c : Nat) : History → Prop
  | [] => True
  | m :: tr =>
    (∀ p ∈ underway c tr, (∀ e, ¬m.Fires rt id e) ∧ (Gone m.host.runtimes rt id → Gone p.2.runtimes rt id)) ∧
      LeftAlone rt id c tr

/-- Evaluations do not act on the binding again, and its clock is moved by advances. -/
structure Undisturbed (rt id c : Nat) (tr : History) : Prop where
  unreentered : Unreentered rt id tr
  advanced : ∀ clock limit h, .begins (.act (.runUntilIdle clock limit)) h ∈ tr → h.clockOf clock ≠ c
  alone : LeftAlone rt id c tr

/-- The host knows the binding by its id, with its clock, which counts in 64 bits. -/
structure Steady (rt : Nat) (b : Bound) (c : Nat) (h : Host) : Prop where
  row : ∀ {b'}, Keeps h.runtimes rt b' → b'.id = b.id → b'.plan = b.plan ∧ b'.element = b.element
  clock : ∀ {c'}, Ticks h.runtimes rt c' → c' = c
  reading : (h.clock c).now ≤ Clock.lastInstant

/-- The binding waits, again and again. -/
structure Debounced (b : Bound) (wait : Nat) : Prop where
  waits : b.plan.wait? = some wait
  bounded : wait < 2 ^ 64
  again : b.plan.isOnce = false

structure Course (rt : Nat) (b : Bound) (c : Nat) (tr : History) : Prop where
  told : Told (· = rt) tr
  linked : Linked tr
  steady : ∀ m ∈ tr, Steady rt b c m.host
  undisturbed : Undisturbed rt b.id c tr

/-- The id was unbound. -/
def Lapsed (rt id : Nat) (tr : History) : Prop := ∃ m ∈ tr, Gone m.host.runtimes rt id

theorem Linked.tail (hl : Linked (m :: tr)) : Linked tr := by
  cases tr with
  | nil => trivial
  | cons m' tr => exact hl.2

theorem Course.tail (hc : Course rt b c (m :: tr)) : Course rt b c tr where
  told := hc.told.2.2.2
  linked := hc.linked.tail
  steady m' hm' := hc.steady m' (List.mem_cons_of_mem _ hm')
  undisturbed := {
    unreentered := fun m' hm' => hc.undisturbed.unreentered m' (List.mem_cons_of_mem _ hm')
    advanced := fun clock limit h hm' => hc.undisturbed.advanced clock limit h (List.mem_cons_of_mem _ hm')
    alone := hc.undisturbed.alone.2 }

theorem Course.lapsed_iff (hc : Course rt b c (m :: tr)) : Lapsed rt b.id (m :: tr) ↔ Gone m.host.runtimes rt b.id := by
  constructor
  · intro ⟨m', hm', hg⟩
    rcases List.mem_cons.mp hm' with rfl | hm'
    · exact hg
    · exact hg.later (hc.told.2.2.1 m' hm').runtimes
  · exact fun hg => ⟨m, List.mem_cons_self, hg⟩

theorem lapsed_cons (hg : ¬Gone m.host.runtimes rt id) : Lapsed rt id (m :: tr) ↔ Lapsed rt id tr :=
  (List.exists_mem_cons_iff _ _ _).trans (or_iff_right hg)

/-- What an event has to be for the binding to wait, and until when. -/
theorem Course.arms_iff (hc : Course rt b c (m :: tr)) (hd : Debounced b wait) {e e' : Event}
    (hf : m.Fires rt b.id e) (hg : ¬Gone m.host.runtimes rt b.id) :
    m.Arms rt b.id c due e' ↔ Admits m.host.page.tree b.element e (beforeWait b.plan.guards) ∧
      due = (m.host.clock c).instant wait ∧ e' = heard e (beforeWait b.plan.guards) := by
  have hsteady := hc.steady m List.mem_cons_self
  have hbooks := books_of_fires hc.told.1 hf
  constructor
  · intro ⟨r, b', e₀, wait', hf', hlive, _, hwait, hadmits, _, edue, ee⟩
    obtain ⟨-, -, rfl⟩ := hf.unique hf'
    obtain ⟨hr, -, hreach, hid⟩ := (live?_eq_some hbooks.runtimes).mp hlive
    obtain ⟨hplan, helement⟩ := hsteady.row ⟨r, hr, hreach⟩ hid
    rw [hplan, hd.waits] at hwait
    cases hwait
    rw [hplan, helement] at hadmits
    rw [hplan] at ee
    exact ⟨hadmits, edue, ee⟩
  · intro ⟨hadmits, edue, ee⟩
    obtain ⟨b', ⟨r, hr, h₀⟩, hid⟩ := (issued_of_fires hc.told.1 hf).bound hg
    obtain ⟨hplan, helement⟩ := hsteady.row ⟨r, hr, .inl h₀⟩ hid
    have hne : r.status ≠ .ended := by
      intro hended
      rw [((hbooks.runtimes hr).ended hended).1] at h₀
      cases h₀
    have hclock := hsteady.clock ⟨r, hr, rfl⟩
    subst hclock
    refine ⟨r, b', e, wait, hf, (live?_eq_some hbooks.runtimes).mpr ⟨hr, hne, .inl h₀, hid⟩, ?_, ?_, ?_, rfl, edue, ?_⟩
    · rw [hplan, hd.again, Bool.false_and]
    · rw [hplan, hd.waits]
    · rw [hplan, helement]
      exact hadmits
    · rw [hplan]
      exact ee

/-- If the binding's timer rings then an advance has reached its instant. -/
theorem Course.rung (hc : Course rt b c (m :: tr)) (hm : m.Rings rt b.id e) :
    ∃ t, m = .begins (.ring c t) m.host ∧ Rung rt b.id e c t m.host tr ∧ (m.host.clock c).now = t.due ∧
      ∃ p ∈ underway c tr, t.due ≤ p.1 := by
  have hsteady := hc.steady m List.mem_cons_self
  obtain ⟨c', t, hring, hrung⟩ := rung_of_rings hc.told hc.tail.undisturbed.unreentered hm
  have ec := hsteady.clock hrung.ticks
  subst ec
  refine ⟨t, hring, hrung, hrung.now hsteady.reading, ?_⟩
  rcases hrung.due with ⟨instant, h, before, rfl, hle⟩ | ⟨clock, limit, h, hmem, hclock⟩
  · rw [underway_begins]
    exact ⟨(instant, h), List.mem_cons_self, hle⟩
  · exact absurd hclock (hc.tail.undisturbed.advanced clock limit h hmem)

/-- The binding is evaluated only right after its timer rang. -/
theorem Course.rings_of_evaluates (hc : Course rt b c (m :: tr)) (hd : Debounced b wait) (hm : m.Evaluates rt b.id) :
    ∃ m' before e, tr = m' :: before ∧ m'.Rings rt b.id e := by
  obtain ⟨b', e, h, rfl, hid⟩ := hm
  have hfit := hc.told.1
  obtain ⟨-, ⟨b'', hkeeps, hsame, -⟩, -⟩ := id hfit
  obtain ⟨hplan, -⟩ := (hc.steady _ List.mem_cons_self).row hkeeps (hsame.id.trans hid)
  obtain ⟨after, hg⟩ := guards_of_wait? hd.waits
  have hw : ¬Waitless b'.plan.guards := by
    intro hn
    rw [← hsame.plan, hplan, hg] at hn
    exact hn wait (List.mem_append_right _ List.mem_cons_self)
  obtain ⟨m', before, rfl, hr⟩ := rings_of_evaluated hfit hw
  exact ⟨m', before, e, rfl, hid ▸ hr⟩

theorem Course.clock_of_arms {c' : Nat} (hc : Course rt b c (m :: tr)) (ha : m.Arms rt b.id c' due e) : c' = c := by
  obtain ⟨r, b', e₀, wait, hf, hlive, -, -, -, hclock, -⟩ := ha
  obtain ⟨hr, -⟩ := (live?_eq_some (books_of_fires hc.told.1 hf).runtimes).mp hlive
  exact (hc.steady m List.mem_cons_self).clock ⟨r, hr, hclock.symm⟩

/-! ## Host and machine -/

/-- Host and machine have evaluated the same and wait for the same. -/
structure Even (rt : Nat) (b : Bound) (c wait : Nat) (tr : History) : Prop where
  outputs : (machine rt b c wait tr).2 = evaluations rt b.id c tr
  pending : ∀ {due e}, (machine rt b c wait tr).1 = .pending e due ↔ Waits rt b.id c due e tr ∧ ¬Lapsed rt b.id tr
  later : ∀ {due e}, (machine rt b c wait tr).1 = .pending e due → ∀ p ∈ underway c tr, p.1 < due
  silent : ∀ {m before e}, tr = m :: before → ¬m.Rings rt b.id e

/-- The machine has evaluated, and the host is about to: an advance under way has yet to
    reach the binding's timer, or the timer rings. -/
structure Owes (rt : Nat) (b : Bound) (c wait due : Nat) (e : Event) (tr : History) : Prop where
  outputs : (machine rt b c wait tr).2 = evaluations rt b.id c tr ++ [(due, e)]
  idle : (machine rt b c wait tr).1 = .idle
  bound : ¬Lapsed rt b.id tr
  reached : ∃ p ∈ underway c tr, due ≤ p.1
  next : Waits rt b.id c due e tr ∨
    ∃ t h before, tr = .begins (.ring c t) h :: before ∧ Rung rt b.id e c t h before ∧ (h.clock c).now = due

theorem Even.not_evaluates (he : Even rt b c wait tr) (hc : Course rt b c (m :: tr)) (hd : Debounced b wait) :
    ¬m.Evaluates rt b.id := by
  intro hm
  obtain ⟨m', before, e, rfl, hr⟩ := hc.rings_of_evaluates hd hm
  exact he.silent rfl hr

/-- A moment that leaves the machine as it is. -/
theorem Even.skip (he : Even rt b c wait tr) (hc : Course rt b c (m :: tr)) (hd : Debounced b wait)
    (hg : ¬Gone m.host.runtimes rt b.id) (hmachine : machine rt b c wait (m :: tr) = machine rt b c wait tr)
    (ht : ¬m.Turns rt b.id)
    (hlater : ∀ {due e}, (machine rt b c wait tr).1 = .pending e due → ∀ p ∈ underway c (m :: tr), p.1 < due) :
    Even rt b c wait (m :: tr) := by
  constructor
  · rw [hmachine, evaluations_cons (he.not_evaluates hc hd)]
    exact he.outputs
  · intro due e
    rw [hmachine, waits_cons ht, lapsed_cons hg]
    exact he.pending
  · intro due e hp
    rw [hmachine] at hp
    exact hlater hp
  · intro m' before e heq hr
    cases heq
    exact ht (.inr ⟨e, hr⟩)

/-- The binding is unbound. -/
theorem Even.gone (he : Even rt b c wait tr) (hc : Course rt b c (m :: tr)) (hd : Debounced b wait)
    (hg : Gone m.host.runtimes rt b.id) : Even rt b c wait (m :: tr) := by
  have hmachine : machine rt b c wait (m :: tr) = (.idle, (machine rt b c wait tr).2) := by
    rw [machine_cons _ _ (input_gone hg), Debounce.step_unbind, List.append_nil]
  constructor
  · rw [hmachine, evaluations_cons (he.not_evaluates hc hd)]
    exact he.outputs
  · intro due e
    rw [hmachine]
    constructor
    · intro hp
      cases hp
    · intro ⟨_, hn⟩
      exact absurd (hc.lapsed_iff.mpr hg) hn
  · intro due e hp
    rw [hmachine] at hp
    cases hp
  · intro m' before e heq hr
    cases heq
    obtain ⟨t, -, hrung, -⟩ := hc.rung hr
    exact hrung.bound hg

theorem within_of_fires (hf : m.Fires rt id e) : m.Within c := by
  cases m with
  | ends t r h => exact hf.elim
  | begins t h =>
    cases t with
    | advance c' instant => exact hf.elim
    | _ => trivial

/-- An event reaches the binding. -/
theorem Even.fires (he : Even rt b c wait tr) (hc : Course rt b c (m :: tr)) (hd : Debounced b wait)
    (hg : ¬Gone m.host.runtimes rt b.id) (hf : m.Fires rt b.id e) : Even rt b c wait (m :: tr) := by
  have hwithin := underway_within tr (within_of_fires (c := c) hf)
  have hinput := input_fires (c := c) hg hf
  by_cases ha : Admits m.host.page.tree b.element e (beforeWait b.plan.guards)
  · have hinstant : (m.host.clock c).instant wait = min ((m.host.clock c).now + wait) Clock.lastInstant := by
      have hlow : wait % UInt64.size = wait := Nat.mod_eq_of_lt hd.bounded
      unfold Clock.instant
      rw [hlow]
    have harms := (hc.arms_iff hd hf hg).mpr ⟨ha, rfl, rfl⟩
    rw [hinstant] at harms
    rw [if_pos ha] at hinput
    have hmachine := machine_cons wait tr hinput
    rw [Debounce.step_fire, List.append_nil] at hmachine
    constructor
    · rw [hmachine, evaluations_cons (he.not_evaluates hc hd)]
      exact he.outputs
    · intro due e'
      rw [hmachine, waits_arms harms, lapsed_cons hg]
      have hn : ¬Lapsed rt b.id tr := fun ⟨m', hm', hl⟩ => hg (hl.later (hc.told.2.2.1 m' hm').runtimes)
      simp only [Debounce.pending.injEq, true_and, hn, not_false_eq_true, and_true]
      exact ⟨fun ⟨ee, ed⟩ => ⟨ed.symm, ee.symm⟩, fun ⟨ed, ee⟩ => ⟨ee.symm, ed.symm⟩⟩
    · -- No advance is under way, since an event reaches the binding.
      intro due e' _ p hp
      rw [hwithin] at hp
      exact absurd hf ((hc.undisturbed.alone.1 p hp).1 e)
    · intro m' before e' heq
      cases heq
      exact hf.not_rings
  · rw [if_neg ha] at hinput
    refine he.skip hc hd hg (machine_skip _ _ hinput) (hf.not_turns (fun c' due e' harms => ?_) rt b.id) ?_
    swap
    · intro due e' hp
      rw [hwithin]
      exact he.later hp
    have ec := hc.clock_of_arms harms
    subst ec
    exact ha ((hc.arms_iff hd hf hg).mp harms).1

/-- An advance of the clock begins. -/
theorem Even.advance (he : Even rt b c wait tr) (hc : Course rt b c (.begins (.advance c instant) h :: tr))
    (hd : Debounced b wait) (hg : ¬Gone h.runtimes rt b.id) :
    Even rt b c wait (.begins (.advance c instant) h :: tr) ∨
      ∃ due e, Owes rt b c wait due e (.begins (.advance c instant) h :: tr) := by
  have hinput : (Moment.begins (.advance c instant) h).input? rt b c = some (.advance instant) := by
    have hother := input_other (m := .begins (.advance c instant) h) (c := c) hg fun _ hf => hf
    rw [hother, target?_eq_some.mpr ⟨h, rfl⟩]
    rfl
  have ht : ¬(Moment.begins (.advance c instant) h).Turns rt b.id :=
    Moment.not_turns (fun _ hf => hf) fun _ hr => hr
  have hmachine := machine_cons wait tr hinput
  have hskip : ((machine rt b c wait tr).1.step wait (.advance instant) = ((machine rt b c wait tr).1, [])) →
      machine rt b c wait (.begins (.advance c instant) h :: tr) = machine rt b c wait tr := by
    intro hstep
    rw [hmachine, hstep, List.append_nil]
  cases hs : (machine rt b c wait tr).1 with
  | idle =>
    refine .inl (he.skip hc hd hg (hskip (by rw [hs]; rfl)) ht fun hp => ?_)
    cases hs.symm.trans hp
  | pending e due =>
    obtain ⟨hwaits, hlapsed⟩ := he.pending.mp hs
    by_cases hle : due ≤ instant
    · have hstep : (machine rt b c wait tr).1.step wait (.advance instant) = (.idle, [(due, e)]) := by
        rw [hs]
        exact if_pos hle
      rw [hstep] at hmachine
      refine .inr ⟨due, e, ?_, ?_, ?_, ?_, .inl ((waits_cons ht).mpr hwaits)⟩
      · rw [hmachine, evaluations_cons (he.not_evaluates hc hd), ← he.outputs]
      · rw [hmachine]
      · exact fun hl => hlapsed ((lapsed_cons (m := .begins (.advance c instant) h) hg).mp hl)
      · rw [underway_begins]
        exact ⟨_, List.mem_cons_self, hle⟩
    · refine .inl (he.skip hc hd hg (hskip ?_) ht fun hp p hmem => ?_)
      · rw [hs]
        exact if_neg hle
      · cases hs.symm.trans hp
        rw [underway_begins] at hmem
        rcases List.mem_cons.mp hmem with rfl | hmem
        · exact Nat.lt_of_not_le hle
        · exact he.later hs p hmem

/-- If host and machine are even then no timer of the binding rings. -/
theorem Even.not_rings (he : Even rt b c wait tr) (hc : Course rt b c (m :: tr)) (hg : ¬Gone m.host.runtimes rt b.id) :
    ¬m.Rings rt b.id e := by
  intro hm
  obtain ⟨t, -, hrung, -, p, hp, hle⟩ := hc.rung hm
  have hlapsed : ¬Lapsed rt b.id tr := fun hl => hg (hc.lapsed_iff.mp ((lapsed_cons hg).mpr hl))
  have hlt := he.later (he.pending.mpr ⟨hrung.waited, hlapsed⟩) p hp
  omega

theorem Even.step (he : Even rt b c wait tr) (hc : Course rt b c (m :: tr)) (hd : Debounced b wait) :
    Even rt b c wait (m :: tr) ∨ ∃ due e, Owes rt b c wait due e (m :: tr) := by
  by_cases hg : Gone m.host.runtimes rt b.id
  · exact .inl (he.gone hc hd hg)
  · by_cases hf : ∃ e, m.Fires rt b.id e
    · obtain ⟨e, hf⟩ := hf
      exact .inl (he.fires hc hd hg hf)
    · have hf : ∀ e, ¬m.Fires rt b.id e := fun e h => hf ⟨e, h⟩
      have hother := input_other (c := c) hg hf
      have ht : ¬m.Turns rt b.id := Moment.not_turns hf fun e => he.not_rings hc hg
      rcases within_cases c m with ⟨instant, h, rfl⟩ | ⟨instant, r, h, rfl⟩ | hw
      · exact he.advance hc hd hg
      · refine .inl (he.skip hc hd hg (machine_skip _ _ hother) ht fun hp p hmem => ?_)
        rw [underway_ends] at hmem
        exact he.later hp p (List.mem_of_mem_tail hmem)
      · have hnone : m.target? c = none := by
          refine Option.eq_none_iff_forall_ne_some.mpr fun instant htarget => ?_
          obtain ⟨h, rfl⟩ := target?_eq_some.mp htarget
          exact hw rfl
        rw [hnone] at hother
        refine .inl (he.skip hc hd hg (machine_skip _ _ hother) ht fun hp p hmem => ?_)
        rw [underway_within _ hw] at hmem
        exact he.later hp p hmem

/-! ## What the host owes -/

/-- The host gives what it owes as soon as the timer rings. -/
theorem Owes.given {t : Timer Alarm} {before : History}
    (ho : Owes rt b c wait due e (.begins (.ring c t) h :: before)) (hr : Rung rt b.id e c t h before)
    (hnow : (h.clock c).now = due) (hc : Course rt b c (m :: .begins (.ring c t) h :: before)) (hd : Debounced b wait)
    (hg : ¬Gone m.host.runtimes rt b.id) : Even rt b c wait (m :: .begins (.ring c t) h :: before) := by
  have honce : ∀ {b'}, Keeps h.runtimes rt b' → b'.id = b.id → b'.plan.isOnce = false := by
    intro b' hkeeps hid
    rw [((hc.tail.steady _ List.mem_cons_self).row hkeeps hid).1]
    exact hd.again
  obtain ⟨b', h', hnext, hid, hclocks⟩ := next_of_ring hc.tail.told.1 hr honce
  cases hc.linked.1 _ hnext
  have hinput : (Moment.begins (.effect rt b' e) h').input? rt b c = none := input_other hg fun _ hf => hf
  have hmachine := machine_skip wait (.begins (.ring c t) h :: before) hinput
  have ht : ¬(Moment.begins (.effect rt b' e) h').Turns rt b.id := Moment.not_turns (fun _ hf => hf) fun _ hr => hr
  constructor
  · have hreading : (h'.clock c).now = due := by
      rw [← hnow]
      show (clockAt h'.clocks c).now = (clockAt h.clocks c).now
      rw [hclocks]
    rw [hmachine, evaluations_effect hid, hreading]
    exact ho.outputs
  · intro due' e'
    rw [hmachine, ho.idle, waits_cons ht]
    constructor
    · intro hp
      cases hp
    · intro ⟨hwaits, _⟩
      exact absurd hwaits (not_waits hr.action)
  · intro due' e' hp
    rw [hmachine, ho.idle] at hp
    cases hp
  · intro m' before' e' heq hrings
    cases heq
    exact hrings

/-- While a binding waits, an advance that is to reach its instant is not over. -/
theorem Course.reached (hc : Course rt b c (m :: tr)) (hw : Waits rt b.id c due e tr)
    (hg : ¬Gone m.host.runtimes rt b.id) {p : Nat × Host} (hp : p ∈ underway c tr) (hle : due ≤ p.1) :
    ∃ p ∈ underway c (m :: tr), due ≤ p.1 := by
  rcases within_cases c m with ⟨instant, h, rfl⟩ | ⟨instant, r, h, rfl⟩ | hwithin
  · rw [underway_begins]
    exact ⟨p, List.mem_cons_of_mem _ hp, hle⟩
  · obtain ⟨hkept, hover, h₀, before, inner, hin, rfl, -⟩ := hc.told.1
    obtain ⟨m₀, hl, harms⟩ := hw
    rcases hkept.clocked.kept rfl hl harms with ⟨t, ht, hdue, -⟩ | hgone
    · have hlt := hover t ht
      rw [underway_nested hin, underway_begins] at hp
      rw [underway_ends, underway_nested hin, underway_begins, List.tail_cons]
      rcases List.mem_cons.mp hp with rfl | hp
      · simp only at hle
        omega
      · exact ⟨p, hp, hle⟩
    · exact absurd hgone hg
  · rw [underway_within _ hwithin]
    exact ⟨p, hp, hle⟩

theorem Owes.step (ho : Owes rt b c wait due e tr) (hc : Course rt b c (m :: tr)) (hd : Debounced b wait) :
    Even rt b c wait (m :: tr) ∨ Owes rt b c wait due e (m :: tr) := by
  obtain ⟨p, hp, hle⟩ := ho.reached
  obtain ⟨hf, hgone⟩ := hc.undisturbed.alone.1 p hp
  have hg : ¬Gone m.host.runtimes rt b.id := fun hg => ho.bound ⟨_, underway_mem hp, hgone hg⟩
  rcases ho.next with hwaits | ⟨t, h, before, rfl, hr, hnow⟩
  · have hother := input_other (c := c) hg hf
    have hmachine : machine rt b c wait (m :: tr) = machine rt b c wait tr := by
      cases htarget : m.target? c with
      | none =>
        rw [htarget] at hother
        exact machine_skip _ _ hother
      | some instant =>
        rw [htarget] at hother
        rw [machine_cons _ _ hother, ho.idle]
        exact Prod.ext ho.idle.symm (List.append_nil _)
    have hevaluates : ¬m.Evaluates rt b.id := by
      intro hm
      obtain ⟨m', before, e', rfl, hr⟩ := hc.rings_of_evaluates hd hm
      exact not_waits hr hwaits
    refine .inr ⟨?_, ?_, ?_, hc.reached hwaits hg hp hle, ?_⟩
    · rw [hmachine, evaluations_cons hevaluates]
      exact ho.outputs
    · rw [hmachine]
      exact ho.idle
    · rw [lapsed_cons hg]
      exact ho.bound
    · by_cases hr : ∃ e', m.Rings rt b.id e'
      · obtain ⟨e', hr⟩ := hr
        obtain ⟨t, hring, hrung, hnow, -⟩ := hc.rung hr
        obtain ⟨-, rfl, rfl⟩ := hrung.waited.unique hwaits
        exact .inr ⟨t, m.host, tr, by rw [← hring], hrung, hnow⟩
      · exact .inl ((waits_cons (Moment.not_turns hf fun e' h => hr ⟨e', h⟩)).mpr hwaits)
  · exact .inl (ho.given hr hnow hc hd hg)

theorem Told.after {F : Nat → Prop} {later : History} (ht : Told F (later ++ tr)) : Told F tr := by
  induction later with
  | nil => exact ht
  | cons m later ih => exact ih ht.2.2.2

theorem Linked.after {later : History} (hl : Linked (later ++ tr)) : Linked tr := by
  induction later with
  | nil => exact hl
  | cons m later ih => exact ih hl.tail

/-- Of two moments one is later. -/
theorem Told.onward {F : Nat → Prop} {m' : Moment} (ht : Told F tr) (hm : m ∈ tr) (hm' : m' ∈ tr) :
    Onward m.host m'.host ∨ Onward m'.host m.host := by
  obtain ⟨later, earlier, rfl⟩ := List.append_of_mem hm
  obtain ⟨htold, hlater, -⟩ := ht.split
  rcases List.mem_append.mp hm' with hm' | hm'
  · exact .inl (hlater m' hm')
  · rcases List.mem_cons.mp hm' with rfl | hm'
    · exact .inl (.rfl _)
    · exact .inr (htold.2.2.1 m' hm')

theorem Undisturbed.before {later : History} (hu : Undisturbed rt id c (later ++ tr)) : Undisturbed rt id c tr where
  unreentered m hm := hu.unreentered m (List.mem_append_right _ hm)
  advanced clock limit h hm := hu.advanced clock limit h (List.mem_append_right _ hm)
  alone := by
    have halone := hu.alone
    clear hu
    induction later with
    | nil => exact halone
    | cons m later ih => exact ih halone.2

end Eventful.Host
