import Eventful.Proofs.Host.Unbinding

/-
  Eventful.Proofs.Host.Once — a `once` binding is evaluated once.

  The binding is marked as fired before its expression is evaluated and unbound after, so
  an event that reaches it in between finds it fired, and one that comes later does not
  find it at all.

  - `session_once`: no history holds two evaluations of a `once` binding. One that does not
    wait is evaluated for the first event that its guards admit. Whatever task an evaluation
    was part of, when the task ends the binding is gone, with all that was registered for it.
-/

namespace Eventful.Host

open Page Binding

variable {F : Nat → Prop} {h : Host} {tr later earlier : History} {m : Moment} {κ : Kind} {rt : Nat} {b : Bound}
  {e : Event}

/-! ## What modifiers ask for -/

/-- The binding does what its directive asks for. -/
def Planned (b : Bound) : Prop := ∃ c, Directive.Plan.build c b.directive = .ok b.plan

theorem Planned.isOnce_iff (hp : Planned b) : b.plan.isOnce = true ↔ .once ∈ b.directive.modifiers :=
  let ⟨_, hbuilt⟩ := hp
  Directive.Plan.isOnce_iff hbuilt

theorem Planned.waitless_iff (hp : Planned b) :
    Waitless b.plan.guards ↔ ∀ wait, .debounce wait ∉ b.directive.modifiers := by
  obtain ⟨c, hbuilt⟩ := hp
  exact not_exists.symm.trans ((not_congr (Directive.Plan.debounced_iff hbuilt)).trans not_exists)

theorem planned_of_keeps (hb : Books F h) (hkeeps : Keeps h.runtimes rt b) : Planned b := by
  obtain ⟨r, hr, hreach⟩ := hkeeps
  exact ⟨r.config, (hb.runtimes hr).built hreach⟩

theorem planned_of_fit (hfit : Fit F (.begins (.effect rt b e) h) tr) : Planned b := by
  obtain ⟨hkept, ⟨b', hkeeps, hsame, -⟩, -⟩ := hfit
  obtain ⟨c, hbuilt⟩ := planned_of_keeps hkept.books hkeeps
  exact ⟨c, by rw [← hsame.directive, ← hsame.plan]; exact hbuilt⟩

/-! ## At most once -/

theorem not_evaluated_before (hfit : Fit F (.begins (.effect rt b e) h) earlier)
    (honce : .once ∈ b.directive.modifiers) : ∀ m ∈ earlier, ¬m.Evaluates rt b.id := by
  intro m hm he
  obtain ⟨b', e', h', rfl, hid⟩ := he
  obtain ⟨-, -, -, hnot, -⟩ := id hfit
  exact hnot ((planned_of_fit hfit).isOnce_iff.mpr honce) ⟨b', e', h', hm, hid⟩

theorem evaluated_once (ht : Told F (later ++ .begins (.effect rt b e) h :: earlier))
    (honce : .once ∈ b.directive.modifiers) : ∀ m ∈ later ++ earlier, ¬m.Evaluates rt b.id := by
  intro m hm he
  obtain ⟨⟨hfit, -⟩, honward, -⟩ := ht.split
  rcases List.mem_append.mp hm with hm | hm
  · -- Seen from a second evaluation, the first one is an earlier evaluation of the same binding.
    have hlater := honward m hm
    obtain ⟨between, before, rfl⟩ := List.append_of_mem hm
    rw [List.append_assoc, List.cons_append] at ht
    obtain ⟨⟨hfit', -⟩, -⟩ := ht.split
    obtain ⟨b', e', h', rfl, hid⟩ := he
    obtain ⟨-, ⟨b₁, hkeeps, hsame₁, -⟩, -⟩ := id hfit'
    have hsame := (same_of_evaluated hfit hlater hkeeps (hsame₁.id.trans hid)).1
    have honce' : .once ∈ b'.directive.modifiers := by rwa [← hsame₁.directive, hsame.directive]
    exact not_evaluated_before hfit' honce' _ (List.mem_append_right _ List.mem_cons_self) ⟨b, e, h, rfl, hid.symm⟩
  · exact not_evaluated_before hfit honce m hm he

/-! ## At the first event -/

/-- An event reaches the binding that its guards admit. -/
def Moment.Triggers (rt : Nat) (b : Bound) (e : Event) (m : Moment) : Prop :=
  m.Fires rt b.id e ∧ Admits m.host.page.tree b.element e b.plan.guards

theorem first_complete {r : Runtime Script} (hlive : live? h rt b.id = some (r, b))
    (hfresh : (b.plan.isOnce && b.fired) = false) (t : Task .event) :
    (complete rt b.id e).first t h = .begins (.effect rt b e) (begun h rt b) := by
  unfold complete
  rw [first_get, hlive]
  simp only [hfresh]
  rfl

theorem first_fire {r : Runtime Script} (hlive : live? h rt b.id = some (r, b))
    (hfresh : (b.plan.isOnce && b.fired) = false) (hw : Waitless b.plan.guards)
    (ha : Admits h.page.tree b.element e b.plan.guards) (t : Task .event) :
    (fire rt b.id e).first t h = .begins (.effect rt b (heard e b.plan.guards)) (begun h rt b) := by
  have hgiven := passGuards_admits rt [] e hw ha
  rw [List.append_nil] at hgiven
  unfold fire
  rw [first_get, hlive]
  simp only [hfresh]
  show (passGuards rt b e b.plan.guards).first t h = _
  rw [← given_first, hgiven, given_first]
  exact first_complete hlive hfresh t

/-- What happens next when an event fires a binding. -/
theorem next_of_fires {id : Nat} (hf : m.Fires rt id e) :
    ∃ t : Task .event, m.next = some ((fire rt id e).first t m.host) := by
  cases m with
  | ends t r h => exact hf.elim
  | begins t h =>
    cases t with
    | listen l e' =>
      obtain ⟨ha, rfl⟩ := hf
      refine ⟨.listen l e', ?_⟩
      simp only [Moment.next, Task.body, ha]
      rfl
    | outside w e' =>
      obtain ⟨ha, rfl⟩ := hf
      refine ⟨.outside w e', ?_⟩
      simp only [Moment.next, Task.body, ha]
      rfl
    | _ => exact hf.elim

theorem books_of_fires {id : Nat} (hfit : Fit F m tr) (hf : m.Fires rt id e) : Books F m.host := by
  cases m with
  | ends t r h => exact hf.elim
  | begins t h =>
    cases t with
    | listen l e' => exact hfit.1.books
    | outside w e' => exact hfit.1.books
    | _ => exact hf.elim

theorem evaluates_of_fires {id : Nat} (hf : m.Fires rt id e) (rt' id' : Nat) : ¬m.Evaluates rt' id' := by
  intro ⟨b, e', h, he, _⟩
  rw [he] at hf
  exact hf

theorem evaluated_iff {id : Nat} : Evaluated tr rt id ↔ ∃ m ∈ tr, m.Evaluates rt id := by
  constructor
  · intro ⟨b, e, h, hm, hid⟩
    exact ⟨_, hm, b, e, h, rfl, hid⟩
  · intro ⟨_, hm, b, e, h, he, hid⟩
    exact ⟨b, e, h, he ▸ hm, hid⟩

/-- A binding that does not wait and has not been evaluated is evaluated for an event that
    its guards admit. -/
theorem evaluated_at_trigger {m' : Moment} (ht : Told F (m :: earlier)) (hl : Linked (later ++ m' :: m :: earlier))
    (hbound : Binds m.host.runtimes rt b) (hwait : ∀ wait, .debounce wait ∉ b.directive.modifiers)
    (htrigger : m.Triggers rt b e) (hnot : ¬Evaluated earlier rt b.id) :
    m' = .begins (.effect rt b (heard e b.plan.guards)) (begun m.host rt b) := by
  obtain ⟨hfires, hadmits⟩ := htrigger
  obtain ⟨hfit, haccounted, -, -⟩ := ht
  have hbooks := books_of_fires hfit hfires
  obtain ⟨r, hr, h₀⟩ := id hbound
  have hne : r.status ≠ .ended := by
    intro hended
    rw [((hbooks.runtimes hr).ended hended).1] at h₀
    cases h₀
  have hlive := (live?_eq_some hbooks.runtimes).mpr ⟨hr, hne, .inl h₀, rfl⟩
  have hfresh : b.fired = false := by
    refine (Bool.not_eq_true _).mp fun hfired => hnot ?_
    obtain ⟨m₀, hm₀, he⟩ := evaluated_iff.mp (haccounted rt b hbound.keeps hfired)
    rcases List.mem_cons.mp hm₀ with rfl | hm₀
    · exact absurd he (evaluates_of_fires hfires _ _)
    · exact evaluated_iff.mpr ⟨m₀, hm₀, he⟩
  have hw := (planned_of_keeps hbooks hbound.keeps).waitless_iff.mpr hwait
  obtain ⟨t, hnext⟩ := next_of_fires hfires
  rw [first_fire hlive (by rw [hfresh, Bool.and_false]) hw hadmits t] at hnext
  exact hl.next hnext

/-- A binding that does not wait is evaluated for nothing else. -/
theorem triggered_of_evaluated (hfit : Fit F (.begins (.effect rt b e) h) earlier)
    (hwait : ∀ wait, .debounce wait ∉ b.directive.modifiers) :
    ∃ m before e₀, earlier = m :: before ∧ m.Triggers rt b e₀ ∧ e = heard e₀ b.plan.guards := by
  have hw := (planned_of_fit hfit).waitless_iff.mpr hwait
  obtain ⟨-, -, -, -, hled⟩ := hfit
  cases earlier with
  | nil => exact hled.elim
  | cons m before =>
    rcases hled with ⟨-, e₀, hfires, hadmits, he⟩ | ⟨hn, -⟩
    · exact ⟨m, before, e₀, rfl, ⟨hfires, hadmits⟩, he⟩
    · exact absurd hw hn

/-! ## In the end -/

/-- The id is nobody's, and nothing is registered for it. -/
structure Retired (h : Host) (rt id : Nat) : Prop where
  unbound : ∀ b, Binds h.runtimes rt b → b.id ≠ id
  unheard : ∀ {t l}, h.page.listeners.Stands t l → l.action ≠ .binding rt id
  unentered : ∀ {k w}, w ∈ (h.tracker k).entries → w.action ≠ .binding rt id

theorem retired_of_unbound (hb : Books F h) {id : Nat} (hn : ∀ b, Binds h.runtimes rt b → b.id ≠ id) :
    Retired h rt id where
  unbound := hn
  unheard := by
    intro t l hl ha
    obtain ⟨b, hbound, hfits⟩ := hb.listeners.backed hl ha
    have hid := hfits.action.symm.trans ha
    injection hid with _ hid
    exact hn b hbound hid
  unentered := by
    intro k w hw ha
    obtain ⟨b, hbound, -, -, rfl⟩ := hb.entries.backed hw ha
    injection ha with _ hid
    exact hn b hbound hid

/-- When a task ends, every `once` binding that was evaluated in it has retired. -/
theorem retired_of_ends {t : Task κ} {r : κ.Carrier} (ht : Told F (.ends t r h :: earlier)) :
    ∃ h₀ inner before, Nested inner ∧ earlier = inner ++ .begins t h₀ :: before ∧
      ∀ rt b e h₁, .begins (.effect rt b e) h₁ ∈ inner → .once ∈ b.directive.modifiers → Retired h rt b.id := by
  obtain ⟨⟨hkept, -, h₀, before, inner, hin, he, hsettled⟩, -, honward, htold⟩ := ht
  refine ⟨h₀, inner, before, hin, he, fun rt b e h₁ hm honce => retired_of_unbound hkept.books fun b' hbound hid => ?_⟩
  subst he
  have hlater : Onward h₁ h := honward _ (List.mem_append_left _ hm)
  obtain ⟨after, rest, rfl⟩ := List.append_of_mem hm
  rw [List.append_assoc, List.cons_append] at htold hsettled
  have hfit := htold.split.1.1
  have hsame := (same_of_evaluated hfit hlater hbound.keeps hid).1
  have honce' : b'.plan.isOnce = true := by
    rw [hsame.plan]
    exact (planned_of_fit hfit).isOnce_iff.mpr honce
  -- Bound after the task, it would have been evaluated before the task began as well.
  have hbefore := hsettled rt b' hbound honce'
    ⟨b, e, h₁, List.mem_cons_of_mem _ (List.mem_append_right _ List.mem_cons_self), hid.symm⟩
  obtain ⟨m, hm, hev⟩ := evaluated_iff.mp hbefore
  exact not_evaluated_before hfit honce m (List.mem_append_right _ hm) (hid ▸ hev)

/-! ## In a session -/

/-- Split the history of a session at any moment. An evaluation of a `once` binding is its
    only one. A binding without a wait is evaluated right after an event that its guards
    admit, if it was not evaluated before, and after nothing else. And when a task ends, the
    `once` bindings that were evaluated in it have retired, whatever the outcome was. -/
theorem session_once (depth : Nat) (as : List Action) (url : String) (globals : Globals) (scopes : List Value)
    (later earlier : History) (m : Moment) (hs : (play depth as (.new url globals scopes) []).2 = later ++ m :: earlier) :
    (∀ rt b e h, m = .begins (.effect rt b e) h → .once ∈ b.directive.modifiers →
      ∀ m' ∈ later ++ earlier, ¬m'.Evaluates rt b.id) ∧
    (∀ rt b e, Binds m.host.runtimes rt b → (∀ wait, .debounce wait ∉ b.directive.modifiers) → m.Triggers rt b e →
      ¬Evaluated earlier rt b.id → ∀ m' after, later = after ++ [m'] →
        m' = .begins (.effect rt b (heard e b.plan.guards)) (begun m.host rt b)) ∧
    (∀ rt b e h, m = .begins (.effect rt b e) h → (∀ wait, .debounce wait ∉ b.directive.modifiers) →
      ∃ m₀ before e₀, earlier = m₀ :: before ∧ m₀.Triggers rt b e₀ ∧ e = heard e₀ b.plan.guards) ∧
    ∀ (κ : Kind) (t : Task κ) (r : κ.Carrier) (h' : Host), m = .ends t r h' →
      ∃ h inner before, Nested inner ∧ earlier = inner ++ .begins t h :: before ∧
        ∀ rt b e h₁, .begins (.effect rt b e) h₁ ∈ inner → .once ∈ b.directive.modifiers → Retired h' rt b.id := by
  have htold := session_told (F := fun _ => False) depth as url globals scopes fun m _ => fair_nobody m
  have hlinked := linked_play depth as (.new url globals scopes)
  rw [hs] at htold hlinked
  have hm := htold.split.1
  refine ⟨?_, ?_, ?_, ?_⟩
  · intro rt b e h he honce
    subst he
    exact evaluated_once htold honce
  · intro rt b e hbound hwait htrigger hnot m' after hafter
    rw [hafter, List.append_assoc] at hlinked
    exact evaluated_at_trigger hm hlinked hbound hwait htrigger hnot
  · intro rt b e h he hwait
    subst he
    exact triggered_of_evaluated hm.1 hwait
  · intro κ t r h' he
    subst he
    exact retired_of_ends hm

/-- A `once` binding whose expression fails, and an error hook that clicks again. -/
def failedOnce : List Action :=
  [.newRuntime ⟨none, false, none, .custom fun _ _ => .done (.error .notATarget)⟩,
    .onError 0 (.mk "again" [.click 3]),
    .bindDirective 0 3 ⟨"x-on:click.once", "click", [.once], "open = true"⟩ 0,
    .click 3]

/-- The second click reaches the binding, which is still bound, and does not evaluate it. -/
theorem failedOnce_once : ∃ later earlier b e h,
    (play 5 failedOnce (.new "" .browser []) []).2 = later ++ .begins (.effect 0 b e) h :: earlier ∧
      .once ∈ b.directive.modifiers ∧ (∀ m ∈ later ++ earlier, ¬m.Evaluates 0 b.id) ∧
      ∃ m ∈ later, m.Triggers 0 b e ∧ Binds m.host.runtimes 0 { b with fired := true, running := 1 } := by
  have honce := session_once 5 failedOnce "" .browser [] _ _ (.begins (.effect 0 _ _) _)
    (List.take_append_drop 9 _).symm
  refine ⟨_, _, _, _, _, rfl, List.mem_cons_self, honce.1 0 _ _ _ rfl List.mem_cons_self, ?_⟩
  refine ⟨_, List.mem_of_getElem? (i := 5) rfl, ⟨⟨rfl, rfl⟩, ?_⟩, _, rfl, List.mem_cons_self⟩
  exact List.forall_mem_singleton.mpr trivial

end Eventful.Host
