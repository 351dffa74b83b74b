import Eventful.Proofs.Host.Assigning
import Eventful.Proofs.Scope.Noticing

/-
  Eventful.Proofs.Host.Setting — what setting a path of a scope does.

  It is refused, or has no effect, or stores the value and then tells every subscriber of
  the change, if there is one. Which of the three it is depends on the objects on the way
  alone, not on the value that is set.

  - `setPath_one_end`: the three ends, for a path that is not empty;
  - `setPath_noticed`: where what is told and what has changed are two things.
-/

namespace Eventful.Host

open Value

variable {i : Nat} {h h' : Host} {cs : List Call} {path : List String} {v : Value}

/-- Setting a path sets the value, tells of it, and answers with the version that is left. -/
theorem gives_setPath {s : Scope Watcher} {change : Option Change} {a : Answer}
    (hw : (h.scope i).write path v = .ok (s, change)) (hg : (perform (.setPath i path v)).Gives h cs a h') :
    a = .count (h'.scope i).version ∧ Announced i s change h cs h' := by
  obtain ⟨r, h₁, cs₁, cs₂, rfl, hwrite, hanswer⟩ := gives_bind.mp hg
  obtain ⟨rfl, htold⟩ := gives_write hw hwrite
  obtain ⟨rfl, rfl, rfl⟩ := hanswer
  rw [List.append_nil]
  exact ⟨rfl, htold⟩

theorem run_setPath_refused {b : Blocked} (hw : (h.scope i).write path v = .error b) :
    (perform (.setPath i path v)).run 0 h = some (.outcome (.error (.blocked b)), h) :=
  runWith_bind.mpr ⟨_, _, runWith_refused hw, rfl⟩

/-- A host is as it was if what was stored in a scope is the scope. -/
theorem setScope_self (hi : i < h.scopes.length) : h.setScope i (h.scope i) = h := by
  simp [setScope, scope, hi]

theorem run_setPath_lost (hi : i < h.scopes.length) (hw : (h.scope i).write path v = .ok (h.scope i, none)) :
    (perform (.setPath i path v)).run 0 h = some (.count (h.scope i).version, h) := by
  have hwrite : (write i path v).run 0 h = some (.ok (), h) := by
    unfold write Proc.run
    rw [runWith_get, hw]
    show some (Except.ok (), h.setScope i (h.scope i)) = _
    rw [setScope_self hi]
  exact runWith_bind.mpr ⟨_, _, hwrite, rfl⟩

/-- Setting a path of a scope has one of three ends. The way is barred: that is an error of
    type, and nothing happens. The way leads to a value that has no properties: nothing
    happens. Or the way is open: the value is stored, and if it differs from the old one the
    version grows by one and every subscriber is told of the change, once and in order. The
    answer comes unless a subscriber does not come back; subscribers that only read leave
    the data and the version as they were stored. -/
theorem setPath_one_end (h : Host) (i : Nat) (hi : i < h.scopes.length) (path : List String) (hp : path ≠ []) (v : Value) :
    ((Barred path (h.scope i).snapshot ∧ ¬Lost path (h.scope i).snapshot ∧ ¬Open path (h.scope i).snapshot) ∨
      (¬Barred path (h.scope i).snapshot ∧ Lost path (h.scope i).snapshot ∧ ¬Open path (h.scope i).snapshot) ∨
      (¬Barred path (h.scope i).snapshot ∧ ¬Lost path (h.scope i).snapshot ∧ Open path (h.scope i).snapshot)) ∧
    (Barred path (h.scope i).snapshot →
      ∃ f, (perform (.setPath i path v)).run 0 h = some (.outcome (.error f), h) ∧ f.kind = .illTyped) ∧
    (Lost path (h.scope i).snapshot →
      (perform (.setPath i path v)).run 0 h = some (.count (h.scope i).version, h)) ∧
    (Open path (h.scope i).snapshot → ∃ s change, Scope.Stores path v (h.scope i) s change ∧
      (∀ cs a h', (perform (.setPath i path v)).Gives h cs a h' →
        a = .count (h'.scope i).version ∧ Announced i s change h cs h' ∧
          ((∀ c ∈ cs, c.OnlyReads i) → (h'.scope i).data = s.data ∧ (h'.scope i).version = s.version)) ∧
      ∀ depth, (perform (.setPath i path v)).run depth h = none →
        ∃ w ∈ (h.scope i).subscribers, ∃ ch ∈ change, ∃ h₁, Task.run depth .unit (.watch w.2 ch) h₁ = none) := by
  have hone := Scope.one_end hp (h.scope i)
  have hend := Scope.write_end hp v (h.scope i)
  generalize hw : (h.scope i).write path v = w at hend
  cases hend with
  | barred hhalt hnullish _ =>
    have hbarred : Barred path (h.scope i).snapshot := ⟨_, _, hhalt, hnullish⟩
    refine ⟨hone, fun _ => ⟨_, run_setPath_refused hw, rfl⟩, fun hlost => ?_, fun hopen => ?_⟩
    · exact absurd hlost hbarred.not_lost
    · exact absurd hopen hhalt.not_open
  | lost hlost =>
    obtain ⟨p, u, hhalt, -⟩ := id hlost
    refine ⟨hone, fun hbarred => ?_, fun _ => run_setPath_lost hi hw, fun hopen => ?_⟩
    · exact absurd hlost hbarred.not_lost
    · exact absurd hopen hhalt.not_open
  | @stored s change hopen hstores =>
    refine ⟨hone, fun ⟨p, holder, hhalt, _⟩ => ?_, fun ⟨p, u, hhalt, _⟩ => ?_, fun _ => ⟨s, change, hstores, ?_, ?_⟩⟩
    · exact absurd hopen hhalt.not_open
    · exact absurd hopen hhalt.not_open
    · intro cs a h' hg
      obtain ⟨hanswer, htold⟩ := gives_setPath hw hg
      exact ⟨hanswer, htold, htold.reads hi⟩
    · intro depth hnone
      obtain ⟨w, hmem, ch, hch, h₁, htask⟩ := gives_up_in_subscriber hnone fun cs a h' hg => (gives_setPath hw hg).2.told
      exact ⟨w, hmem, ch, Option.mem_toList.mp hch, h₁, htask⟩

theorem shownScope_ends :
    (∃ f, (perform (.setPath 0 ["x", "y"] .null)).run 0 shownScope = some (.outcome (.error f), shownScope) ∧
      f.kind = .illTyped) ∧
    (perform (.setPath 0 ["c", "y"] .null)).run 0 shownScope = some (.count 0, shownScope) ∧
    ∃ s change cs h', Scope.Stores ["a", "b"] .null (shownScope.scope 0) s (some change) ∧
      (perform (.setPath 0 ["a", "b"] .null)).run 3 shownScope = some (.count 1, h') ∧
      Announced 0 s (some change) shownScope cs h' ∧ cs.length = 1 := by
  have hends (key : String) := setPath_one_end shownScope 0 (by decide) [key, "y"] (List.cons_ne_nil _ _) .null
  have hend := setPath_one_end shownScope 0 (by decide) ["a", "b"] (List.cons_ne_nil _ _) .null
  have hway (key : String) : [key] <+: [key, "y"].dropLast := List.prefix_refl _
  refine ⟨(hends "x").2.1 ⟨["x"], none, ⟨hway "x", ⟨_, rfl⟩, rfl, nofun⟩, rfl⟩,
    (hends "c").2.2.1 ⟨["c"], .text "kept", ⟨hway "c", ⟨_, rfl⟩, rfl, nofun⟩, rfl⟩, ?_⟩
  obtain ⟨s, change, hstores, hgives, -⟩ := hend.2.2.2 ⟨_, rfl⟩
  have hrun : (perform (.setPath 0 ["a", "b"] .null)).run 3 shownScope = some (.count 1, _) := rfl
  obtain ⟨cs, hg, -⟩ := gives_of_run hrun
  obtain ⟨-, htold, -⟩ := hgives _ _ _ hg
  have hchanged := hstores.told
  rw [if_neg (by decide)] at hchanged
  subst hchanged
  have hone : (shownScope.scope 0).subscribers.length = 1 := rfl
  exact ⟨s, _, cs, _, hstores, hrun, htold, by simpa [hone] using congrArg List.length htold.told⟩

/-- Setting a path is refused, or every subscriber is told and a version counted exactly if
    the data of the scope can be told apart from what they were, but for three kinds of
    writes. A property that is added undefined and zeros that turn their sign are not told; a
    value with a NaN in it that is set over itself is told, and changes nothing. -/
theorem setPath_noticed (h : Host) (i : Nat) (hi : i < h.scopes.length) (path : List String) (v : Value)
    (ho : (h.scope i).snapshot.Ordered) :
    (∃ f, (perform (.setPath i path v)).run 0 h = some (.outcome (.error f), h)) ∨
    ∃ s change,
      (∀ cs a h', (perform (.setPath i path v)).Gives h cs a h' → Announced i s change h cs h' ∧
        ((∀ c ∈ cs, c.OnlyReads i) → (h'.scope i).data = s.data ∧ (h'.scope i).version = s.version)) ∧
      s.version = (h.scope i).version + change.toList.length ∧
      ((h.scope i).Distinct s ∧ change = none ↔ path ≠ [] ∧ Open path (h.scope i).snapshot ∧
        ((h.scope i).snapshot.at? path = none ∧ v = .undefined ∨
          ∃ old, (h.scope i).snapshot.at? path = some old ∧ old ≠ v ∧ old.hasNaN = false ∧ old.unsigned = v.unsigned)) ∧
      (¬(h.scope i).Distinct s ∧ change ≠ none ↔
        path ≠ [] ∧ (h.scope i).snapshot.at? path = some v ∧ v.hasNaN = true) := by
  cases hw : (h.scope i).write path v with
  | error b => exact .inl ⟨_, run_setPath_refused hw⟩
  | ok p =>
    obtain ⟨s, change⟩ := p
    obtain ⟨hsilent, hidle⟩ := Scope.write_noticed ho hw
    obtain ⟨-, hversion, -⟩ := Scope.write_cases hw
    refine .inr ⟨s, change, fun cs a h' hg => ?_, hversion, hsilent, hidle⟩
    have htold := (gives_setPath hw hg).2
    exact ⟨htold, htold.reads hi⟩

/-- A scope in which a NaN is held. -/
def oddScope : Host := .new "" .browser [.object [("n", .number Number.nan)]]

theorem oddScope_noticed : ∃ s, (oddScope.scope 0).Distinct s ∧ s.version = 0 := by
  have hordered : (oddScope.scope 0).snapshot.Ordered := by
    intro p fs hp
    cases p with
    | nil =>
      cases hp
      exact List.pairwise_singleton _ _
    | cons key p =>
      obtain ⟨u, hget, hu⟩ := at?_eq_some_iff.mp hp
      have hfirst : (if "n" == key then some (.number Number.nan) else none) = some u := hget
      split at hfirst <;> cases hfirst
      cases p <;> cases hu
  rcases setPath_noticed oddScope 0 (by decide) ["x"] .undefined hordered with ⟨f, hf⟩ | ⟨s, change, -, hversion, hsilent, -⟩
  · cases hf
  · obtain ⟨hdistinct, rfl⟩ := hsilent.mpr ⟨List.cons_ne_nil _ _, ⟨_, rfl⟩, .inl ⟨rfl, rfl⟩⟩
    exact ⟨s, hdistinct, hversion⟩

/-- A name that is there all at once, and no version that counts it; and a version that counts
    a write of what was there. -/
theorem oddScope_misnoticed :
    (∃ h', (perform (.setPath 0 ["x"] .undefined)).run 0 oddScope = some (.count 0, h') ∧
      (oddScope.scope 0).has "x" = false ∧ (h'.scope 0).has "x" = true) ∧
    ∃ h', (perform (.setPath 0 ["n"] (.number Number.nan))).run 0 oddScope = some (.count 1, h') ∧
      (h'.scope 0).data = (oddScope.scope 0).data :=
  ⟨⟨_, rfl, rfl, rfl⟩, _, rfl, rfl⟩

end Eventful.Host
