import Eventful.Proofs.Host.Setting
import Eventful.Proofs.Scope.Dotted

/-
  Eventful.Proofs.Host.Reporting — the path under which a change is told.

  Whoever is told of a change finds the new value behind the keys that were written
  (`Reported`). The dotted path names these keys and no others only if there is no dot in
  one of them: a write to `o["a.b"]` is reported as one to `o.a.b`.

  - `reported_path`: what is told, by setting a path and by evaluating any source;
  - `dottedScope_misreports`: a reported path at which the new value is not read.
-/

namespace Eventful.Host

open Scope

variable {α : Type} {i : Nat} {h h' : Host} {cs : List Call} {path : List String} {v : Value}

/-- The call leaves the scope where it is, and unwritten. -/
def Call.Spares (i : Nat) (c : Call) : Prop := c.OnlyReads i ∧ i < c.after.scopes.length

/-- A subscriber is told of a change behind the keys. -/
structure Reported (i : Nat) (path : List String) (change : Change) (c : Call) : Prop where
  told : ∃ w, c.told? = some (w, change)
  ne_nil : path ≠ []
  named : change.path = ".".intercalate path
  stands : follow path (c.before.scope i).snapshot = change.new

theorem InTurn.length (ht : InTurn h cs h') (hi : i < h.scopes.length) (hs : ∀ c ∈ cs, c.Spares i) :
    i < h'.scopes.length := by
  induction cs generalizing h with
  | nil =>
    cases ht
    exact hi
  | cons c cs ih =>
    obtain ⟨-, hrest⟩ := ht
    obtain ⟨hc, hs⟩ := List.forall_mem_cons.mp hs
    exact ih hrest hc.2 hs

theorem reported_of_told {s : Scope Watcher} {change : Option Change} (hi : i < h.scopes.length)
    (hw : (h.scope i).write path v = .ok (s, change)) (ht : Announced i s change h cs h') (hs : ∀ c ∈ cs, c.Spares i) :
    ∀ c ∈ cs, ∃ ch, Reported i path ch c := by
  intro c hc
  have hmem : c.told? ∈ change.toList.flatMap fun ch => (h.scope i).subscribers.map fun w => some (w.2, ch) := by
    rw [← ht.told]
    exact List.mem_map_of_mem hc
  obtain ⟨ch, hch, w, -, htold⟩ : ∃ ch ∈ change.toList, ∃ w ∈ (h.scope i).subscribers, some (w.2, ch) = c.told? := by
    simpa only [List.mem_flatMap, List.mem_map] using hmem
  cases Option.mem_toList.mp hch
  have hne : path ≠ [] := by
    rintro rfl
    cases hw
  obtain ⟨hnamed, hnew, hstands⟩ := change_of_write hw
  have hbefore := (ht.inTurn.reads fun c hc => (hs c hc).1).2 c hc
  rw [scope_setScope hi] at hbefore
  refine ⟨ch, ⟨w.2, htold.symm⟩, hne, hnamed, ?_⟩
  rw [hnew, Scope.snapshot, hbefore]
  exact hstands

/-- What a write reports stands behind its path. -/
theorem reported_write {r : Except Blocked Unit} (hi : i < h.scopes.length) (hg : (write i path v).Gives h cs r h')
    (hs : ∀ c ∈ cs, c.Spares i) : i < h'.scopes.length ∧ ∀ c ∈ cs, ∃ change, Reported i path change c := by
  cases hw : (h.scope i).write path v with
  | error b =>
    unfold write at hg
    rw [gives_get, hw] at hg
    obtain ⟨rfl, -, rfl⟩ := hg
    exact ⟨hi, List.forall_mem_nil _⟩
  | ok p =>
    obtain ⟨s, change⟩ := p
    have htold := (gives_write hw hg).2
    refine ⟨htold.inTurn.length ?_ hs, reported_of_told hi hw htold hs⟩
    rwa [length_setScope]

theorem reported_converse {d : Expr.Dialogue α} {a : α} (hi : i < h.scopes.length) (hg : (converse i d).Gives h cs a h')
    (hs : ∀ c ∈ cs, c.Spares i) : ∀ c ∈ cs, ∃ path change, Reported i path change c := by
  induction d generalizing h cs with
  | done b =>
    obtain ⟨rfl, -, -⟩ := hg
    exact List.forall_mem_nil _
  | ask name k ih => exact ih _ hi hg hs
  | tell path v k ih =>
    obtain ⟨r, h₁, cs₁, cs₂, rfl, hwrite, hrest⟩ := gives_bind.mp hg
    obtain ⟨hs₁, hs₂⟩ := List.forall_mem_append.mp hs
    obtain ⟨hi₁, hreported⟩ := reported_write hi hwrite hs₁
    exact List.forall_mem_append.mpr ⟨fun c hc => ⟨path, hreported c hc⟩, ih r hi₁ hrest hs₂⟩

theorem reported_evaluate {source : String} {locals : List (String × Value)} {fresh : Bool} {r : Outcome}
    (hi : i < h.scopes.length) (hg : (evaluate i source locals fresh).Gives h cs r h') (hs : ∀ c ∈ cs, c.Spares i) :
    ∀ c ∈ cs, ∃ path change, Reported i path change c := by
  unfold evaluate at hg
  split at hg
  · exact reported_converse hi hg hs
  · rw [gives_get] at hg
    -- What is looked up may fill the cache; the scopes are as they were.
    refine reported_converse ?_ (gives_first.mp hg) hs
    exact hi

/-! ## Reading a reported path -/

/-- Whether a path is set or a source is evaluated, and whatever source that is: if the
    subscribers only read, each of them is told of a change behind keys that have their new
    value then. At the dotted path of these keys is read what stands behind their parts
    between the dots. So that is the new value if there is no dot in the keys, and no two
    such lists of keys are reported under one path. -/
theorem reported_path (h : Host) (i : Nat) (hi : i < h.scopes.length) :
    (∀ path v cs a h', (perform (.setPath i path v)).Gives h cs a h' → (∀ c ∈ cs, c.Spares i) →
      ∀ c ∈ cs, ∃ change, Reported i path change c) ∧
    (∀ source locals fresh cs r h', (evaluate i source locals fresh).Gives h cs r h' → (∀ c ∈ cs, c.Spares i) →
      ∀ c ∈ cs, ∃ path change, Reported i path change c) ∧
    (∀ path change c, Reported i path change c →
      (c.before.scope i).getPath change.path = follow (path.flatMap keysOf) (c.before.scope i).snapshot ∧
      ((∀ key ∈ path, Dotless key) → (c.before.scope i).getPath change.path = change.new)) ∧
    ∀ p q change change' c c', Reported i p change c → Reported i q change' c' → (∀ key ∈ p, Dotless key) →
      (∀ key ∈ q, Dotless key) → change.path = change'.path → p = q := by
  refine ⟨?_, ?_, ?_, ?_⟩
  · intro path v cs a h' hg hs
    obtain ⟨r, h₁, cs₁, cs₂, rfl, hwrite, hanswer⟩ := gives_bind.mp hg
    have hnone : cs₂ = [] := by cases r <;> exact hanswer.1
    subst hnone
    rw [List.append_nil] at hs ⊢
    exact (reported_write hi hwrite hs).2
  · intro source locals fresh cs r h' hg hs
    exact reported_evaluate hi hg hs
  · intro path change c hr
    refine ⟨?_, fun hdotless => ?_⟩
    · rw [hr.named]
      exact getPath_join _ hr.ne_nil
    · rw [hr.named, getPath, keysOf_join_dotless hr.ne_nil hdotless]
      exact hr.stands
  · intro p q change change' c c' hp hq hdotless hdotless' heq
    rw [hp.named, hq.named] at heq
    exact join_inj hp.ne_nil hq.ne_nil hdotless hdotless' heq

theorem shownScope_reported : ∃ change c, Reported 0 ["a", "b"] change c ∧ change.path = "a.b" ∧
    (c.before.scope 0).getPath "a.b" = change.new := by
  obtain ⟨hset, -, hread, -⟩ := reported_path shownScope 0 (by decide)
  have hrun : (perform (.setPath 0 ["a", "b"] .null)).run 3 shownScope = some (.count 1, _) := rfl
  obtain ⟨cs, hg, hcs⟩ := gives_of_run hrun
  have hspared : (∀ c ∈ cs, c.Spares 0) ∧ ∃ c, c ∈ cs := by
    obtain ⟨⟨⟩, h₁, rest, rfl, rfl, -, -⟩ := hg
    have hafter := (Option.some.inj (hcs _ List.mem_cons_self)).symm
    have hlength : h₁.scopes.length = 1 := congrArg (fun r => r.2.scopes.length) hafter
    have hi : 0 < h₁.scopes.length := Nat.lt_of_lt_of_eq Nat.zero_lt_one hlength.symm
    refine ⟨List.forall_mem_singleton.mpr ⟨⟨?_, ?_⟩, hi⟩, _, List.mem_cons_self⟩
    · exact congrArg (fun r => (r.2.scope 0).data) hafter
    · exact congrArg (fun r => (r.2.scope 0).version) hafter
  obtain ⟨hspared, c, hc⟩ := hspared
  obtain ⟨change, hr⟩ := hset _ _ _ _ _ hg hspared c hc
  have hnamed : change.path = "a.b" := hr.named.trans (by decide)
  have hdotless : ∀ key ∈ ["a", "b"], Dotless key := by simp [Dotless]
  exact ⟨change, _, hr, hnamed, by rw [← hnamed]; exact (hread _ _ _ hr).2 hdotless⟩

/-- A scope with an object in it, and a subscriber. -/
def dottedScope : Host :=
  let start := Host.new "" .browser [.object [("o", .empty)]]
  (play 1 [.subscribe 0 none (.mk "show" [])] start []).1.getD start

/-- A key with a dot: the change is told under a path at which nothing is read. -/
theorem dottedScope_misreports : ∃ h' change, (perform (.setPath 0 ["o", "a.b"] (.boolean true))).run 3 dottedScope =
      some (.count 1, h') ∧ h'.log = [.change "show" change] ∧ change.path = "o.a.b" ∧ change.new = .boolean true ∧
    (h'.scope 0).getPath change.path = .undefined :=
  ⟨_, _, rfl, rfl, rfl, rfl, rfl⟩

end Eventful.Host
