import Eventful.Proofs.Expr.Paths
import Eventful.Proofs.Host.Setting

/-
  Eventful.Proofs.Host.Refusing — when setting a path is an error.

  - `setPath_refused`: it is one if and only if an expression that reads the path, up to the
    last key, finds undefined or null there and has come through no boolean, number or text;
  - `shownScope_dropsPastText`: past a text, undefined is read and the write is dropped.
-/

namespace Eventful.Host

open Value Eventful.Expr

variable {α : Type} {i : Nat} {h h' : Host} {cs : List Call} {p path : List String} {v : Value}

theorem gives_setPath_refused {b : Blocked} {a : Answer} (hw : (h.scope i).write path v = .error b)
    (hg : (perform (.setPath i path v)).Gives h cs a h') : a = .outcome (.error (.blocked b)) := by
  obtain ⟨r, h₁, cs₁, cs₂, rfl, hwrite, hanswer⟩ := gives_bind.mp hg
  unfold write at hwrite
  rw [gives_get, hw] at hwrite
  obtain ⟨rfl, rfl, rfl⟩ := hwrite
  exact hanswer.2.1

/-- Setting a path is an error if and only if what is read along it, up to the last key, is
    undefined or null, and was not read of a boolean, a number or a text on the way. The error
    is one of type, it comes without a call to a subscriber, and nothing has happened then. -/
theorem setPath_refused (h : Host) (i : Nat) (p : List String) (hp : p ≠ []) (key : String) (v : Value) :
    Answers (h.scope i) (readPath p) (.ok ((h.scope i).snapshot.along p)) ∧
    (((h.scope i).snapshot.along p).isNullish = true ∧ Clear p (h.scope i).snapshot →
      ∃ f, (perform (.setPath i (p ++ [key]) v)).run 0 h = some (.outcome (.error f), h) ∧ f.kind = .illTyped) ∧
    ∀ cs a h', (perform (.setPath i (p ++ [key]) v)).Gives h cs a h' →
      ((∃ f, a = .outcome (.error f)) ↔
        ((h.scope i).snapshot.along p).isNullish = true ∧ Clear p (h.scope i).snapshot) := by
  have hrefused := Scope.refused_iff (h.scope i) p key v
  refine ⟨answers_along _ hp, fun hread => ?_, fun cs a h' hg => ?_⟩
  · obtain ⟨b, hb⟩ := hrefused.mpr hread
    exact ⟨_, run_setPath_refused hb, rfl⟩
  · cases hw : (h.scope i).write (p ++ [key]) v with
    | error b =>
      rw [gives_setPath_refused hw hg]
      exact ⟨fun _ => hrefused.mp ⟨b, hw⟩, fun _ => ⟨_, rfl⟩⟩
    | ok r =>
      rw [(gives_setPath hw hg).1]
      constructor
      · rintro ⟨f, ⟨⟩⟩
      · intro hread
        obtain ⟨b, hb⟩ := hrefused.mpr hread
        rw [hw] at hb
        cases hb

theorem shownScope_refused :
    (∃ f, (perform (.setPath 0 ["x", "y"] .null)).run 0 shownScope = some (.outcome (.error f), shownScope) ∧
      f.kind = .illTyped) ∧
    ∃ a h', (perform (.setPath 0 ["a", "b"] .null)).run 3 shownScope = some (a, h') ∧ ∀ f, a ≠ .outcome (.error f) := by
  constructor
  · refine (setPath_refused shownScope 0 ["x"] (List.cons_ne_nil _ _) "y" .null).2.1 ⟨rfl, ?_⟩
    intro q hq hne
    rcases List.prefix_concat_iff.mp (show q <+: [] ++ ["x"] from hq) with rfl | hq
    · exact absurd rfl hne
    · obtain rfl := List.prefix_nil.mp hq
      exact not_plain_object _
  · have hrun : (perform (.setPath 0 ["a", "b"] .null)).run 3 shownScope = some (_, _) := rfl
    obtain ⟨cs, hg, -⟩ := gives_of_run hrun
    have hiff := (setPath_refused shownScope 0 ["a"] (List.cons_ne_nil _ _) "b" .null).2.2 _ _ _ hg
    refine ⟨_, _, hrun, fun f hf => ?_⟩
    obtain ⟨hread, -⟩ := hiff.mp ⟨f, hf⟩
    cases hread

/-- Past a text: undefined is read, and the write is no error. -/
theorem shownScope_dropsPastText : ((shownScope.scope 0).snapshot.along ["c", "x"]).isNullish = true ∧
    (perform (.setPath 0 ["c", "x", "y"] .null)).run 0 shownScope = some (.count 0, shownScope) := ⟨rfl, rfl⟩

end Eventful.Host
