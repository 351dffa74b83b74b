import Eventful.Proofs.Expr.Paths
import Eventful.Proofs.Host.Assigning

/-
  Eventful.Proofs.Host.Compound — `t op= e` beside `t = t op e`.

  Both resolve the target first, and both then need the old value. The one takes it from the
  path, the other evaluates the target; and what follows is the same, callbacks and all.

  - `compound_assignment`: so the two are one, if the target can be read. If it cannot, the
    plain assignment fails for that, and the other goes on with undefined;
  - `emptyScope_creates`: a name that is not there is a fault to the one and a new property to
    the other.
-/

namespace Eventful.Host

open Eventful.Expr

variable {α μ : Type} {i : Nat} {h : Host} {locals : Locals}

/-! ## Runs -/

/-- From the host on the two expressions come to the same outcome, and leave the same host. -/
def SameRuns (h : Host) (i : Nat) (locals : Locals) (c d : Term μ) : Prop :=
  ∀ depth, (converse i (eval locals c).run).run depth h = (converse i (eval locals d).run).run depth h

/-- The expression fails, and leaves the host as it was. -/
def FailsWith (h : Host) (i : Nat) (locals : Locals) (f : Fault) (c : Term μ) : Prop :=
  ∀ depth, (converse i (eval locals c).run).run depth h = some (.error f, h)

theorem run_of_reaches {d d' : Dialogue α} (hd : d.Reaches (h.scope i) d') (depth : Nat) :
    (converse i d).run depth h = (converse i d').run depth h := by
  unfold Proc.run
  rw [← given_runWith, given_converse hd, given_runWith]

theorem failsWith_of_answers {f : Fault} {c : Term μ} (ha : Answers (h.scope i) (eval locals c) (.error f)) :
    FailsWith h i locals f c := run_of_reaches ha

theorem sameRuns_of_reaches {c d : Term μ} {rest : Dialogue Outcome} (hc : (eval locals c).run.Reaches (h.scope i) rest)
    (hd : (eval locals d).run.Reaches (h.scope i) rest) : SameRuns h i locals c d :=
  fun depth => (run_of_reaches hc depth).trans (run_of_reaches hd depth).symm

/-! ## The two assignments -/

/-- An assignment with an operator, and the plain assignment that spells it out; an update, and
    the plain assignment of one more or one less. If the target denotes no path, both fail
    alike. If it denotes one that can be read, they do the same, whatever is assigned and
    whoever is told. If it denotes one that cannot be read, the plain one fails, as a
    reference error or an error of type, and nothing has happened; but the other does what
    the plain one does that has `undefined` for the old value. -/
theorem compound_assignment (h : Host) (i : Nat) (locals : Locals) {t : Term Unit} (ht : t.KeysRead) :
    (∃ f, ∀ c d : Term μ, Spelt t t c.unmarked d.unmarked → FailsWith h i locals f c ∧ FailsWith h i locals f d) ∨
    ∃ path, Denotes locals (h.scope i) t path ∧
      (Readable (h.scope i) path → ∀ c d : Term μ, Spelt t t c.unmarked d.unmarked → SameRuns h i locals c d) ∧
      (¬Readable (h.scope i) path →
        (∃ f, Unreadable (h.scope i) path f ∧
          ∀ c d : Term μ, Spelt t t c.unmarked d.unmarked → FailsWith h i locals f d) ∧
        ∀ c d : Term μ, Spelt t (.literal () .undefined) c.unmarked d.unmarked → SameRuns h i locals c d) := by
  have hends : (∃ f, Answers (h.scope i) (targetPath locals t) (.error f)) ∨
      ∃ path, Denotes locals (h.scope i) t path ∧ Answers (h.scope i) (targetPath locals t) (.ok path) := denotes_or_fails ht
  rcases hends with ⟨f, hf⟩ | ⟨path, hd, hpath⟩
  · refine .inl ⟨f, fun c d hspelt => ?_⟩
    obtain ⟨hc, hd⟩ := hspelt.fails hf
    rw [eval_unmarked] at hc hd
    exact ⟨failsWith_of_answers hc, failsWith_of_answers hd⟩
  · refine .inr ⟨path, hd, fun hr c d hspelt => ?_, fun hnot => ?_⟩
    · cases target_read hd with
      | value _ hold =>
        obtain ⟨rest, hc, hd⟩ := hspelt.meets hpath hd.ne_nil hold
        rw [eval_unmarked] at hc hd
        exact sameRuns_of_reaches hc hd
      | fault hnot => exact absurd hr hnot
    · cases target_read hd with
      | value hr => exact absurd hr hnot
      | fault _ hundefined hold hwhy =>
        refine ⟨⟨_, hwhy, fun c d hspelt => ?_⟩, fun c d hspelt => ?_⟩
        · have hd := hspelt.unread hpath hold
          rw [eval_unmarked] at hd
          exact failsWith_of_answers hd
        · have hliteral : Answers (h.scope i) (eval locals (.literal () .undefined))
              (.ok ((h.scope i).snapshot.along path)) := by
            rw [eval, hundefined]
            exact answers_pure _
          obtain ⟨rest, hc, hd⟩ := hspelt.meets hpath hd.ne_nil hliteral
          rw [eval_unmarked] at hc hd
          exact sameRuns_of_reaches hc hd

/-- The target `a.b`. -/
def innerTarget : Term Unit := .member () (.name () "a") "b"

/-- `a.b += c`, and `a.b = a.b + c`. -/
theorem innerTarget_compound : innerTarget.KeysRead ∧ ∃ h',
    (converse 0 (eval [] (.assign () .add innerTarget (.name () "c"))).run).run 3 shownScope =
      some (.ok (.text "oldkept"), h') ∧
    (converse 0 (eval [] (.assign () .plain innerTarget (.binary () .add innerTarget (.name () "c")))).run).run 3 shownScope =
      some (.ok (.text "oldkept"), h') := by
  have hkeys : innerTarget.KeysRead := .member () "b" (.name () "a")
  have hspelt : Spelt innerTarget innerTarget (Term.unmarked (.assign () .add innerTarget (.name () "c")))
      (Term.unmarked (.assign () .plain innerTarget (.binary () .add innerTarget (.name () "c")))) :=
    .assign () () () (.name () "c") rfl
  have hrun : (converse 0 (eval [] (.assign () .add innerTarget (.name () "c"))).run).run 3 shownScope =
      some (.ok (.text "oldkept"), _) := rfl
  rcases compound_assignment (μ := Unit) shownScope 0 [] hkeys with ⟨f, hfails⟩ | ⟨path, hd, hsame, -⟩
  · cases hrun.symm.trans ((hfails _ _ hspelt).1 3)
  · have hpath : path = ["a"] ++ ["b"] := by
      cases hd with
      | member _ _ ho =>
        cases ho
        rfl
    have hread : Readable (shownScope.scope 0) path := by
      rw [hpath, readable_concat (List.cons_ne_nil _ _), readable_name]
      exact ⟨rfl, rfl⟩
    exact ⟨hkeys, _, hrun, (hsame hread _ _ hspelt 3).symm.trans hrun⟩

/-- A scope without properties. -/
def emptyScope : Host := .new "" .browser [.empty]

/-- `x += 'a'`, and `x = x + 'a'`. -/
theorem emptyScope_creates :
    let x : Term Unit := .name () "x"
    let e : Term Unit := .literal () (.text "a")
    Spelt x x (.assign () .add x e) (.assign () .plain x (.binary () .add x e)) ∧
    (∃ h', (converse 0 (eval [] (.assign () .add x e)).run).run 0 emptyScope = some (.ok (.text "undefineda"), h') ∧
      (h'.scope 0).has "x" = true) ∧
    (converse 0 (eval [] (.assign () .plain x (.binary () .add x e))).run).run 0 emptyScope =
      some (.error (.unresolved "x"), emptyScope) :=
  ⟨.assign () () () _ rfl, ⟨_, rfl, rfl⟩, rfl⟩

end Eventful.Host
