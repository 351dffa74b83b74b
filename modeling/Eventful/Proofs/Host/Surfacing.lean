import Eventful.Proofs.Expr.Visiting
import Eventful.Proofs.Host.Assigning

/-
  Eventful.Proofs.Host.Surfacing — faults come up.

  A tour holds the very dialogue that the evaluation holds, so wherever it is held, with a
  scope alone (`Dialogue.runOn_bind_done`) or in a host with subscribers (`gives_bind_done`), the
  visits are there to be asked about.

  - `faults_surface`: the fault of a part that is evaluated is the fault of the whole, unless a
    `typeof` around it wanted the name that is not there;
  - `namelessType_caught`: such a `typeof` catches the fault of whatever its operand is.
-/

namespace Eventful.Host

open Eventful.Expr

variable {α β μ : Type} {i : Nat} {h h' : Host} {cs : List Call} {locals : Locals}

theorem gives_bind_done {d : Dialogue α} {g : α → β} {b : β} (hg : (converse i (d.bind fun a => .done (g a))).Gives h cs b h') :
    ∃ a, g a = b ∧ (converse i d).Gives h cs a h' := by
  induction d generalizing h cs with
  | done a =>
    obtain ⟨rfl, rfl, rfl⟩ := hg
    exact ⟨a, rfl, rfl, rfl, rfl⟩
  | ask name k ih => exact ih _ hg
  | tell path v k ih =>
    obtain ⟨r, h₁, cs₁, cs₂, rfl, hwrite, hrest⟩ := gives_bind.mp hg
    obtain ⟨a, rfl, ha⟩ := ih r hrest
    exact ⟨a, rfl, gives_bind.mpr ⟨r, h₁, cs₁, cs₂, rfl, hwrite, ha⟩⟩

theorem may_of_gives {d : Dialogue α} {a : α} (hg : (converse i d).Gives h cs a h') : d.May a := by
  induction d generalizing h cs with
  | done b =>
    obtain ⟨rfl, rfl, rfl⟩ := hg
    exact .done _
  | ask name k ih => exact .ask _ (ih _ hg)
  | tell path v k ih =>
    obtain ⟨r, h₁, cs₁, cs₂, rfl, hwrite, hrest⟩ := gives_bind.mp hg
    exact .tell r (ih r hrest)

/-- A visit that accounts for the outcome of an expression. -/
structure Surfaces (locals : Locals) (e : Term μ) (o : Outcome) (v : Expr.Visit μ) : Prop where
  part : v.part = e
  outcome : v.outcome = o.map .value
  orderly : ∀ x, v.Reaches x → x.Orderly locals
  /-- Nobody but a `typeof` around it catches a fault. -/
  faults : ∀ x f, v.Reaches x → x.outcome = .error f → o = .error f ∨
    ∃ t w, v.Reaches t ∧ t.Catches f ∧ w ∈ t.inner ∧ w.Reaches x

/-- Whatever a tour may come to, it was one visit, which accounts for it. -/
theorem surfaces_of_may {e : Term μ} {r : Outcome × List (Expr.Visit μ)} (hr : (tour locals e []).May r) :
    ∃ v, r.2 = [v] ∧ Surfaces locals e r.1 v := by
  obtain ⟨inner, hone, horderly⟩ := (enters_tour locals e).1.visit [] r hr
  exact ⟨_, hone, rfl, rfl, fun x => horderly.reaches, fun x f hx hf => (horderly.surfaces hx hf).imp_left map_eq_error.mp⟩

/-- The tour of an expression is its evaluation. Held with a scope alone, or in a host with
    subscribers that may do anything, it also has the visits that were made. Each came to what
    the evaluation of its part may come to. If any of them failed, the whole has failed with
    the very fault; unless the fault is a name that is neither a local nor in the scope, and
    the visit was made in that to the operand of a `typeof`, which then came to `undefined`. -/
theorem faults_surface (locals : Locals) (e : Term μ) :
    ((tour locals e []).bind fun r => .done r.1) = (eval locals e).run ∧
    (∀ s : Scope Watcher, ∃ v, ((tour locals e []).runOn s).1 = (((eval locals e).run.runOn s).1, [v]) ∧
      Surfaces locals e ((eval locals e).run.runOn s).1 v) ∧
    ∀ (h : Host) (i : Nat) cs r h', (converse i (eval locals e).run).Gives h cs r h' →
      ∃ v, (converse i (tour locals e [])).Gives h cs (r, [v]) h' ∧ Surfaces locals e r v := by
  have hplain : ((tour locals e []).bind fun r => .done r.1) = (eval locals e).run := (enters_tour locals e).1.plain []
  refine ⟨hplain, fun s => ?_, fun h i cs r h' hg => ?_⟩
  · obtain ⟨v, hv, hsurfaces⟩ := surfaces_of_may (Dialogue.may_runOn (tour locals e []) s)
    rw [← hplain, Dialogue.runOn_bind_done]
    exact ⟨v, Prod.ext rfl hv, hsurfaces⟩
  · rw [← hplain] at hg
    obtain ⟨⟨o, seen⟩, rfl, ha⟩ := gives_bind_done hg
    obtain ⟨v, rfl, hsurfaces⟩ := surfaces_of_may (may_of_gives ha)
    exact ⟨v, ha, hsurfaces⟩

/-- The assignment `a.b = nope.name`. -/
def strayAssignment : Term Unit :=
  .assign () .plain (.member () (.name () "a") "b") (.member () (.name () "nope") "name")

theorem strayAssignment_surfaces : ∃ cs v,
    (converse 0 (eval [] strayAssignment).run).Gives shownScope cs (.error (.unresolved "nope")) shownScope ∧
    (converse 0 (tour [] strayAssignment [])).Gives shownScope cs (.error (.unresolved "nope"), [v]) shownScope ∧
    Surfaces [] strayAssignment (.error (.unresolved "nope")) v := by
  have hrun : (converse 0 (eval [] strayAssignment).run).run 0 shownScope = some (.error (.unresolved "nope"), shownScope) := rfl
  obtain ⟨cs, hg, -⟩ := gives_of_run hrun
  obtain ⟨v, hvisit, hsurfaces⟩ := (faults_surface [] strayAssignment).2.2 shownScope 0 cs _ _ hg
  exact ⟨cs, v, hg, hvisit, hsurfaces⟩

/-- The expression `typeof nope.name`. -/
def namelessType : Term Unit := .unary () .typeof (.member () (.name () "nope") "name")

/-- Its operand is no name, and fails when it is evaluated; but the whole does not fail. -/
theorem namelessType_caught : ∃ v x : Expr.Visit Unit,
    ((tour [] namelessType []).runOn (Scope.ofValue (.object []) : Scope Watcher)).1 = (.ok (.text "undefined"), [v]) ∧ v.Reaches x ∧
    x.part = .member () (.name () "nope") "name" ∧ x.outcome = .error (.unresolved "nope") ∧
    ((eval [] namelessType).run.runOn (Scope.ofValue (.object []) : Scope Watcher)).1 = .ok (.text "undefined") :=
  ⟨_, _, rfl, .inner List.mem_cons_self (.refl _), rfl, rfl, rfl⟩

end Eventful.Host
