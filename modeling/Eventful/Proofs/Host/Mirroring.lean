import Eventful.Proofs.Binding.Evaluators
import Eventful.Proofs.Host.Recast
import Mathlib.Data.Quot

/-
  Eventful.Proofs.Host.Mirroring — what hosts that differ in their evaluators do alike.

  Hosts are alike if nothing but their logs and their evaluators tells them apart, and the
  evaluators agree (`Alike`). Two procedures mirror each other (`Mirrors`) if from hosts
  that are alike they make the same calls and come back alike, the calls of error hooks
  apart. Those each makes on its own, all that are due and no other (`Task.owed`): right
  after an evaluation that failed, before it goes on.
-/

namespace Eventful.Binding

/-- A choice of one evaluator among all that agree. -/
structure Canonical (c : Evaluator → Evaluator) : Prop where
  same : ∀ {ev ev'}, c ev = c ev' ↔ ev.Agrees ev'
  twice : ∀ ev, c (c ev) = c ev

theorem canonical_exists : ∃ c, Canonical c := by
  let s : Setoid Evaluator := ⟨Evaluator.Agrees, agrees_rfl, Evaluator.Agrees.symm, agrees_trans⟩
  refine ⟨fun ev => (Quotient.mk s ev).out, fun {ev ev'} => ?_, fun ev => ?_⟩
  · rw [Quotient.out_inj]
    exact ⟨fun he => Quotient.exact he, fun ha => Quotient.sound ha⟩
  · exact congrArg Quotient.out (Quotient.out_eq _)

end Eventful.Binding

namespace Eventful.Host

open Page Binding

/-! ## Hosts that are alike -/

def Alike (c : Evaluator → Evaluator) (h₁ h₂ : Host) : Prop := h₁.recast c = h₂.recast c

/-- The result of a task with faults out of sight. -/
def Kind.settled : (κ : Kind) → κ.Carrier → κ.Carrier
  | .outcome, o => Binding.settled o
  | .unit, r => r
  | .event, r => r
  | .count, r => r
  | .answer, r => r

/-- An error hook is called. -/
def Task.isHook : {κ : Kind} → Task κ → Bool
  | _, .hook _ _ => true
  | _, _ => false

/-- Neither is an expression evaluated nor an error hook called. -/
def Task.IsSteady : {κ : Kind} → Task κ → Prop
  | _, .hook _ _ => False
  | _, .effect .. => False
  | _, _ => True

/-- What is to be reported, and to which hooks. -/
abbrev Reports := List (Script × Failure)

/-- An evaluation that failed is to be reported to every hook of its runtime. -/
def Task.owed : {κ : Kind} → Task κ → κ.Carrier → Host → Reports
  | _, .effect rt b _, .error fault, h =>
    (((h.runtime? rt).map (·.hooks)).getD []).map fun s =>
      (s, ⟨b.id, b.element, b.plan.event, b.directive.expression, fault⟩)
  | _, _, _, _ => []

variable {α β : Type} {κ : Kind} {c : Evaluator → Evaluator} {h h₁ h₂ h₃ : Host} {R : α → α → Prop} {S : β → β → Prop}
  {p p₁ p₂ : Proc α} {ds₁ ds₂ : Reports} {t : Task κ}

theorem Task.IsSteady.hook (ht : t.IsSteady) : t.isHook = false := by
  cases t with
  | hook => exact ht.elim
  | _ => rfl

theorem Task.IsSteady.settled (ht : t.IsSteady) (r : κ.Carrier) : κ.settled r = r := by
  cases t with
  | effect => exact ht.elim
  | _ => rfl

theorem Task.IsSteady.owed (ht : t.IsSteady) (r : κ.Carrier) (h : Host) : t.owed r h = [] := by
  cases t with
  | effect => exact ht.elim
  | _ => rfl

theorem Alike.symm (ha : Alike c h₁ h₂) : Alike c h₂ h₁ := Eq.symm ha

theorem Alike.trans (ha : Alike c h₁ h₂) (hb : Alike c h₂ h₃) : Alike c h₁ h₃ := Eq.trans ha hb

theorem Alike.page (ha : Alike c h₁ h₂) : h₁.page = h₂.page := by
  have he : (h₁.recast c).page = (h₂.recast c).page := congrArg Host.page ha
  exact he

theorem Alike.scopes (ha : Alike c h₁ h₂) : h₁.scopes = h₂.scopes := by
  have he : (h₁.recast c).scopes = (h₂.recast c).scopes := congrArg Host.scopes ha
  exact he

theorem Alike.scope (ha : Alike c h₁ h₂) (i : Nat) : h₁.scope i = h₂.scope i := by
  unfold Host.scope
  rw [ha.scopes]

theorem recast_twice (hc : Canonical c) (h : Host) : (h.recast c).recast c = h.recast c := by
  have htwice : (Runtime.recast c ∘ Runtime.recast c : Runtime Script → Runtime Script) = Runtime.recast c := by
    funext r
    simp [Runtime.recast, hc.twice]
  simp [recast, htwice]

theorem alike_note (n : Note) : Alike c (h.note n) h := rfl

theorem alike_evaluator {rt : Nat} {r : Runtime Script} {ev : Evaluator} (hr : h.runtime? rt = some r)
    (hev : c ev = c r.evaluator) : Alike c (h.editRuntime rt fun r => { r with evaluator := ev }) h := by
  have hkept : (h.runtimes.modify rt fun r => { r with evaluator := ev }).map (Runtime.recast c) =
      h.runtimes.map (Runtime.recast c) := by
    refine List.ext_getElem? fun i => ?_
    rw [List.getElem?_map, List.getElem?_map, List.getElem?_modify]
    by_cases hi : rt = i
    · subst hi
      have hr' : h.runtimes[rt]? = some r := hr
      simp [hr', Runtime.recast, hev]
    · simp [hi]
  exact congrArg (fun rs => ({ h with runtimes := rs, log := [] } : Host)) hkept

/-! ## Procedures that mirror each other -/

inductive Mirrors (c : Evaluator → Evaluator) {α : Type} (R : α → α → Prop) :
    Reports → Reports → Host → Host → Proc α → Proc α → Prop
  | done {h₁ h₂ : Host} {a₁ a₂ : α} : Alike c h₁ h₂ → R a₁ a₂ → Mirrors c R [] [] h₁ h₂ (.done a₁) (.done a₂)
  | get {ds₁ ds₂ : Reports} {h₁ h₂ : Host} {k : Host → Proc α} {p : Proc α} :
    Mirrors c R ds₁ ds₂ h₁ h₂ (k h₁) p → Mirrors c R ds₁ ds₂ h₁ h₂ (.get k) p
  | get' {ds₁ ds₂ : Reports} {h₁ h₂ : Host} {k : Host → Proc α} {p : Proc α} :
    Mirrors c R ds₁ ds₂ h₁ h₂ p (k h₂) → Mirrors c R ds₁ ds₂ h₁ h₂ p (.get k)
  | set {ds₁ ds₂ : Reports} {h h₁ h₂ : Host} {k p : Proc α} :
    Mirrors c R ds₁ ds₂ h h₂ k p → Mirrors c R ds₁ ds₂ h₁ h₂ (.set h k) p
  | set' {ds₁ ds₂ : Reports} {h h₁ h₂ : Host} {k p : Proc α} :
    Mirrors c R ds₁ ds₂ h₁ h p k → Mirrors c R ds₁ ds₂ h₁ h₂ p (.set h k)
  /-- Nothing is left to report, and the same task is called; it comes back alike, but for faults. -/
  | call {h₁ h₂ : Host} {κ : Kind} {t : Task κ} {k₁ k₂ : κ.Carrier → Proc α} : Alike c h₁ h₂ → t.isHook = false →
    (∀ r₁ r₂ h₁' h₂', κ.settled r₁ = κ.settled r₂ → Alike c h₁' h₂' →
      Mirrors c R (t.owed r₁ h₁') (t.owed r₂ h₂') h₁' h₂' (k₁ r₁) (k₂ r₂)) →
    Mirrors c R [] [] h₁ h₂ (.call t k₁) (.call t k₂)
  /-- A report is made that is due; the hook changes nothing. -/
  | hook {ds₁ ds₂ : Reports} {h₁ h₂ : Host} {s : Script} {f : Failure} {k : Unit → Proc α} {p : Proc α} :
    (∀ h, Alike c h h₁ → Mirrors c R ds₁ ds₂ h h₂ (k ()) p) →
    Mirrors c R ((s, f) :: ds₁) ds₂ h₁ h₂ (.call (.hook s f) k) p
  | hook' {ds₁ ds₂ : Reports} {h₁ h₂ : Host} {s : Script} {f : Failure} {k : Unit → Proc α} {p : Proc α} :
    (∀ h, Alike c h h₂ → Mirrors c R ds₁ ds₂ h₁ h p (k ())) →
    Mirrors c R ds₁ ((s, f) :: ds₂) h₁ h₂ p (.call (.hook s f) k)

theorem Mirrors.symm (hm : Mirrors c R ds₁ ds₂ h₁ h₂ p₁ p₂) : Mirrors c (fun a b => R b a) ds₂ ds₁ h₂ h₁ p₂ p₁ := by
  induction hm with
  | done ha hr => exact .done ha.symm hr
  | get _ ih => exact .get' ih
  | get' _ ih => exact .get ih
  | set _ ih => exact .set' ih
  | set' _ ih => exact .set ih
  | call ha ht _ ih => exact .call ha.symm ht fun r₁ r₂ h₁ h₂ hr hh => ih r₂ r₁ h₂ h₁ hr.symm hh.symm
  | hook _ ih => exact .hook' ih
  | hook' _ ih => exact .hook ih

theorem Mirrors.bind {f₁ f₂ : α → Proc β} (hm : Mirrors c R ds₁ ds₂ h₁ h₂ p₁ p₂)
    (hf : ∀ a₁ a₂ h₁ h₂, R a₁ a₂ → Alike c h₁ h₂ → Mirrors c S [] [] h₁ h₂ (f₁ a₁) (f₂ a₂)) :
    Mirrors c S ds₁ ds₂ h₁ h₂ (p₁ >>= f₁) (p₂ >>= f₂) := by
  induction hm with
  | done ha hr => exact hf _ _ _ _ hr ha
  | get _ ih => exact .get ih
  | get' _ ih => exact .get' ih
  | set _ ih => exact .set ih
  | set' _ ih => exact .set' ih
  | call ha ht _ ih => exact .call ha ht ih
  | hook _ ih => exact .hook ih
  | hook' _ ih => exact .hook' ih

/-! ## Procedures that mirror themselves -/

/-- From hosts that are alike the procedure does the same. -/
def Faithful (c : Evaluator → Evaluator) (p : Proc α) : Prop := ∀ h₁ h₂, Alike c h₁ h₂ → Mirrors c Eq [] [] h₁ h₂ p p

theorem faithful_pure (a : α) : Faithful c (pure a) := fun _ _ ha => .done ha rfl

theorem Faithful.bind {f : α → Proc β} (hp : Faithful c p) (hf : ∀ a, Faithful c (f a)) : Faithful c (p >>= f) := by
  intro h₁ h₂ ha
  refine (hp h₁ h₂ ha).bind fun a₁ a₂ h₁ h₂ he ha => ?_
  subst he
  exact hf a₁ h₁ h₂ ha

/-- What is read of the host does not depend on evaluators. -/
theorem faithful_get {f : Host → Proc β} (hf : ∀ h, f (h.recast c) = f h) (hp : ∀ h, Faithful c (f h)) :
    Faithful c (get >>= f) := by
  intro h₁ h₂ ha
  have he : f h₁ = f h₂ := by rw [← hf h₁, ← hf h₂, ha]
  refine .get (.get' ?_)
  show Mirrors c Eq [] [] h₁ h₂ (f h₁) (f h₂)
  rw [← he]
  exact hp h₁ h₁ h₂ ha

theorem faithful_change {f : Host → α × Host}
    (hf : ∀ h, (f (h.recast c)).1 = (f h).1 ∧ (f (h.recast c)).2.recast c = (f h).2.recast c) :
    Faithful c (change f) := by
  intro h₁ h₂ ha
  refine .get (.get' (.set (.set' (.done ?_ ?_))))
  · show (f h₁).2.recast c = (f h₂).2.recast c
    rw [← (hf h₁).2, ← (hf h₂).2, ha]
  · show (f h₁).1 = (f h₂).1
    rw [← (hf h₁).1, ← (hf h₂).1, ha]

/-- The edit of a host with other evaluators is the edit of the host, with other evaluators. -/
theorem faithful_edit (hc : Canonical c) {f : Host → α × Host} (hf : ∀ h, f (h.recast c) = ((f h).1, (f h).2.recast c)) :
    Faithful c (change f) :=
  faithful_change fun h => by
    rw [hf h]
    exact ⟨rfl, recast_twice hc _⟩

theorem faithful_modify (hc : Canonical c) {f : Host → Host} {k : Unit → Proc β}
    (hf : ∀ h, f (h.recast c) = (f h).recast c) (hk : Faithful c (k ())) : Faithful c (modify f >>= k) :=
  (faithful_edit hc (f := fun h => ((), f h)) fun h => congrArg (fun h => ((), h)) (hf h)).bind fun _ => hk

/-- What is logged is out of sight. -/
theorem faithful_note (hc : Canonical c) {f : Host → Note} {k : Unit → Proc β} (hk : Faithful c (k ())) :
    Faithful c ((modify fun h => h.note (f h)) >>= k) :=
  (faithful_change fun h => ⟨rfl, recast_twice hc h⟩ : Faithful c (modify fun h => h.note (f h))).bind fun _ => hk

theorem faithful_answer {f : Host → Answer} (hf : ∀ h, f (h.recast c) = f h) : Faithful c (answer f) :=
  faithful_get (fun h => congrArg pure (hf h)) fun h => faithful_pure (f h)

theorem faithful_call {k : κ.Carrier → Proc β} (ht : t.IsSteady) (hk : ∀ r, Faithful c (k r)) :
    Faithful c (call t >>= k) := by
  intro h₁ h₂ ha
  refine .call ha ht.hook fun r₁ r₂ h₁ h₂ hr ha => ?_
  rw [ht.settled, ht.settled] at hr
  rw [ht.owed, ht.owed]
  subst hr
  exact hk r₁ h₁ h₂ ha

end Eventful.Host
