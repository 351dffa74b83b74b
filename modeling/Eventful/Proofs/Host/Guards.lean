import Eventful.Proofs.Directive.Plan
import Eventful.Proofs.Host.Contract

/-
  Eventful.Proofs.Host.Guards — what the guards of a binding come to.

  Guards look at the host but do not change it. So a procedure is judged by what it is once
  it has looked (`Proc.given`): an event that is admitted goes on to what the guards stand
  before (`passGuards_admits`), any other comes back (`passGuards_refuses`).
-/

namespace Eventful.Host

open Page Binding Directive

variable {α : Type} {κ : Kind} {h : Host} {rt : Nat} {b : Bound} {gs rest : List Guard}

/-! ## A procedure that has looked -/

/-- The procedure once it has looked at the host. -/
def Proc.given (h : Host) : Proc α → Proc α
  | .done a => .done a
  | .get k => (k h).given h
  | .set h' k => .set h' k
  | .call t k => .call t k

theorem given_meets {S : Contract} {p : Proc α} {tr : History} {Q : α → Host → History → Prop} :
    (p.given h).Meets S h tr Q ↔ p.Meets S h tr Q := by
  induction p with
  | get k ih => exact ih h
  | _ => exact Iff.rfl

theorem given_first (t : Task κ) (p : Proc κ.Carrier) (h : Host) : (p.given h).first t h = p.first t h := by
  induction p with
  | get k ih => exact ih h
  | _ => rfl

/-! ## Guards -/

/-- None of the guards waits. -/
def Waitless (gs : List Guard) : Prop := ∀ wait, .debounce wait ∉ gs

/-- The guard lets the event pass. -/
def Lets (t : Tree) (element : NodeId) (e : Event) : Guard → Prop
  | .key f => f.passes e = true
  | .outside => acceptsOutside t element e.target = true
  | _ => True

instance (t : Tree) (n : NodeId) (e : Event) (g : Guard) : Decidable (Lets t n e g) :=
  match g with
  | .key f => inferInstanceAs (Decidable (f.passes e = true))
  | .outside => inferInstanceAs (Decidable (acceptsOutside t n e.target = true))
  | .stop | .prevent | .debounce _ | .once => inferInstanceAs (Decidable True)

/-- All guards let the event pass. -/
def Admits (t : Tree) (element : NodeId) (e : Event) (gs : List Guard) : Prop := ∀ g ∈ gs, Lets t element e g

instance (t : Tree) (n : NodeId) (e : Event) (gs : List Guard) : Decidable (Admits t n e gs) :=
  inferInstanceAs (Decidable (∀ g ∈ gs, Lets t n e g))

/-- The event as the guards leave it. -/
def heard (e : Event) : List Guard → Event
  | [] => e
  | .stop :: rest => heard e.stop rest
  | .prevent :: rest => heard e.prevent rest
  | _ :: rest => heard e rest

/-- Preventing changes nothing that guards look at. -/
theorem lets_prevent {t : Tree} {n : NodeId} {e : Event} {g : Guard} : Lets t n e.prevent g ↔ Lets t n e g := by
  unfold Event.prevent
  cases g <;> split <;> rfl

theorem admits_stop {t : Tree} {n : NodeId} {e : Event} : Admits t n e.stop gs ↔ Admits t n e gs :=
  forall₂_congr fun g _ => by cases g <;> rfl

theorem admits_prevent {t : Tree} {n : NodeId} {e : Event} : Admits t n e.prevent gs ↔ Admits t n e gs :=
  forall₂_congr fun _ _ => lets_prevent

theorem Waitless.tail {g : Guard} (hw : Waitless (g :: gs)) : Waitless gs :=
  fun wait hm => hw wait (List.mem_cons_of_mem _ hm)

/-- An admitted event gets past guards that do not wait. -/
theorem passGuards_admits (rt : Nat) (rest : List Guard) (e : Event) (hw : Waitless gs) (ha : Admits h.page.tree b.element e gs) :
    (passGuards rt b e (gs ++ rest)).given h = (passGuards rt b (heard e gs) rest).given h := by
  induction gs generalizing e with
  | nil => rfl
  | cons g gs ih =>
    obtain ⟨hg, hgs⟩ := List.forall_mem_cons.mp ha
    cases g with
    | key f =>
      have hf : f.passes e = true := hg
      show (if f.passes e then passGuards rt b e (gs ++ rest) else pure e).given h = _
      rw [if_pos hf]
      exact ih e hw.tail hgs
    | stop => exact ih e.stop hw.tail (admits_stop.mpr hgs)
    | prevent => exact ih e.prevent hw.tail (admits_prevent.mpr hgs)
    | outside =>
      have ho : acceptsOutside h.page.tree b.element e.target = true := hg
      show (if acceptsOutside h.page.tree b.element e.target then passGuards rt b e (gs ++ rest) else pure e).given h = _
      rw [if_pos ho]
      exact ih e hw.tail hgs
    | debounce wait => exact absurd List.mem_cons_self (hw wait)
    | once => exact ih e hw.tail hgs

/-- Any other event comes back. -/
theorem passGuards_refuses (rt : Nat) (rest : List Guard) (e : Event) (hw : Waitless gs) (ha : ¬Admits h.page.tree b.element e gs) :
    ∃ e', (passGuards rt b e (gs ++ rest)).given h = (pure e' : Proc Event).given h := by
  induction gs generalizing e with
  | nil => exact absurd (fun g hg => by cases hg) ha
  | cons g gs ih =>
    have hrest : Lets h.page.tree b.element e g → ¬Admits h.page.tree b.element e gs :=
      fun hg hgs => ha (List.forall_mem_cons.mpr ⟨hg, hgs⟩)
    cases g with
    | key f =>
      show ∃ e', (if f.passes e then passGuards rt b e (gs ++ rest) else pure e).given h = (pure e' : Proc Event).given h
      split
      · rename_i hf
        exact ih e hw.tail (hrest hf)
      · exact ⟨e, rfl⟩
    | stop => exact ih e.stop hw.tail fun hgs => hrest trivial (admits_stop.mp hgs)
    | prevent => exact ih e.prevent hw.tail fun hgs => hrest trivial (admits_prevent.mp hgs)
    | outside =>
      show ∃ e', (if acceptsOutside h.page.tree b.element e.target then passGuards rt b e (gs ++ rest)
        else pure e).given h = (pure e' : Proc Event).given h
      split
      · rename_i ho
        exact ih e hw.tail (hrest ho)
      · exact ⟨e, rfl⟩
    | debounce wait => exact absurd List.mem_cons_self (hw wait)
    | once => exact ih e hw.tail (hrest trivial)

/-- The guards before the first that waits. -/
def beforeWait : List Guard → List Guard
  | [] => []
  | .debounce _ :: _ => []
  | g :: rest => g :: beforeWait rest

theorem waitless_nil : Waitless [] := fun _ hm => by cases hm

theorem Waitless.cons {g : Guard} (hg : ∀ wait, g ≠ .debounce wait) (hw : Waitless gs) : Waitless (g :: gs) := by
  intro wait hm
  rcases List.mem_cons.mp hm with e | hm
  · exact hg wait e.symm
  · exact hw wait hm

theorem waitless_beforeWait (gs : List Guard) : Waitless (beforeWait gs) := by
  induction gs with
  | nil => exact waitless_nil
  | cons g gs ih =>
    cases g with
    | debounce wait => exact waitless_nil
    | _ => exact ih.cons fun wait e => by cases e

theorem waitless_of_wait? {p : Plan} (h : p.wait? = none) : Waitless p.guards := by
  intro wait hm
  have := List.findSome?_eq_none_iff.mp h _ hm
  cases this

/-- Guards of which one waits: those before it, and the rest. -/
theorem guards_of_wait? {p : Plan} {wait : Nat} (h : p.wait? = some wait) :
    ∃ after, p.guards = beforeWait p.guards ++ .debounce wait :: after := by
  unfold Plan.wait? at h
  generalize p.guards = gs at h ⊢
  induction gs with
  | nil => cases h
  | cons g gs ih =>
    cases g with
    | debounce wait' =>
      cases h
      exact ⟨gs, rfl⟩
    | _ =>
      obtain ⟨after, e⟩ := ih h
      exact ⟨after, congrArg _ e⟩

end Eventful.Host
