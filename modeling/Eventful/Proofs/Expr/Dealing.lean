import Eventful.Expr.Eval
import Eventful.Proofs.Expr.Numbering

/-
  Eventful.Proofs.Expr.Dealing — how evaluations deal with a scope.

  Names are looked up among the locals first, and a target is resolved down to its name. So an
  evaluation asks the scope for no name that is a local, and gives no order for a path that
  begins with one; and it fails with no fault but those of data (`heeds_eval`,
  `heeds_statements`).
-/

namespace Eventful.Expr

variable {α β μ : Type} {locals : Locals}

/-! ## Dialogues -/

/-- The dialogue asks for names in `A` only, gives orders only for paths that begin with one,
    and `P` holds of whatever it comes to. -/
def Dialogue.Deals (A : String → Prop) (P : α → Prop) : Dialogue α → Prop
  | .done a => P a
  | .ask name k => A name ∧ ∀ v, (k v).Deals A P
  | .tell path _ k => (∃ name ∈ path.head?, A name) ∧ ∀ r, (k r).Deals A P

section

variable {A B : String → Prop} {P Q : α → Prop}

theorem Dialogue.Deals.mono {d : Dialogue α} (h : d.Deals A P) (hA : ∀ name, A name → B name) (hP : ∀ a, P a → Q a) :
    d.Deals B Q := by
  induction d with
  | done a => exact hP a h
  | ask name k ih => exact ⟨hA name h.1, fun v => ih v (h.2 v)⟩
  | tell path v k ih =>
    obtain ⟨⟨name, hname, ha⟩, hk⟩ := h
    exact ⟨⟨name, hname, hA name ha⟩, fun r => ih r (hk r)⟩

theorem Dialogue.Deals.bind {R : β → Prop} {d : Dialogue α} {f : α → Dialogue β} (h : d.Deals A P)
    (hf : ∀ a, P a → (f a).Deals A R) : (d.bind f).Deals A R := by
  induction d with
  | done a => exact hf a h
  | ask name k ih => exact ⟨h.1, fun v => ih v (h.2 v)⟩
  | tell path v k ih => exact ⟨h.1, fun r => ih r (h.2 r)⟩

end

/-! ## Evaluations -/

/-- The faults of a program over its data. -/
def OfData : Fault → Prop
  | .malformed _ | .reported .. => False
  | _ => True

/-- The name is not a local. -/
def Free (locals : Locals) (name : String) : Prop := locals.get? name = none

/-- The path begins with a name that is not a local. -/
def Rooted (locals : Locals) (path : List String) : Prop := ∃ name ∈ path.head?, Free locals name

/-- The evaluation deals with free names only, fails with no fault but those of data, and `P`
    holds of its value if it has one. -/
def Heeds (locals : Locals) (P : α → Prop) (m : Eval α) : Prop :=
  m.run.Deals (Free locals) fun o => (∀ f, o = .error f → OfData f) ∧ ∀ a, o = .ok a → P a

/-- Any value. -/
abbrev Any (_ : α) : Prop := True

section

variable {P : α → Prop} {Q : β → Prop}

theorem heeds_pure {a : α} (h : P a) : Heeds locals P (pure a) := by
  refine ⟨nofun, ?_⟩
  rintro _ ⟨⟩
  exact h

theorem heeds_throw {f : Fault} (h : OfData f) : Heeds locals P (throw f : Eval α) := by
  refine ⟨?_, nofun⟩
  rintro _ ⟨⟩
  exact h

theorem Heeds.bind {m : Eval α} {f : α → Eval β} (h : Heeds locals P m) (hf : ∀ a, P a → Heeds locals Q (f a)) :
    Heeds locals Q (m >>= f) := by
  refine Dialogue.Deals.bind h fun o ho => ?_
  cases o with
  | ok a => exact hf a (ho.2 a rfl)
  | error e => exact heeds_throw (ho.1 e rfl)

/-- An outcome that is looked at. -/
theorem Heeds.outcome {m : Eval α} {f : Except Fault α → Eval β} (h : Heeds locals P m)
    (hf : ∀ o, (∀ f, o = .error f → OfData f) → Heeds locals Q (f o)) : Heeds locals Q (ExceptT.lift m.run >>= f) := by
  have hlift : Heeds locals (fun o => ∀ f, o = .error f → OfData f) (ExceptT.lift m.run) :=
    Dialogue.Deals.bind h fun o ho => heeds_pure ho.1
  exact hlift.bind hf

end

theorem heeds_lookup (name : String) : Heeds locals Any (lookup locals name) := by
  unfold lookup
  cases hname : locals.get? name with
  | some v => exact heeds_pure trivial
  | none =>
    refine ⟨hname, fun v => ?_⟩
    cases v with
    | some v => exact heeds_pure (P := Any) trivial
    | none => exact heeds_throw (P := Any) trivial

theorem heeds_readMember (holder : Value) (key : String) : Heeds locals Any (readMember holder key) := by
  unfold readMember
  split
  · exact heeds_throw trivial
  · exact heeds_pure trivial

theorem heeds_readPath {path : List String} (h : Rooted locals path) : Heeds locals Any (readPath path) := by
  cases path with
  | nil => exact heeds_pure trivial
  | cons name keys =>
    obtain ⟨_, ⟨⟩, hfree⟩ := h
    exact ⟨hfree, fun v => heeds_pure (P := Any) trivial⟩

theorem heeds_tell {path : List String} (h : Rooted locals path) (v : Value) : Heeds locals Any (tell path v) := by
  refine ⟨h, fun r => ⟨fun f hf => ?_, fun _ _ => trivial⟩⟩
  cases r with
  | ok u => cases hf
  | error b =>
    cases hf
    trivial

theorem Rooted.concat {path : List String} (h : Rooted locals path) (key : String) : Rooted locals (path ++ [key]) := by
  obtain ⟨name, hname, hfree⟩ := h
  cases path with
  | nil => cases hname
  | cons first keys => exact ⟨name, hname, hfree⟩

theorem heeds_entries {es : List (String × Term μ)} (h : ∀ e ∈ es, Heeds locals Any (eval locals e.2)) :
    Heeds locals Any (evalEntries locals es) := by
  induction es with
  | nil => exact heeds_pure trivial
  | cons e es ih =>
    rw [List.forall_mem_cons] at h
    exact h.1.bind fun v _ => (ih h.2).bind fun vs _ => heeds_pure trivial

theorem heeds_last {es : List (Term μ)} (h : ∀ e ∈ es, Heeds locals Any (eval locals e)) (last : Value) :
    Heeds locals Any (evalLast locals last es) := by
  induction es generalizing last with
  | nil => exact heeds_pure trivial
  | cons e es ih =>
    rw [List.forall_mem_cons] at h
    exact h.1.bind fun v _ => ih h.2 v

/-- An expression, as a value and as a target: the path of a target begins with a free name. -/
theorem heeds_eval (locals : Locals) (e : Term μ) :
    Heeds locals Any (eval locals e) ∧ Heeds locals (Rooted locals) (targetPath locals e) := by
  induction e using Term.parts_induction with
  | h e ih =>
    have notTarget : Heeds locals (Rooted locals) (throw .notATarget : Eval (List String)) := heeds_throw trivial
    cases e with
    | name m n =>
      refine ⟨heeds_lookup n, ?_⟩
      unfold targetPath
      split
      · exact heeds_throw trivial
      · rename_i hlocal
        exact heeds_pure ⟨n, rfl, by simpa [Free] using hlocal⟩
    | literal m v => exact ⟨heeds_pure trivial, notTarget⟩
    | object m es =>
      have hes := heeds_entries fun e he => (ih e.2 (List.mem_map_of_mem he)).1
      exact ⟨hes.bind fun vs _ => heeds_pure trivial, notTarget⟩
    | member m o key =>
      obtain ⟨hv, hp⟩ := ih o List.mem_cons_self
      exact ⟨hv.bind fun v _ => heeds_readMember v key, hp.bind fun path hpath => heeds_pure (hpath.concat key)⟩
    | index m o k =>
      obtain ⟨hv, hp⟩ := ih o (by simp [Term.parts])
      obtain ⟨hk, -⟩ := ih k (by simp [Term.parts])
      exact ⟨hv.bind fun v _ => hk.bind fun key _ => heeds_readMember v key.toText,
        hp.bind fun path hpath => hk.bind fun key _ => heeds_pure (hpath.concat key.toText)⟩
    | unary m op a =>
      obtain ⟨hv, -⟩ := ih a List.mem_cons_self
      refine ⟨hv.outcome fun o ho => ?_, notTarget⟩
      split
      · exact heeds_pure trivial
      · exact heeds_throw (ho _ rfl)
      · exact heeds_pure trivial
    | update m op before t =>
      obtain ⟨-, hp⟩ := ih t List.mem_cons_self
      exact ⟨hp.bind fun path hpath => (heeds_readPath hpath).bind fun old _ =>
        (heeds_tell hpath _).bind fun _ _ => heeds_pure trivial, notTarget⟩
    | binary m op l r =>
      obtain ⟨hl, -⟩ := ih l (by simp [Term.parts])
      obtain ⟨hr, -⟩ := ih r (by simp [Term.parts])
      exact ⟨hl.bind fun a _ => hr.bind fun b _ => heeds_pure trivial, notTarget⟩
    | logical m op l r =>
      obtain ⟨hl, -⟩ := ih l (by simp [Term.parts])
      obtain ⟨hr, -⟩ := ih r (by simp [Term.parts])
      refine ⟨hl.bind fun a _ => ?_, notTarget⟩
      split
      · exact heeds_pure trivial
      · exact hr
    | conditional m t y no =>
      obtain ⟨ht, -⟩ := ih t (by simp [Term.parts])
      refine ⟨ht.bind fun a _ => ?_, notTarget⟩
      split
      · exact (ih y (by simp [Term.parts])).1
      · exact (ih no (by simp [Term.parts])).1
    | assign m op t v =>
      obtain ⟨-, ht⟩ := ih t (by simp [Term.parts])
      obtain ⟨hv, -⟩ := ih v (by simp [Term.parts])
      refine ⟨ht.bind fun path hpath => ?_, notTarget⟩
      split
      · exact hv.bind fun a _ => (heeds_tell hpath a).bind fun _ _ => heeds_pure trivial
      · exact (heeds_readPath hpath).bind fun old _ => hv.bind fun a _ =>
          (heeds_pure (P := Any) trivial).bind fun a _ => (heeds_tell hpath a).bind fun _ _ => heeds_pure trivial
    | sequence m es => exact ⟨heeds_last (fun e he => (ih e he).1) .undefined, notTarget⟩

theorem heeds_statements (locals : Locals) (ss : List (Statement μ)) (last : Value) :
    Heeds locals Any (evalStatements locals last ss) := by
  induction ss generalizing last with
  | nil => exact heeds_pure trivial
  | cons s ss ih =>
    cases s with
    | empty m => exact ih last
    | expression m e => exact (heeds_eval locals e).1.bind fun v _ => ih v

end Eventful.Expr
