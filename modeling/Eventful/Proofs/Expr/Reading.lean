import Eventful.Expr.Eval
import Eventful.Proofs.Expr.Numbering

/-
  Eventful.Proofs.Expr.Reading — what expressions do to a scope.

  An evaluation asks a scope for names, and only assignments and updates give it orders. As
  long as an evaluation asks, one scope answers it (`Dialogue.Reaches`). An expression
  without assignments and updates comes to its outcome that way (`settles_eval`).
  An assignment or an update whose parts only read fails that way, or else it comes to
  giving one order, for the path that its target denotes, and is done (`orders_once`).
-/

namespace Eventful.Expr

variable {α β μ σ : Type} {s : Scope σ} {locals : Locals}

/-! ## One after the other -/

theorem Dialogue.bind_done (d : Dialogue α) : d.bind .done = d := by
  induction d with
  | done a => rfl
  | ask name k ih => exact congrArg _ (funext ih)
  | tell path value k ih => exact congrArg _ (funext ih)

theorem Dialogue.bind_bind {γ : Type} (d : Dialogue α) (f : α → Dialogue β) (g : β → Dialogue γ) :
    (d.bind f).bind g = d.bind fun a => (f a).bind g := by
  induction d with
  | done a => rfl
  | ask name k ih => exact congrArg _ (funext ih)
  | tell path value k ih => exact congrArg _ (funext ih)

instance : LawfulMonad Dialogue :=
  LawfulMonad.mk' Dialogue Dialogue.bind_done (fun _ _ => rfl) Dialogue.bind_bind

/-! ## Asking -/

/-- Answered by the scope, the dialogue goes on as the other one. -/
inductive Dialogue.Reaches (s : Scope σ) : Dialogue α → Dialogue α → Prop
  | refl (d : Dialogue α) : Reaches s d d
  | ask {name : String} {k : Option Value → Dialogue α} {d : Dialogue α} :
    (k (s.data.get? name)).Reaches s d → (Dialogue.ask name k).Reaches s d

theorem Dialogue.Reaches.trans {d d' d'' : Dialogue α} (h : d.Reaches s d') (h' : d'.Reaches s d'') : d.Reaches s d'' := by
  induction h with
  | refl => exact h'
  | ask _ ih => exact .ask (ih h')

theorem Dialogue.Reaches.bind {d d' : Dialogue α} (h : d.Reaches s d') (f : α → Dialogue β) :
    (d.bind f).Reaches s (d'.bind f) := by
  induction h with
  | refl => exact .refl _
  | ask _ ih => exact .ask ih

/-- By asking alone, the evaluation comes to the outcome. -/
def Answers (s : Scope σ) (m : Eval α) (o : Except Fault α) : Prop := m.run.Reaches s (.done o)

theorem answers_pure (a : α) : Answers s (pure a) (.ok a) := .refl _

theorem answers_throw (f : Fault) : Answers s (throw f : Eval α) (.error f) := .refl _

section

variable {m : Eval α} {f : α → Eval β} {a : α}

theorem Answers.then (h : Answers s m (.ok a)) : (m >>= f).run.Reaches s (f a).run := Dialogue.Reaches.bind h _

theorem Answers.bind {o : Except Fault β} (h : Answers s m (.ok a)) (hf : Answers s (f a) o) : Answers s (m >>= f) o :=
  h.then.trans hf

theorem Answers.fails {e : Fault} (h : Answers s m (.error e)) : Answers s (m >>= f) (.error e) :=
  Dialogue.Reaches.bind h _

/-- By asking alone, the evaluation comes to an outcome. -/
def Settles (s : Scope σ) (m : Eval α) : Prop := ∃ o, Answers s m o

theorem settles_pure (a : α) : Settles s (pure a) := ⟨_, answers_pure a⟩

theorem settles_throw (f : Fault) : Settles s (throw f : Eval α) := ⟨_, answers_throw f⟩

theorem Settles.bind (h : Settles s m) (hf : ∀ a, Settles s (f a)) : Settles s (m >>= f) := by
  obtain ⟨o, ho⟩ := h
  cases o with
  | error e => exact ⟨_, ho.fails⟩
  | ok a =>
    obtain ⟨o', ho'⟩ := hf a
    exact ⟨o', ho.bind ho'⟩

/-- An outcome that is looked at. -/
theorem Settles.outcome {f : Except Fault α → Eval β} (h : Settles s m) (hf : ∀ o, Settles s (f o)) :
    Settles s (ExceptT.lift m.run >>= f) := by
  obtain ⟨o, ho⟩ := h
  obtain ⟨o', ho'⟩ := hf o
  have hlift : Answers s (ExceptT.lift m.run) (.ok o) := Dialogue.Reaches.bind ho _
  exact ⟨o', hlift.bind ho'⟩

end

/-! ## Expressions that only read -/

/-- There are no assignments and no updates in the expression. -/
inductive Term.Reads : Term μ → Prop
  | mk {e : Term μ} : e.target? = none → (∀ p ∈ e.parts, p.Reads) → e.Reads

theorem answers_ask (name : String) : Answers s (ask name) (.ok (s.data.get? name)) := .ask (.refl _)

theorem settles_lookup (locals : Locals) (name : String) : Settles s (lookup locals name) := by
  unfold lookup
  split
  · exact settles_pure _
  · refine Settles.bind ⟨_, answers_ask name⟩ fun v => ?_
    cases v with
    | some v => exact settles_pure v
    | none => exact settles_throw _

theorem settles_readMember (holder : Value) (key : String) : Settles s (readMember holder key) := by
  unfold readMember
  split
  · exact settles_throw _
  · exact settles_pure _

theorem answers_readPath (path : List String) : ∃ v, Answers s (readPath path) (.ok v) := by
  cases path with
  | nil => exact ⟨_, answers_pure _⟩
  | cons name keys => exact ⟨_, .ask (.refl _)⟩

theorem settles_entries {es : List (String × Term μ)} (h : ∀ e ∈ es, Settles s (eval locals e.2)) :
    Settles s (evalEntries locals es) := by
  induction es with
  | nil => exact settles_pure _
  | cons e es ih =>
    rw [List.forall_mem_cons] at h
    exact h.1.bind fun v => (ih h.2).bind fun vs => settles_pure _

theorem settles_last {es : List (Term μ)} (h : ∀ e ∈ es, Settles s (eval locals e)) (last : Value) :
    Settles s (evalLast locals last es) := by
  induction es generalizing last with
  | nil => exact settles_pure _
  | cons e es ih =>
    rw [List.forall_mem_cons] at h
    exact h.1.bind fun v => ih h.2 v

theorem settles_eval {e : Term μ} (h : e.Reads) : Settles s (eval locals e) := by
  induction h with
  | @mk e htarget _ ih =>
    cases e with
    | name m n => exact settles_lookup locals n
    | literal m v => exact settles_pure _
    | object m es =>
      exact (settles_entries fun e he => ih e.2 (List.mem_map_of_mem he)).bind fun vs => settles_pure _
    | member m o key => exact (ih o List.mem_cons_self).bind fun v => settles_readMember v key
    | index m o k =>
      exact (ih o (by simp [Term.parts])).bind fun v => (ih k (by simp [Term.parts])).bind fun key =>
        settles_readMember v key.toText
    | unary m op a =>
      refine (ih a List.mem_cons_self).outcome fun o => ?_
      split
      · exact settles_pure _
      · exact settles_throw _
      · exact settles_pure _
    | update | assign => cases htarget
    | binary m op l r =>
      exact (ih l (by simp [Term.parts])).bind fun a => (ih r (by simp [Term.parts])).bind fun b => settles_pure _
    | logical m op l r =>
      refine (ih l (by simp [Term.parts])).bind fun a => ?_
      split
      · exact settles_pure a
      · exact ih r (by simp [Term.parts])
    | conditional m t y n =>
      refine (ih t (by simp [Term.parts])).bind fun a => ?_
      split
      · exact ih y (by simp [Term.parts])
      · exact ih n (by simp [Term.parts])
    | sequence m es => exact settles_last ih .undefined

/-! ## Targets -/

/-- The computed keys on the way of the target only read. -/
inductive Term.KeysRead : Term μ → Prop
  | name (m : μ) (n : String) : (Term.name m n).KeysRead
  | member (m : μ) {o : Term μ} (key : String) : o.KeysRead → (Term.member m o key).KeysRead
  | index (m : μ) {o k : Term μ} : o.KeysRead → k.Reads → (Term.index m o k).KeysRead
  | other {e : Term μ} : e.isTarget = false → e.KeysRead

/-- The target is the name of no local, with keys taken of it, whose values make the path. -/
inductive Denotes (locals : Locals) (s : Scope σ) : Term μ → List String → Prop
  | name (m : μ) {n : String} : locals.get? n = none → Denotes locals s (.name m n) [n]
  | member (m : μ) {o : Term μ} {path : List String} (key : String) : Denotes locals s o path →
    Denotes locals s (.member m o key) (path ++ [key])
  | index (m : μ) {o k : Term μ} {path : List String} {v : Value} : Denotes locals s o path →
    Answers s (eval locals k) (.ok v) → Denotes locals s (.index m o k) (path ++ [v.toText])

theorem denotes_or_fails {t : Term μ} (h : t.KeysRead) :
    (∃ f, Answers s (targetPath locals t) (.error f)) ∨
      ∃ path, Denotes locals s t path ∧ Answers s (targetPath locals t) (.ok path) := by
  induction h with
  | name m n =>
    unfold targetPath
    cases hn : locals.get? n with
    | some v => exact .inl ⟨_, answers_throw _⟩
    | none => exact .inr ⟨[n], .name m hn, answers_pure _⟩
  | member m key _ ih =>
    unfold targetPath
    rcases ih with ⟨f, hf⟩ | ⟨path, hd, hp⟩
    · exact .inl ⟨f, hf.fails⟩
    · exact .inr ⟨_, hd.member m key, hp.bind (answers_pure _)⟩
  | index m _ hk ih =>
    unfold targetPath
    rcases ih with ⟨f, hf⟩ | ⟨path, hd, hp⟩
    · exact .inl ⟨f, hf.fails⟩
    · obtain ⟨o, ho⟩ : Settles s (eval locals _) := settles_eval hk
      cases o with
      | error f => exact .inl ⟨f, hp.bind ho.fails⟩
      | ok v => exact .inr ⟨_, hd.index m ho, hp.bind (ho.bind (answers_pure _))⟩
  | @other e he =>
    cases e with
    | name | member | index => cases he
    | _ => exact .inl ⟨_, answers_throw _⟩

/-! ## Expressions that write once -/

/-- An assignment or an update of which the parts only read. -/
inductive Term.WritesOnce : Term μ → Prop
  | update (m : μ) (op : UpdateOp) (before : Bool) {t : Term μ} : t.KeysRead → (Term.update m op before t).WritesOnce
  | assign (m : μ) (op : AssignOp) {t e : Term μ} : t.KeysRead → e.Reads → (Term.assign m op t e).WritesOnce

/-- The order, and the value after it. -/
def order (path : List String) (v u : Value) : Eval Value := do
  tell path v
  return u

/-- By asking alone the evaluation fails, or comes to one order for the path of its target. -/
theorem orders_once (s : Scope σ) (locals : Locals) {e : Term μ} (h : e.WritesOnce) :
    (∃ f, Answers s (eval locals e) (.error f)) ∨
      ∃ t path v u, e.target? = some t ∧ Denotes locals s t path ∧ (eval locals e).run.Reaches s (order path v u).run := by
  cases h with
  | update m op before ht =>
    unfold eval
    rcases denotes_or_fails ht with ⟨f, hf⟩ | ⟨path, hd, hp⟩
    · exact .inl ⟨f, hf.fails⟩
    · obtain ⟨old, hold⟩ := answers_readPath (s := s) path
      exact .inr ⟨_, path, _, _, rfl, hd, hp.then.trans hold.then⟩
  | @assign m op t e ht he =>
    unfold eval
    rcases denotes_or_fails ht with ⟨f, hf⟩ | ⟨path, hd, hp⟩
    · exact .inl ⟨f, hf.fails⟩
    · obtain ⟨o, ho⟩ : Settles s (eval locals e) := settles_eval he
      cases hop : op.binary? with
      | none =>
        cases o with
        | error f => exact .inl ⟨f, hp.bind ho.fails⟩
        | ok v => exact .inr ⟨_, path, v, v, rfl, hd, hp.then.trans ho.then⟩
      | some op =>
        obtain ⟨old, hold⟩ := answers_readPath (s := s) path
        cases o with
        | error f => exact .inl ⟨f, hp.bind (hold.bind ho.fails)⟩
        | ok v => exact .inr ⟨_, path, _, _, rfl, hd, hp.then.trans (hold.then.trans ho.then)⟩

end Eventful.Expr
