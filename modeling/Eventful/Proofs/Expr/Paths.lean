import Eventful.Proofs.Expr.Printing
import Eventful.Proofs.Expr.Reading
import Eventful.Proofs.Scope.Access

/-
  Eventful.Proofs.Expr.Paths — a target, as an expression and as a path.

  As an expression a target fails where its name is not there, or where a value on the way
  is undefined or null (`Readable`). As a path it reads on, to undefined (`target_read`). So
  an assignment with an operator, which reads the path, is the plain assignment with the old
  value spelled out as an operand, if that operand is the target where it can be read, and
  the literal `undefined` where it cannot (`Spelt.meets`).

  Marks make no difference to an evaluation (`eval_unmarked`).
-/

namespace Eventful.Expr

variable {α μ ν σ : Type} {s : Scope σ} {locals : Locals} {t : Term μ} {path : List String} {key : String}

/-! ## Reading a path -/

/-- To read a path is to ask for its name once, and to go along the keys. -/
theorem answers_along (s : Scope σ) (hp : path ≠ []) : Answers s (readPath path) (.ok (s.snapshot.along path)) := by
  cases path with
  | nil => exact absurd rfl hp
  | cons name keys => exact .ask (.refl _)

/-- The name is there, and no value before the last key is undefined or null. -/
def Readable (s : Scope σ) (path : List String) : Prop :=
  (∃ name ∈ path.head?, s.has name = true) ∧ ∀ q, q <+: path → q ≠ path → (s.snapshot.along q).isNullish = false

theorem head?_concat (hne : path ≠ []) : (path ++ [key]).head? = path.head? := by
  cases path with
  | nil => exact absurd rfl hne
  | cons name keys => rfl

theorem readable_name {n : String} : Readable s [n] ↔ s.has n = true := by
  constructor
  · rintro ⟨⟨_, ⟨⟩, hn⟩, -⟩
    exact hn
  · intro hn
    refine ⟨⟨n, rfl, hn⟩, fun q hq hne => ?_⟩
    have hnil : q = [] := by simpa [hne] using List.prefix_cons_iff.mp hq
    rw [hnil]
    rfl

theorem readable_concat (hne : path ≠ []) :
    Readable s (path ++ [key]) ↔ Readable s path ∧ (s.snapshot.along path).isNullish = false := by
  have hhead : (path ++ [key]).head? = path.head? := head?_concat hne
  have hlonger : path ≠ path ++ [key] := by simp
  unfold Readable
  rw [hhead]
  constructor
  · rintro ⟨hname, hway⟩
    refine ⟨⟨hname, fun q hbefore _ => hway q (hbefore.trans (List.prefix_append _ _)) ?_⟩, ?_⟩
    · rintro rfl
      exact absurd hbefore.length_le (by simp)
    · exact hway path (List.prefix_append _ _) hlonger
  · rintro ⟨⟨hname, hway⟩, hlast⟩
    refine ⟨hname, fun q hbefore hne => ?_⟩
    rcases List.prefix_concat_iff.mp hbefore with rfl | hbefore
    · exact absurd rfl hne
    · by_cases hsame : q = path
      · rw [hsame]
        exact hlast
      · exact hway q hbefore hsame

theorem Denotes.ne_nil (hd : Denotes locals s t path) : path ≠ [] := by
  cases hd <;> simp

/-- Why a path cannot be read: its name is not there, or a value on its way has no properties. -/
def Unreadable (s : Scope σ) (path : List String) (f : Fault) : Prop :=
  ∃ name ∈ path.head?, f.kind = if s.has name then .illTyped else .unresolved

/-- What a target comes to as an expression. -/
inductive ReadEnd (s : Scope σ) (locals : Locals) (t : Term μ) (path : List String) : Prop
  | value : Readable s path → Answers s (eval locals t) (.ok (s.snapshot.along path)) → ReadEnd s locals t path
  | fault {f : Fault} : ¬Readable s path → s.snapshot.along path = .undefined → Answers s (eval locals t) (.error f) →
    Unreadable s path f → ReadEnd s locals t path

/-- A property of a target that is read. -/
theorem ReadEnd.concat {u : Term μ} (hne : path ≠ []) (h : ReadEnd s locals t path)
    (hfails : ∀ {f}, Answers s (eval locals t) (.error f) → Answers s (eval locals u) (.error f))
    (hreads : ∀ {v o}, Answers s (eval locals t) (.ok v) → Answers s (readMember v key) o → Answers s (eval locals u) o) :
    ReadEnd s locals u (path ++ [key]) := by
  have hhead : (path ++ [key]).head? = path.head? := head?_concat hne
  cases h with
  | value hr hv =>
    cases hnullish : (s.snapshot.along path).isNullish with
    | false =>
      refine .value ((readable_concat hne).mpr ⟨hr, hnullish⟩) (hreads hv ?_)
      rw [Value.along_concat]
      unfold readMember
      rw [hnullish]
      exact answers_pure _
    | true =>
      have hfault : Answers s (readMember (s.snapshot.along path) key) (.error (.noProperties (s.snapshot.along path) key)) := by
        unfold readMember
        rw [hnullish]
        exact answers_throw _
      refine .fault ?_ ?_ (hreads hv hfault) ?_
      · rw [readable_concat hne, hnullish]
        exact fun h => nomatch h.2
      · rw [Value.along_concat, Value.get_nullish hnullish]
      · obtain ⟨name, hname, hhas⟩ := hr.1
        exact ⟨name, hhead ▸ hname, by rw [hhas]; rfl⟩
  | fault hnot hundefined hf hwhy =>
    refine .fault ?_ ?_ (hfails hf) ?_
    · rw [readable_concat hne]
      exact fun h => hnot h.1
    · rw [Value.along_concat, hundefined]
      rfl
    · unfold Unreadable
      rwa [hhead]

/-- A name that is not a local is asked of the scope. -/
theorem answers_lookup {n : String} (hlocal : locals.get? n = none) :
    Answers s (lookup locals n) ((s.data.get? n).elim (.error (.unresolved n)) .ok) := by
  have hask := answers_ask (s := s) n
  unfold lookup
  rw [hlocal]
  cases hget : s.data.get? n with
  | some v =>
    rw [hget] at hask
    exact hask.bind (answers_pure v)
  | none =>
    rw [hget] at hask
    exact hask.bind (answers_throw _)

theorem target_read (hd : Denotes locals s t path) : ReadEnd s locals t path := by
  induction hd with
  | @name m n hlocal =>
    have hhas : s.has n = (s.data.get? n).isSome := rfl
    have hlookup := answers_lookup (s := s) hlocal
    cases hget : s.data.get? n with
    | some v =>
      rw [hget] at hhas hlookup
      have hread : s.snapshot.along [n] = v := by simp [Value.along_cons, Scope.snapshot, Value.get, hget]
      refine .value (readable_name.mpr hhas) ?_
      rw [hread]
      unfold eval
      exact hlookup
    | none =>
      rw [hget] at hhas hlookup
      refine .fault (f := .unresolved n) ?_ ?_ ?_ ⟨n, rfl, by rw [hhas]; rfl⟩
      · rw [readable_name, hhas]
        exact Bool.false_ne_true
      · simp [Value.along_cons, Scope.snapshot, Value.get, hget]
      · unfold eval
        exact hlookup
  | @member m o path key hd ih =>
    refine ih.concat hd.ne_nil (fun hf => ?_) fun hv ho => ?_
    · unfold eval
      exact hf.fails
    · unfold eval
      exact hv.bind ho
  | @index m o k path v hd hk ih =>
    refine ih.concat hd.ne_nil (fun hf => ?_) fun hv ho => ?_
    · unfold eval
      exact hf.fails
    · unfold eval
      exact hv.bind (hk.bind ho)

/-! ## Operators in assignments -/

/-- The operator between the old value and one. -/
def UpdateOp.binary : UpdateOp → BinaryOp
  | .increment => .add
  | .decrement => .sub

/-- An assignment with an operator, and the plain one with the old value spelled out as `old`:
    `t op= e` and `t = old op e`, `++t` and `t = +old + 1`. -/
inductive Spelt (t old : Term μ) : Term μ → Term μ → Prop
  | assign (m₁ m₂ m₃ : μ) {op : AssignOp} {b : BinaryOp} (e : Term μ) : op.binary? = some b →
    Spelt t old (.assign m₁ op t e) (.assign m₂ .plain t (.binary m₃ b old e))
  | update (m₁ m₂ m₃ m₄ m₅ : μ) (op : UpdateOp) : Spelt t old (.update m₁ op true t)
    (.assign m₂ .plain t (.binary m₃ op.binary (.unary m₄ .plus old) (.literal m₅ (.number 1))))

theorem UpdateOp.apply_binary (op : UpdateOp) (v : Value) :
    op.binary.apply (.number v.toNumber) (.number 1) = .number (op.apply v.toNumber) := by
  cases op <;> rfl

/-- A number is made of the old value. -/
theorem Answers.plus {m : μ} {v : Value} (h : Answers s (eval locals t) (.ok v)) :
    Answers s (eval locals (.unary m .plus t)) (.ok (.number v.toNumber)) := by
  have hlift : Answers s (ExceptT.lift (eval locals t).run) (.ok (.ok v)) := Dialogue.Reaches.bind h _
  unfold eval
  exact hlift.bind (answers_pure _)

/-- A target that denotes no path fails an assignment, whatever is assigned. -/
theorem Spelt.fails {old c d : Term μ} {f : Fault} (h : Spelt t old c d)
    (hf : Answers s (targetPath locals t) (.error f)) :
    Answers s (eval locals c) (.error f) ∧ Answers s (eval locals d) (.error f) := by
  cases h with
  | assign =>
    constructor
    · unfold eval
      exact hf.fails
    · unfold eval
      exact hf.fails
  | update =>
    constructor
    · unfold eval
      exact hf.fails
    · unfold eval
      exact hf.fails

section

variable {old c d : Term μ} (hpath : Answers s (targetPath locals t) (.ok path))

include hpath

/-- The plain assignment reaches its right-hand side. -/
theorem reaches_plain (m : μ) (e : Term μ) :
    (eval locals (.assign m .plain t e)).run.Reaches s (do let v ← eval locals e; order path v v : Eval Value).run := by
  rw [eval]
  exact hpath.then

/-- If the old value cannot be read, the plain assignment fails for that. -/
theorem Spelt.unread {f : Fault} (h : Spelt t old c d) (hold : Answers s (eval locals old) (.error f)) :
    Answers s (eval locals d) (.error f) := by
  cases h with
  | assign m₁ m₂ m₃ e hop =>
    refine (reaches_plain hpath m₂ _).trans (Answers.fails ?_)
    rw [eval]
    exact hold.fails
  | update m₁ m₂ m₃ m₄ m₅ op =>
    have hlift : Answers s (ExceptT.lift (eval locals old).run) (.ok (.error f)) := Dialogue.Reaches.bind hold _
    have hplus : Answers s (eval locals (.unary m₄ .plus old)) (.error f) := by
      rw [eval]
      exact hlift.bind (answers_throw f)
    refine (reaches_plain hpath m₂ _).trans (Answers.fails ?_)
    rw [eval]
    exact hplus.fails

/-- If the old value is what is read along the path, the two assignments meet before the
    right-hand side. -/
theorem Spelt.meets (h : Spelt t old c d) (hp : path ≠ [])
    (hold : Answers s (eval locals old) (.ok (s.snapshot.along path))) :
    ∃ rest, (eval locals c).run.Reaches s rest ∧ (eval locals d).run.Reaches s rest := by
  have hread := answers_along s hp
  cases h with
  | @assign m₁ m₂ m₃ op b e hop =>
    refine ⟨(do let r ← eval locals e; order path (b.apply (s.snapshot.along path) r) (b.apply (s.snapshot.along path) r) :
      Eval Value).run, ?_, (reaches_plain hpath m₂ _).trans ?_⟩
    · rw [eval, hop]
      exact hpath.then.trans hread.then
    · rw [eval, bind_assoc]
      refine hold.then.trans ?_
      rw [bind_assoc]
      exact .refl _
  | update m₁ m₂ m₃ m₄ m₅ op =>
    have hone : Answers s (eval locals (.literal m₅ (.number 1))) (.ok (.number 1)) := by
      rw [eval]
      exact answers_pure _
    refine ⟨(order path (.number (op.apply (s.snapshot.along path).toNumber))
      (.number (op.apply (s.snapshot.along path).toNumber))).run, ?_, (reaches_plain hpath m₂ _).trans ?_⟩
    · rw [eval]
      exact hpath.then.trans hread.then
    · rw [eval, bind_assoc, ← UpdateOp.apply_binary]
      refine hold.plus.then.trans ?_
      rw [bind_assoc]
      exact hone.then

end

/-! ## Marks -/

theorem evalEntries_unmarked {es : List (String × Term μ)}
    (h : ∀ e ∈ es, eval locals e.2.unmarked = eval locals e.2) :
    evalEntries locals (unmarkedEntries es) = evalEntries locals es := by
  induction es with
  | nil => rfl
  | cons e es ih =>
    rw [List.forall_mem_cons] at h
    rw [unmarkedEntries, evalEntries, evalEntries, h.1, ih h.2]

theorem evalLast_unmarked {es : List (Term μ)} (h : ∀ e ∈ es, eval locals e.unmarked = eval locals e) (last : Value) :
    evalLast locals last (unmarkedItems es) = evalLast locals last es := by
  induction es generalizing last with
  | nil => rfl
  | cons e es ih =>
    rw [List.forall_mem_cons] at h
    rw [unmarkedItems, evalLast, evalLast, h.1]
    exact congrArg _ (funext fun v => ih h.2 v)

theorem unmarked_evals (locals : Locals) (e : Term μ) :
    eval locals e.unmarked = eval locals e ∧ targetPath locals e.unmarked = targetPath locals e := by
  induction e using Term.parts_induction with
  | h e ih =>
    cases e with
    | name | literal => exact ⟨rfl, rfl⟩
    | object m es =>
      have hes := evalEntries_unmarked fun e he => (ih e.2 (List.mem_map_of_mem he)).1
      exact ⟨by rw [Term.unmarked, eval, eval, hes], rfl⟩
    | member m o key =>
      obtain ⟨hv, hp⟩ := ih o List.mem_cons_self
      exact ⟨by rw [Term.unmarked, eval, eval, hv], by rw [Term.unmarked, targetPath, targetPath, hp]⟩
    | index m o k =>
      obtain ⟨hv, hp⟩ := ih o (by simp [Term.parts])
      obtain ⟨hk, -⟩ := ih k (by simp [Term.parts])
      exact ⟨by rw [Term.unmarked, eval, eval, hv, hk], by rw [Term.unmarked, targetPath, targetPath, hp, hk]⟩
    | unary m op a =>
      obtain ⟨hv, -⟩ := ih a List.mem_cons_self
      exact ⟨by rw [Term.unmarked, eval, eval, hv], rfl⟩
    | update m op before t =>
      obtain ⟨-, hp⟩ := ih t List.mem_cons_self
      exact ⟨by rw [Term.unmarked, eval, eval, hp], rfl⟩
    | binary m op l r =>
      obtain ⟨hl, -⟩ := ih l (by simp [Term.parts])
      obtain ⟨hr, -⟩ := ih r (by simp [Term.parts])
      exact ⟨by rw [Term.unmarked, eval, eval, hl, hr], rfl⟩
    | logical m op l r =>
      obtain ⟨hl, -⟩ := ih l (by simp [Term.parts])
      obtain ⟨hr, -⟩ := ih r (by simp [Term.parts])
      exact ⟨by rw [Term.unmarked, eval, eval, hl, hr], rfl⟩
    | conditional m t y n =>
      obtain ⟨ht, -⟩ := ih t (by simp [Term.parts])
      obtain ⟨hy, -⟩ := ih y (by simp [Term.parts])
      obtain ⟨hn, -⟩ := ih n (by simp [Term.parts])
      exact ⟨by rw [Term.unmarked, eval, eval, ht, hy, hn], rfl⟩
    | assign m op t v =>
      obtain ⟨-, ht⟩ := ih t (by simp [Term.parts])
      obtain ⟨hv, -⟩ := ih v (by simp [Term.parts])
      exact ⟨by rw [Term.unmarked, eval, eval, ht, hv], rfl⟩
    | sequence m es =>
      have hes : ∀ e ∈ es, eval locals e.unmarked = eval locals e := fun e he => (ih e he).1
      exact ⟨by rw [Term.unmarked, eval, eval, evalLast_unmarked hes], rfl⟩

/-- Marks make no difference to an evaluation. -/
theorem eval_unmarked (locals : Locals) (e : Term μ) : eval locals e.unmarked = eval locals e := (unmarked_evals locals e).1

end Eventful.Expr
