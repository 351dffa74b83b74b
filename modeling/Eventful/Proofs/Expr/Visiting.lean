import Eventful.Proofs.Expr.Reading

/-
  Eventful.Proofs.Expr.Visiting — which parts of an expression are evaluated.

  An evaluation goes into some parts of an expression and leaves others out. The tour of an
  expression is its evaluation with a record of that: for each part that it goes into, what
  the part came to, and the visits to its own parts (`Visit`).

  - `enters_tour`: without the record the tour is the evaluation, and the visits are orderly.
    A visit comes to what evaluating its part may come to, and if a visit in it fails, so does
    it, unless it is to a `typeof` and the fault is a name that is not there (`Visit.Orderly`).
  - `Visit.Orderly.surfaces`: a fault anywhere is the fault of the whole, or was caught so.
-/

namespace Eventful.Expr

variable {α β μ σ : Type} {locals : Locals}

/-! ## Visits -/

/-- What a part comes to, evaluated or resolved as a target. -/
inductive Came where
  | value (v : Value)
  | path (path : List String)

/-- A part of an expression, what it came to, and the visits to its own parts meanwhile. -/
structure Visit (μ : Type) where
  part : Term μ
  outcome : Except Fault Came
  inner : List (Visit μ)

/-- An evaluation that keeps a record of visits. -/
abbrev Tour (μ : Type) := ExceptT Fault (StateT (List (Visit μ)) Dialogue)

namespace Tour

/-- An evaluation without visits. -/
def act (m : Eval α) : Tour μ α := fun seen => m.run.bind fun o => .done (o, seen)

/-- A visit. -/
def enter (came : α → Came) (part : Term μ) (m : Tour μ α) : Tour μ α :=
  fun seen => (m []).bind fun r => .done (r.1, seen ++ [⟨part, r.1.map came, r.2⟩])

/-- The outcome, looked at. -/
def outcome (m : Tour μ α) : Tour μ (Except Fault α) := fun seen => (m seen).bind fun r => .done (.ok r.1, r.2)

end Tour

open Tour

mutual

/-- The evaluation of an expression, as a visit to it. -/
def tour (locals : Locals) (e : Term μ) : Tour μ Value :=
  enter .value e <| match e with
  | .name _ n => act (lookup locals n)
  | .literal _ v => return v.value
  | .object _ es => do return Value.ofPairs (← tourEntries locals es)
  | .member _ o key => do act (readMember (← tour locals o) key)
  | .index _ o k => do
    let holder ← tour locals o
    let key ← tour locals k
    act (readMember holder key.toText)
  | .unary _ op arg => do
    let o ← outcome (tour locals arg)
    match op, o with
    | .typeof, .error (.unresolved _) => return UnaryOp.typeof.apply .undefined
    | _, .error f => throw f
    | op, .ok v => return op.apply v
  | .update _ op before target => do
    let path ← tourTarget locals target
    let old := (← act (readPath path)).toNumber
    let new := op.apply old
    act (tell path (.number new))
    return .number (if before then new else old)
  | .binary _ op l r => do
    let a ← tour locals l
    let b ← tour locals r
    return op.apply a b
  | .logical _ op l r => do
    let a ← tour locals l
    if op.settles a then return a else tour locals r
  | .conditional _ test yes no => do
    if (← tour locals test).isTruthy then tour locals yes else tour locals no
  | .assign _ op target e => do
    let path ← tourTarget locals target
    let value ← match op.binary? with
      | none => tour locals e
      | some op => do
        let old ← act (readPath path)
        let rhs ← tour locals e
        pure (op.apply old rhs)
    act (tell path value)
    return value
  | .sequence _ es => tourLast locals .undefined es

def tourEntries (locals : Locals) : List (String × Term μ) → Tour μ (List (String × Value))
  | [] => return []
  | (key, e) :: es => do
    let v ← tour locals e
    return (key, v) :: (← tourEntries locals es)

def tourLast (locals : Locals) (last : Value) : List (Term μ) → Tour μ Value
  | [] => return last
  | e :: es => do tourLast locals (← tour locals e) es

/-- The path of an assignment or update target, as a visit to the target. -/
def tourTarget (locals : Locals) (e : Term μ) : Tour μ (List String) :=
  enter .path e <| match e with
  | .name _ n => if (locals.get? n).isSome then throw (.constantName n) else return [n]
  | .member _ o key => return (← tourTarget locals o) ++ [key]
  | .index _ o k => do
    let path ← tourTarget locals o
    let key ← tour locals k
    return path ++ [key.toText]
  | _ => throw .notATarget

end

/-! ## What a dialogue may come to -/

/-- The dialogue comes to this if it is answered so. -/
inductive Dialogue.May : Dialogue α → α → Prop
  | done (a : α) : May (.done a) a
  | ask {name : String} {k : Option Value → Dialogue α} {a : α} (v : Option Value) : (k v).May a → May (.ask name k) a
  | tell {path : List String} {v : Value} {k : Except Blocked Unit → Dialogue α} {a : α} (r : Except Blocked Unit) :
    (k r).May a → May (.tell path v k) a

theorem Dialogue.may_done {a b : α} : (Dialogue.done a).May b ↔ b = a := by
  refine ⟨fun h => ?_, ?_⟩
  · cases h
    rfl
  · rintro rfl
    exact .done b

theorem Dialogue.may_bind {d : Dialogue α} {f : α → Dialogue β} {b : β} :
    (d.bind f).May b ↔ ∃ a, d.May a ∧ (f a).May b := by
  refine ⟨fun h => ?_, ?_⟩
  · induction d with
    | done a => exact ⟨a, .done a, h⟩
    | ask name k ih =>
      cases h with
      | ask v h =>
        obtain ⟨a, ha, hb⟩ := ih v h
        exact ⟨a, .ask v ha, hb⟩
    | tell path v k ih =>
      cases h with
      | tell r h =>
        obtain ⟨a, ha, hb⟩ := ih r h
        exact ⟨a, .tell r ha, hb⟩
  · rintro ⟨a, ha, hb⟩
    induction ha with
    | done a => exact hb
    | ask v _ ih => exact .ask v (ih hb)
    | tell r _ ih => exact .tell r (ih hb)

theorem Dialogue.may_runOn (d : Dialogue α) (s : Scope σ) : d.May (d.runOn s).1 := by
  induction d generalizing s with
  | done a => exact .done a
  | ask name k ih => exact .ask _ (ih _ s)
  | tell path v k ih =>
    unfold runOn
    split
    · exact .tell _ (ih _ s)
    · exact .tell _ (ih _ _)

theorem Dialogue.runOn_bind_done (d : Dialogue α) (g : α → β) (s : Scope σ) :
    ((d.bind fun a => .done (g a)).runOn s) = (g (d.runOn s).1, (d.runOn s).2) := by
  induction d generalizing s with
  | done a => rfl
  | ask name k ih => exact ih _ s
  | tell path v k ih =>
    simp only [bind, runOn]
    split
    · exact ih _ s
    · rw [ih]

/-! ## Orderly visits -/

namespace Visit

/-- The visit comes to what its part may come to as a value or as a target. -/
def Real (locals : Locals) (v : Visit μ) : Prop :=
  (∃ o, (eval locals v.part).run.May o ∧ v.outcome = o.map .value) ∨
    ∃ o, (targetPath locals v.part).run.May o ∧ v.outcome = o.map .path

/-- A `typeof` whose operand has failed for want of a name, and that is `undefined`. -/
inductive Catches : Visit μ → Fault → Prop
  | typeof (m : μ) (arg : Term μ) (name : String) (inner : List (Visit μ)) :
    Catches ⟨.unary m .typeof arg, .ok (.value (.text "undefined")), [⟨arg, .error (.unresolved name), inner⟩]⟩
      (.unresolved name)

/-- The visits in it are to parts of its part, and if one fails, so does it, unless it
    catches the fault. -/
inductive Orderly (locals : Locals) : Visit μ → Prop
  | mk {v : Visit μ} (real : v.Real locals) (parts : ∀ w ∈ v.inner, w.part ∈ v.part.parts)
    (faults : ∀ w ∈ v.inner, ∀ f, w.outcome = .error f → v.outcome = .error f ∨ v.Catches f)
    (inner : ∀ w ∈ v.inner, w.Orderly locals) : Orderly locals v

/-- The second visit is the first, or was made in it. -/
inductive Reaches : Visit μ → Visit μ → Prop
  | refl (v : Visit μ) : Reaches v v
  | inner {v w x : Visit μ} : w ∈ v.inner → w.Reaches x → Reaches v x

theorem Orderly.reaches {v x : Visit μ} (h : v.Orderly locals) (hx : v.Reaches x) : x.Orderly locals := by
  induction hx with
  | refl v => exact h
  | inner hw _ ih =>
    cases h with
    | mk _ _ _ hinner => exact ih (hinner _ hw)

/-- A fault in an orderly visit is its own, or was caught on the way up. -/
theorem Orderly.surfaces {v x : Visit μ} {f : Fault} (h : v.Orderly locals) (hx : v.Reaches x) (hf : x.outcome = .error f) :
    v.outcome = .error f ∨ ∃ t w, v.Reaches t ∧ t.Catches f ∧ w ∈ t.inner ∧ w.Reaches x := by
  induction hx with
  | refl v => exact .inl hf
  | @inner v w x hw hx ih =>
    cases h with
    | mk _ _ hfaults hinner =>
      rcases ih (hinner w hw) hf with hwf | ⟨t, u, ht, hcatches, hu, hux⟩
      · rcases hfaults w hw f hwf with hvf | hcatches
        · exact .inl hvf
        · exact .inr ⟨v, w, .refl v, hcatches, hw, hx⟩
      · exact .inr ⟨t, u, .inner hw ht, hcatches, hu, hux⟩

end Visit

/-! ## Tours beside evaluations -/

theorem map_eq_error {g : α → β} {o : Except Fault α} {f : Fault} : o.map g = .error f ↔ o = .error f := by
  cases o <;> simp [Except.map]

/-- The tour without its record. -/
def Tour.bare (m : Tour μ α) (seen : List (Visit μ)) : Dialogue (Except Fault α) := (m seen).bind fun r => .done r.1

theorem Tour.bind_apply (m : Tour μ α) (f : α → Tour μ β) (seen : List (Visit μ)) :
    (m >>= f) seen = (m seen).bind fun r => match r.1 with
      | .ok a => f a r.2
      | .error e => .done (.error e, r.2) :=
  congrArg _ (funext fun r => by obtain ⟨_ | _, _⟩ := r <;> rfl)

theorem Tour.outcome_apply (m : Tour μ α) (f : Except Fault α → Tour μ β) (seen : List (Visit μ)) :
    (m.outcome >>= f) seen = (m seen).bind fun r => f r.1 r.2 := by
  rw [bind_apply, outcome, Dialogue.bind_bind]
  rfl

theorem Tour.bare_may {m : Tour μ α} {seen : List (Visit μ)} {r : Except Fault α × List (Visit μ)} (h : (m seen).May r) :
    (m.bare seen).May r.1 := Dialogue.may_bind.mpr ⟨r, h, .done _⟩

/-- The visits are orderly, and to these parts; and none has failed unless with the fault that
    there is. -/
def Kept (locals : Locals) (ps : List (Term μ)) (o : Except Fault α) (seen : List (Visit μ)) : Prop :=
  ∀ v ∈ seen, v.Orderly locals ∧ v.part ∈ ps ∧ ∀ f, v.outcome = .error f → o = .error f

/-- The tour is the evaluation, and visits these parts, until one fails. -/
structure Tours (locals : Locals) (ps : List (Term μ)) (m : Tour μ α) (m' : Eval α) : Prop where
  plain : ∀ seen, m.bare seen = m'.run
  kept : ∀ seen, Kept locals ps (.ok ()) seen → ∀ r, (m seen).May r → Kept locals ps r.1 r.2

section

variable {ps : List (Term μ)}

theorem Kept.again {a : α} {o : Except Fault β} {seen : List (Visit μ)} (h : Kept locals ps (.ok a) seen) :
    Kept locals ps o seen := fun v hv =>
  have ⟨horderly, hpart, hnone⟩ := h v hv
  ⟨horderly, hpart, fun f hf => nomatch hnone f hf⟩

theorem tours_pure (a : α) : Tours locals ps (pure a) (pure a) where
  plain _ := rfl
  kept seen hseen r hr := by
    obtain rfl := Dialogue.may_done.mp hr
    exact hseen.again

theorem tours_throw (f : Fault) : Tours (α := α) locals ps (throw f) (throw f) where
  plain _ := rfl
  kept seen hseen r hr := by
    obtain rfl := Dialogue.may_done.mp hr
    exact hseen.again

theorem tours_act (m : Eval α) : Tours locals ps (act m) m where
  plain seen := by
    rw [bare, act, Dialogue.bind_bind]
    exact Dialogue.bind_done m.run
  kept seen hseen r hr := by
    obtain ⟨o, -, hr⟩ := Dialogue.may_bind.mp hr
    obtain rfl := Dialogue.may_done.mp hr
    exact hseen.again

theorem Tours.bind {m : Tour μ α} {m' : Eval α} {f : α → Tour μ β} {f' : α → Eval β} (h : Tours locals ps m m')
    (hf : ∀ a, Tours locals ps (f a) (f' a)) : Tours locals ps (m >>= f) (m' >>= f') where
  plain seen := by
    have hrun : (m' >>= f').run = (m.bare seen).bind fun o => match o with
        | .ok a => (f' a).run
        | .error e => .done (.error e) := by
      rw [h.plain seen]
      exact congrArg m'.run.bind (funext fun o => by cases o <;> rfl)
    rw [hrun, bare, bare, bind_apply, Dialogue.bind_bind, Dialogue.bind_bind]
    refine congrArg _ (funext fun r => ?_)
    obtain ⟨e | a, seen'⟩ := r
    · rfl
    · exact (hf a).plain seen'
  kept seen hseen r hr := by
    rw [bind_apply] at hr
    obtain ⟨⟨o, seen'⟩, ho, hr⟩ := Dialogue.may_bind.mp hr
    have hkept := h.kept seen hseen _ ho
    cases o with
    -- nothing has failed so far, so the rest begins as the first part did
    | ok a => exact (hf a).kept seen' hkept.again r hr
    | error e =>
      obtain rfl := Dialogue.may_done.mp hr
      intro v hv
      obtain ⟨horderly, hpart, hfault⟩ := hkept v hv
      exact ⟨horderly, hpart, fun f hf => by cases hfault f hf; rfl⟩

/-- The tour is the evaluation, as one orderly visit to the expression. -/
structure Enters (locals : Locals) (came : α → Came) (e : Term μ) (m : Tour μ α) (m' : Eval α) : Prop where
  plain : ∀ seen, m.bare seen = m'.run
  visit : ∀ seen r, (m seen).May r → ∃ inner, r.2 = seen ++ [⟨e, r.1.map came, inner⟩] ∧
    Visit.Orderly locals ⟨e, r.1.map came, inner⟩

theorem Enters.tours {came : α → Came} {e : Term μ} {m : Tour μ α} {m' : Eval α} (h : Enters locals came e m m')
    (he : e ∈ ps) : Tours locals ps m m' where
  plain := h.plain
  kept seen hseen r hr := by
    obtain ⟨inner, hinner, horderly⟩ := h.visit seen r hr
    rw [hinner]
    exact List.forall_mem_append.mpr
      ⟨hseen.again, List.forall_mem_singleton.mpr ⟨horderly, he, fun f => map_eq_error.mp⟩⟩

/-- A visit is orderly if those in it are, and what they have of faults it has or catches. -/
theorem enters_enter {came : α → Came} {e : Term μ} {m : Tour μ α} {m' : Eval α} (hplain : ∀ seen, m.bare seen = m'.run)
    (hreal : ∀ o, m'.run.May o → ∀ inner, Visit.Real locals ⟨e, o.map came, inner⟩)
    (hinner : ∀ r, (m []).May r → ∀ w ∈ r.2, w.Orderly locals ∧ w.part ∈ e.parts ∧
      ∀ f, w.outcome = .error f → r.1 = .error f ∨ Visit.Catches ⟨e, r.1.map came, r.2⟩ f) :
    Enters locals came e (enter came e m) m' where
  plain seen := by
    rw [bare, enter, Dialogue.bind_bind, ← hplain []]
    rfl
  visit seen r' hr' := by
    obtain ⟨r, hr, hdone⟩ := Dialogue.may_bind.mp hr'
    obtain rfl := Dialogue.may_done.mp hdone
    have hmay : m'.run.May r.1 := hplain [] ▸ bare_may hr
    refine ⟨r.2, rfl, hreal r.1 hmay r.2, fun w hw => (hinner r hr w hw).2.1, fun w hw f hf => ?_,
      fun w hw => (hinner r hr w hw).1⟩
    rcases (hinner r hr w hw).2.2 f hf with ho | hcatches
    · exact .inl (congrArg (Except.map came) ho)
    · exact .inr hcatches

theorem Tours.enter {came : α → Came} {e : Term μ} {m : Tour μ α} {m' : Eval α} (h : Tours locals e.parts m m')
    (hreal : ∀ o, m'.run.May o → ∀ inner, Visit.Real locals ⟨e, o.map came, inner⟩) :
    Enters locals came e (enter came e m) m' :=
  enters_enter h.plain hreal fun r hr w hw =>
    have ⟨horderly, hpart, hfault⟩ := h.kept [] nofun r hr w hw
    ⟨horderly, hpart, fun f hf => .inl (hfault f hf)⟩

end

/-! ## The tour of an expression -/

theorem Enters.value {e : Term μ} {m : Tour μ Value} (h : Tours locals e.parts m (eval locals e)) :
    Enters locals .value e (enter .value e m) (eval locals e) := h.enter fun o ho _ => Or.inl ⟨o, ho, rfl⟩

theorem Enters.path {e : Term μ} {m : Tour μ (List String)} (h : Tours locals e.parts m (targetPath locals e)) :
    Enters locals .path e (enter .path e m) (targetPath locals e) := h.enter fun o ho _ => Or.inr ⟨o, ho, rfl⟩

theorem tours_entries {ps : List (Term μ)} {es : List (String × Term μ)}
    (h : ∀ e ∈ es, Tours locals ps (tour locals e.2) (eval locals e.2)) :
    Tours locals ps (tourEntries locals es) (evalEntries locals es) := by
  induction es with
  | nil => exact tours_pure _
  | cons e es ih =>
    rw [List.forall_mem_cons] at h
    exact h.1.bind fun v => (ih h.2).bind fun vs => tours_pure _

theorem tours_last {ps : List (Term μ)} {es : List (Term μ)} (h : ∀ e ∈ es, Tours locals ps (tour locals e) (eval locals e))
    (last : Value) : Tours locals ps (tourLast locals last es) (evalLast locals last es) := by
  induction es generalizing last with
  | nil => exact tours_pure _
  | cons e es ih =>
    rw [List.forall_mem_cons] at h
    exact h.1.bind fun v => ih h.2 v

/-- What a unary operator makes of the outcome of its operand. -/
def UnaryOp.judge (op : UnaryOp) (o : Outcome) : Outcome :=
  match op, o with
  | .typeof, .error (.unresolved _) => .ok (.text "undefined")
  | _, .error f => .error f
  | op, .ok v => .ok (op.apply v)

theorem judge_error (op : UnaryOp) (f : Fault) : op.judge (.error f) = .error f ∨
    op = .typeof ∧ ∃ name, f = .unresolved name ∧ op.judge (.error f) = .ok (.text "undefined") := by
  cases op with
  | typeof =>
    cases f with
    | unresolved name => exact .inr ⟨rfl, name, rfl, rfl⟩
    | _ => exact .inl rfl
  | _ => exact .inl rfl

theorem eval_unary (m : μ) (op : UnaryOp) (a : Term μ) :
    (eval locals (.unary m op a)).run = (eval locals a).run.bind fun o => .done (op.judge o) := by
  rw [eval]
  refine (Dialogue.bind_bind _ _ _).trans (congrArg _ (funext fun o => ?_))
  rcases o with f | v
  · cases op <;> cases f <;> rfl
  · cases op <;> rfl

theorem tour_unary (m : μ) (op : UnaryOp) (a : Term μ) : tour locals (.unary m op a) =
    enter .value (.unary m op a) fun seen => (tour locals a seen).bind fun r => .done (op.judge r.1, r.2) := by
  rw [tour]
  refine congrArg _ (funext fun seen => ?_)
  rw [outcome_apply]
  refine congrArg _ (funext fun r => ?_)
  obtain ⟨f | v, seen'⟩ := r
  · cases op <;> cases f <;> rfl
  · cases op <;> rfl

/-- Unary operators look at the outcome of the operand, and `typeof` catches some. -/
theorem Enters.unary {a : Term μ} (h : Enters locals .value a (tour locals a) (eval locals a)) (m : μ) (op : UnaryOp) :
    Enters locals .value (.unary m op a) (tour locals (.unary m op a)) (eval locals (.unary m op a)) := by
  rw [tour_unary]
  refine enters_enter (fun seen => ?_) (fun o ho _ => Or.inl ⟨o, ho, rfl⟩) fun r hr => ?_
  · rw [eval_unary, ← h.plain seen, bare, bare, Dialogue.bind_bind, Dialogue.bind_bind]
    rfl
  · obtain ⟨⟨o, seen⟩, ho, hr⟩ := Dialogue.may_bind.mp hr
    obtain rfl := Dialogue.may_done.mp hr
    obtain ⟨inner, hseen, horderly⟩ := h.visit [] _ ho
    obtain rfl : seen = [⟨a, o.map .value, inner⟩] := hseen
    -- the one visit in it is to the operand, and the operator may have caught what that failed with
    refine List.forall_mem_singleton.mpr ⟨horderly, List.mem_cons_self, fun f hf => ?_⟩
    cases o with
    | ok v => cases hf
    | error g =>
      cases hf
      rcases judge_error op f with hj | ⟨rfl, name, rfl, hj⟩
      · exact .inl hj
      · exact .inr (.typeof m a name inner)

/-- An expression, as a value and as a target. -/
theorem enters_tour (locals : Locals) (e : Term μ) : Enters locals .value e (tour locals e) (eval locals e) ∧
    Enters locals .path e (tourTarget locals e) (targetPath locals e) := by
  induction e using Term.parts_induction with
  | h e ih =>
    have value {p : Term μ} (hp : p ∈ e.parts) : Tours locals e.parts (tour locals p) (eval locals p) := (ih p hp).1.tours hp
    have target {p : Term μ} (hp : p ∈ e.parts) : Tours locals e.parts (tourTarget locals p) (targetPath locals p) :=
      (ih p hp).2.tours hp
    have notTarget : Tours (α := List String) locals e.parts (throw .notATarget) (throw .notATarget) := tours_throw _
    cases e with
    | name m n =>
      refine ⟨.value (tours_act _), .path ?_⟩
      unfold targetPath
      split
      · exact tours_throw _
      · exact tours_pure _
    | literal m v => exact ⟨.value (tours_pure _), .path notTarget⟩
    | object m es =>
      have hes := tours_entries fun e he => value (List.mem_map_of_mem he)
      exact ⟨.value (hes.bind fun vs => tours_pure _), .path notTarget⟩
    | member m o key =>
      have hmem : o ∈ (Term.member m o key).parts := List.mem_cons_self
      exact ⟨.value ((value hmem).bind fun v => tours_act _), .path ((target hmem).bind fun path => tours_pure _)⟩
    | index m o k =>
      have ho : o ∈ (Term.index m o k).parts := by simp [Term.parts]
      have hk : k ∈ (Term.index m o k).parts := by simp [Term.parts]
      exact ⟨.value ((value ho).bind fun v => (value hk).bind fun key => tours_act _),
        .path ((target ho).bind fun path => (value hk).bind fun key => tours_pure _)⟩
    | unary m op a => exact ⟨(ih a List.mem_cons_self).1.unary m op, .path notTarget⟩
    | update m op before t =>
      have ht : t ∈ (Term.update m op before t).parts := List.mem_cons_self
      exact ⟨.value ((target ht).bind fun path => (tours_act _).bind fun old => (tours_act _).bind fun _ => tours_pure _),
        .path notTarget⟩
    | binary m op l r =>
      have hl : l ∈ (Term.binary m op l r).parts := by simp [Term.parts]
      have hr : r ∈ (Term.binary m op l r).parts := by simp [Term.parts]
      exact ⟨.value ((value hl).bind fun a => (value hr).bind fun b => tours_pure _), .path notTarget⟩
    | logical m op l r =>
      have hl : l ∈ (Term.logical m op l r).parts := by simp [Term.parts]
      have hr : r ∈ (Term.logical m op l r).parts := by simp [Term.parts]
      refine ⟨.value ((value hl).bind fun a => ?_), .path notTarget⟩
      split
      · exact tours_pure a
      · exact value hr
    | conditional m t y n =>
      have ht : t ∈ (Term.conditional m t y n).parts := by simp [Term.parts]
      refine ⟨.value ((value ht).bind fun a => ?_), .path notTarget⟩
      split
      · exact value (by simp [Term.parts])
      · exact value (by simp [Term.parts])
    | assign m op t v =>
      have ht : t ∈ (Term.assign m op t v).parts := by simp [Term.parts]
      have hv : v ∈ (Term.assign m op t v).parts := by simp [Term.parts]
      refine ⟨.value ((target ht).bind fun path => ?_), .path notTarget⟩
      generalize op.binary? = binary
      cases binary with
      | none => exact (value hv).bind fun a => (tours_act _).bind fun _ => tours_pure _
      | some op =>
        exact (tours_act _).bind fun old => (value hv).bind fun a => (tours_pure _).bind fun a =>
          (tours_act _).bind fun _ => tours_pure _
    | sequence m es => exact ⟨.value (tours_last (fun e he => value he) .undefined), .path notTarget⟩

end Eventful.Expr
