import Eventful.Expr.Cache
import Eventful.Proofs.Expr.Dealing
import Eventful.Proofs.Expr.Parsing

/-
  Eventful.Proofs.Expr.Walking — evaluation over numbered nodes.

  A program can also be evaluated from its listing, a node reaching its parts by number.
  Such a walk could go astray: a number with no node behind it, a statement where an
  expression is wanted, a node that leads back to itself. Each is an internal fault here.

  - `walk_listing`: the walk over the listing of a program comes to what the program comes
    to, in at most as many steps down as there are nodes.
  - `evaluate_walks`: so does a walk for any source text, and no internal fault is met.
-/

namespace Eventful.Expr

variable {α β μ σ : Type}

/-! ## Walks -/

/-- There is no node of this number. -/
def noNode (i : Nat) : Fault := .reported .internal ("invalid AST node " ++ toString i)

/-- A node that is no expression stands where one is wanted. -/
def misplaced : Fault := .reported .internal "statement in expression position"

/-- The steps are used up. -/
def endless : Fault := .reported .internal "walk without end"

/-- The values of entries in order. -/
def walkEntries (value : Nat → Eval Value) : List (String × Nat) → Eval (List (String × Value))
  | [] => return []
  | (key, i) :: es => do
    let v ← value i
    return (key, v) :: (← walkEntries value es)

/-- The value of the last node. -/
def walkLast (value : Nat → Eval Value) (last : Value) : List Nat → Eval Value
  | [] => return last
  | i :: is => do walkLast value (← value i) is

/-- The value of a node, by the values of numbered nodes and the paths they are as targets. -/
def Node.eval (locals : Locals) (value : Nat → Eval Value) (path : Nat → Eval (List String)) : Node → Eval Value
  | .name n => lookup locals n
  | .literal v => return v.value
  | .object es => do return Value.ofPairs (← walkEntries value es)
  | .member o key => do readMember (← value o) key
  | .index o k => do
    let holder ← value o
    let key ← value k
    readMember holder key.toText
  | .unary op arg => do
    let outcome : Outcome ← ExceptT.lift (value arg).run
    match op, outcome with
    | .typeof, .error (.unresolved _) => return UnaryOp.typeof.apply .undefined
    | _, .error f => throw f
    | op, .ok v => return op.apply v
  | .update op before target => do
    let path ← path target
    let old := (← readPath path).toNumber
    let new := op.apply old
    tell path (.number new)
    return .number (if before then new else old)
  | .binary op l r => do
    let a ← value l
    let b ← value r
    return op.apply a b
  | .logical op l r => do
    let a ← value l
    if op.settles a then return a else value r
  | .conditional test yes no => do
    if (← value test).isTruthy then value yes else value no
  | .assign op target e => do
    let path ← path target
    let v ← match op.binary? with
      | none => value e
      | some op => do
        let old ← readPath path
        let rhs ← value e
        pure (op.apply old rhs)
    tell path v
    return v
  | .sequence es => walkLast value .undefined es
  | .program _ | .statement _ | .empty => throw misplaced

/-- The path of a node that is an assignment or update target. -/
def Node.targetPath (locals : Locals) (value : Nat → Eval Value) (path : Nat → Eval (List String)) :
    Node → Eval (List String)
  | .name n => if (locals.get? n).isSome then throw (.constantName n) else return [n]
  | .member o key => return (← path o) ++ [key]
  | .index o k => do
    let path ← path o
    let key ← value k
    return path ++ [key.toText]
  | _ => throw .notATarget

mutual

/-- The value of the node numbered `i`, at most `steps` steps down. -/
def valueAt (nodes : Listing μ) (locals : Locals) : Nat → Nat → Eval Value
  | 0, _ => throw endless
  | steps + 1, i =>
    match nodes[i]? with
    | none => throw (noNode i)
    | some (node, _) => node.eval locals (valueAt nodes locals steps) (pathAt nodes locals steps)

/-- The path that the node numbered `i` is as a target. -/
def pathAt (nodes : Listing μ) (locals : Locals) : Nat → Nat → Eval (List String)
  | 0, _ => throw endless
  | steps + 1, i =>
    match nodes[i]? with
    | none => throw (noNode i)
    | some (node, _) => node.targetPath locals (valueAt nodes locals steps) (pathAt nodes locals steps)

end

/-- The value of the last expression statement. -/
def walkStatements (nodes : Listing μ) (value : Nat → Eval Value) (last : Value) : List Nat → Eval Value
  | [] => return last
  | i :: is =>
    match nodes[i]? with
    | none => throw (noNode i)
    | some (.statement e, _) => do walkStatements nodes value (← value e) is
    | some _ => walkStatements nodes value last is

/-- What a listing comes to, from its last node on. -/
def walk (nodes : Listing μ) (locals : Locals) (steps : Nat) : Eval Value :=
  match nodes.getLast? with
  | none => return .undefined
  | some (.program body, _) => walkStatements nodes (valueAt nodes locals steps) .undefined body
  | some _ => valueAt nodes locals steps (nodes.length - 1)

/-- The evaluation of a source text as a walk over the nodes of its program. -/
def Cache.walk (c : Cache) (source : String) (locals : Locals) : Dialogue Outcome :=
  match (c.compile source).1 with
  | .ok p => (Expr.walk p.listing locals p.listing.length).run
  | .error f => .done (.error f)

/-! ## Walks over trees -/

variable {nodes : Listing μ} {locals : Locals} {start steps : Nat}

/-- The walk finds the value and the path of a tree by the number of its root. -/
def Walks (nodes : Listing μ) (locals : Locals) (e : Term μ) : Prop :=
  ∀ start steps, Sits nodes start (e.listing start) → e.count ≤ steps →
    valueAt nodes locals steps (e.number start) = eval locals e ∧
      pathAt nodes locals steps (e.number start) = targetPath locals e

theorem walkEntries_eq {es : List (String × Term μ)} (h : ∀ e ∈ es, Walks nodes locals e.2)
    (hs : Sits nodes start (listEntries start es)) (hc : countEntries es ≤ steps) :
    walkEntries (valueAt nodes locals steps) (numberEntries start es) = evalEntries locals es := by
  induction es generalizing start with
  | nil => rfl
  | cons e es ih =>
    rw [List.forall_mem_cons] at h
    rw [listEntries, sits_append, e.2.length_listing] at hs
    rw [countEntries] at hc
    rw [numberEntries, walkEntries, evalEntries, (h.1 _ _ hs.1 (by omega)).1]
    exact congrArg _ (funext fun v => by rw [ih h.2 hs.2 (by omega)])

theorem walkLast_eq {es : List (Term μ)} (h : ∀ e ∈ es, Walks nodes locals e) (hs : Sits nodes start (listItems start es))
    (hc : countItems es ≤ steps) (last : Value) :
    walkLast (valueAt nodes locals steps) last (numberItems start es) = evalLast locals last es := by
  induction es generalizing start last with
  | nil => rfl
  | cons e es ih =>
    rw [List.forall_mem_cons] at h
    rw [listItems, sits_append, e.length_listing] at hs
    rw [countItems] at hc
    rw [numberItems, walkLast, evalLast, (h.1 _ _ hs.1 (by omega)).1]
    exact congrArg _ (funext fun v => ih h.2 hs.2 (by omega) v)

theorem walks (nodes : Listing μ) (locals : Locals) (e : Term μ) : Walks nodes locals e := by
  induction e using Term.parts_induction with
  | h e ih =>
    intro start steps hs hc
    obtain ⟨steps, rfl⟩ : ∃ n, steps = n + 1 := ⟨steps - 1, by have := e.count_pos; omega⟩
    have hroot : nodes[e.number start]? = some (e.node start, e.mark) := e.proper.root_sits hs
    have hvalue : valueAt nodes locals (steps + 1) (e.number start) =
        (e.node start).eval locals (valueAt nodes locals steps) (pathAt nodes locals steps) := by
      rw [valueAt, hroot]
    have hpath : pathAt nodes locals (steps + 1) (e.number start) =
        (e.node start).targetPath locals (valueAt nodes locals steps) (pathAt nodes locals steps) := by
      rw [pathAt, hroot]
    rw [hvalue, hpath]
    have hlt {p : Term μ} (hp : p ∈ e.parts) : p.count ≤ steps := by
      have := Term.count_parts hp
      omega
    cases e with
    | name m n => exact ⟨rfl, rfl⟩
    | literal m v => exact ⟨rfl, rfl⟩
    | object m es =>
      have hes := walkEntries_eq (fun p hp => ih p.2 (List.mem_map_of_mem hp)) (sits_append.mp hs).1
        (Nat.le_of_succ_le_succ hc)
      exact ⟨by simp only [Term.node, Node.eval, eval, hes], rfl⟩
    | member m o key =>
      obtain ⟨hv, hp⟩ := ih o List.mem_cons_self start steps (sits_append.mp hs).1 (hlt List.mem_cons_self)
      exact ⟨by simp only [Term.node, Node.eval, eval, hv], by simp only [Term.node, Node.targetPath, targetPath, hp]⟩
    | index m o k =>
      simp only [Term.listing, sits_append, Term.length_listing] at hs
      obtain ⟨hv, hp⟩ := ih o (by simp [Term.parts]) start steps hs.1.1 (hlt (by simp [Term.parts]))
      obtain ⟨hk, -⟩ := ih k (by simp [Term.parts]) _ steps hs.1.2 (hlt (by simp [Term.parts]))
      exact ⟨by simp only [Term.node, Node.eval, eval, hv, hk],
        by simp only [Term.node, Node.targetPath, targetPath, hp, hk]⟩
    | unary m op a =>
      obtain ⟨hv, -⟩ := ih a List.mem_cons_self start steps (sits_append.mp hs).1 (hlt List.mem_cons_self)
      exact ⟨by rw [Term.node, Node.eval, hv]; rfl, rfl⟩
    | update m op before t =>
      obtain ⟨-, hp⟩ := ih t List.mem_cons_self start steps (sits_append.mp hs).1 (hlt List.mem_cons_self)
      exact ⟨by simp only [Term.node, Node.eval, eval, hp], rfl⟩
    | binary m op l r =>
      simp only [Term.listing, sits_append, Term.length_listing] at hs
      obtain ⟨hl, -⟩ := ih l (by simp [Term.parts]) start steps hs.1.1 (hlt (by simp [Term.parts]))
      obtain ⟨hr, -⟩ := ih r (by simp [Term.parts]) _ steps hs.1.2 (hlt (by simp [Term.parts]))
      exact ⟨by simp only [Term.node, Node.eval, eval, hl, hr], rfl⟩
    | logical m op l r =>
      simp only [Term.listing, sits_append, Term.length_listing] at hs
      obtain ⟨hl, -⟩ := ih l (by simp [Term.parts]) start steps hs.1.1 (hlt (by simp [Term.parts]))
      obtain ⟨hr, -⟩ := ih r (by simp [Term.parts]) _ steps hs.1.2 (hlt (by simp [Term.parts]))
      exact ⟨by simp only [Term.node, Node.eval, eval, hl, hr], rfl⟩
    | conditional m t y n =>
      simp only [Term.listing, sits_append, Term.length_listing, List.length_append, ← Nat.add_assoc] at hs
      obtain ⟨ht, -⟩ := ih t (by simp [Term.parts]) start steps hs.1.1.1 (hlt (by simp [Term.parts]))
      obtain ⟨hy, -⟩ := ih y (by simp [Term.parts]) _ steps hs.1.1.2 (hlt (by simp [Term.parts]))
      obtain ⟨hn, -⟩ := ih n (by simp [Term.parts]) _ steps hs.1.2 (hlt (by simp [Term.parts]))
      exact ⟨by simp only [Term.node, Node.eval, eval, ht, hy, hn], rfl⟩
    | assign m op t v =>
      simp only [Term.listing, sits_append, Term.length_listing] at hs
      obtain ⟨-, ht⟩ := ih t (by simp [Term.parts]) start steps hs.1.1 (hlt (by simp [Term.parts]))
      obtain ⟨hv, -⟩ := ih v (by simp [Term.parts]) _ steps hs.1.2 (hlt (by simp [Term.parts]))
      exact ⟨by simp only [Term.node, Node.eval, ht, hv]; rfl, rfl⟩
    | sequence m es =>
      have hes := walkLast_eq ih (sits_append.mp hs).1 (Nat.le_of_succ_le_succ hc) .undefined
      exact ⟨by simp only [Term.node, Node.eval, eval]; exact hes, rfl⟩

theorem walkStatements_eq {ss : List (Statement μ)} (hs : Sits nodes start (listStatements start ss))
    (hc : countAll (ss.map Statement.block) ≤ steps) (last : Value) :
    walkStatements nodes (valueAt nodes locals steps) last (numberStatements start ss) = evalStatements locals last ss := by
  induction ss generalizing start last with
  | nil => rfl
  | cons s ss ih =>
    rw [listStatements, sits_append, s.length_listing] at hs
    have hroot : nodes[start + s.count - 1]? = some (s.node start, s.mark) := s.proper.root_sits hs.1
    have hcount : s.count + countAll (ss.map Statement.block) ≤ steps := hc
    rw [numberStatements, walkStatements, hroot]
    cases s with
    | empty m => exact ih hs.2 (Nat.le_trans (Nat.le_add_left _ _) hcount) last
    | expression m e =>
      have he := (walks nodes locals e start steps (sits_append.mp hs.1).1 (by rw [Statement.count] at hcount; omega)).1
      simp only [Statement.node, evalStatements, he]
      exact congrArg _ (funext fun v => ih hs.2 (Nat.le_trans (Nat.le_add_left _ _) hcount) v)

/-- The walk over the listing of a program comes to what the program comes to. -/
theorem walk_listing (p : Program μ) (locals : Locals) (steps : Nat) (hc : p.listing.length ≤ steps) :
    (walk p.listing locals steps).run = p.eval locals := by
  have hproper : ∀ b ∈ p.body.map Statement.block, b.Proper := List.forall_mem_map.mpr fun s _ => s.proper
  have hlast : p.listing.getLast? = some (.program (numberStatements 0 p.body), p.mark) := List.getLast?_concat
  have hcount : countAll (p.body.map Statement.block) ≤ steps := by
    rw [p.listing_eq, List.length_append, length_listAll hproper] at hc
    exact Nat.le_trans (Nat.le_add_right _ _) hc
  rw [walk, hlast]
  exact congrArg _ (walkStatements_eq (sits_append.mp (sits_self p.listing)).1 hcount .undefined)

/-! ## Faults -/

/-- Whatever a dialogue comes to, `P` holds of it. -/
def Dialogue.Comes (P : α → Prop) : Dialogue α → Prop
  | .done a => P a
  | .ask _ k => ∀ v, (k v).Comes P
  | .tell _ _ k => ∀ r, (k r).Comes P

theorem Dialogue.Deals.comes {A : String → Prop} {P Q : α → Prop} {d : Dialogue α} (h : d.Deals A P) (hP : ∀ a, P a → Q a) :
    d.Comes Q := by
  induction d with
  | done a => exact hP a h
  | ask name k ih => exact fun v => ih v (h.2 v)
  | tell path value k ih => exact fun r => ih r (h.2 r)

theorem Dialogue.Comes.runOn {P : α → Prop} {d : Dialogue α} (h : d.Comes P) (s : Scope σ) : P (d.runOn s).1 := by
  induction d generalizing s with
  | done a => exact h
  | ask name k ih => exact ih _ (h _) s
  | tell path value k ih =>
    rw [Dialogue.runOn]
    split
    · exact ih _ (h _) s
    · exact ih _ (h _) _

/-- An evaluation has no faults but those of data. -/
def Sound (m : Eval α) : Prop := m.run.Comes fun o => ∀ f, o = .error f → OfData f

theorem sound_statements (locals : Locals) (ss : List (Statement μ)) (last : Value) :
    Sound (evalStatements locals last ss) := (heeds_statements locals ss last).comes fun _ ho => ho.1

/-- What an evaluation comes to: a value, or a fault that is not internal; and where the
    source text is at fault, its depth is not. -/
def Total : Outcome → Prop
  | .ok _ => True
  | .error f => f.kind ≠ .internal ∧ ∀ e, f = .malformed e → e.fault ≠ .tooDeep

theorem total_ofData {f : Fault} (h : OfData f) : Total (.error f) := by
  cases f with
  | malformed e => exact h.elim
  | reported kind text => exact h.elim
  | _ => exact ⟨by simp [Fault.kind], by simp⟩

theorem total_evaluate (c : Cache) (source : String) (locals : Locals) (scope : Scope σ) :
    Total ((c.evaluate source locals).1.runOn scope).1 := by
  unfold Cache.evaluate
  split
  · rename_i p c' hp
    have hs := (sound_statements locals p.body .undefined).runOn scope
    change ∀ f, ((p.eval locals).runOn scope).1 = .error f → OfData f at hs
    show Total ((p.eval locals).runOn scope).1
    generalize ((p.eval locals).runOn scope).1 = o at hs
    cases o with
    | ok v => trivial
    | error f =>
      exact total_ofData (hs f rfl)
  · rename_i f c' hf
    unfold Cache.compile at hf
    split at hf
    · cases hf
    · split at hf
      · cases hf
      · rename_i e he
        cases hf
        have hdeep := parse_deep he
        show Total (.error (.malformed e))
        exact ⟨nofun, fun e' h => (Fault.malformed.inj h) ▸ hdeep⟩

/-- An evaluation is a walk over the nodes of the program of its source text that never
    goes astray. -/
theorem evaluate_walks (c : Cache) (source : String) (locals : Locals) (scope : Scope σ) :
    c.walk source locals = (c.evaluate source locals).1 ∧ Total ((c.walk source locals).runOn scope).1 := by
  have heq : c.walk source locals = (c.evaluate source locals).1 := by
    unfold Cache.walk Cache.evaluate
    split
    · rename_i p hp
      rw [walk_listing p locals _ (Nat.le_refl _)]
      split <;> rename_i h <;> rw [h] at hp <;> cases hp
      rfl
    · rename_i f hf
      split <;> rename_i h <;> rw [h] at hf <;> cases hf
      rfl
  exact ⟨heq, heq ▸ total_evaluate c source locals scope⟩

end Eventful.Expr
