import Eventful.Expr.Listing

/-
  Eventful.Proofs.Expr.Numbering — how a tree stands in a listing.

  Expressions, statements and programs are all listed in one way: the parts of a node
  first, from left to right, then the node with the numbers of its parts (`Term.listing_eq`,
  `Statement.listing_eq`, `Program.listing_eq`). What is true of such a listing is shown for
  a node from its parts: its length, and that of the numbers it takes up every one but the
  last stands in one place of one node (`slots_node`).
-/

namespace Eventful.Expr

variable {μ : Type} {e : Term μ} {s : Statement μ} {start : Nat}

/-! ## Parts -/

/-- The parts of an expression, from left to right. -/
def Term.parts : Term μ → List (Term μ)
  | .name .. | .literal .. => []
  | .object _ es => es.map (·.2)
  | .member _ o _ => [o]
  | .index _ o k => [o, k]
  | .unary _ _ a => [a]
  | .update _ _ _ t => [t]
  | .binary _ _ l r => [l, r]
  | .logical _ _ l r => [l, r]
  | .conditional _ t y n => [t, y, n]
  | .assign _ _ t v => [t, v]
  | .sequence _ es => es

/-- What an expression writes to, if it writes. -/
def Term.target? : Term μ → Option (Term μ)
  | .update _ _ _ t => some t
  | .assign _ _ t _ => some t
  | _ => none

/-- The expressions of a statement. -/
def Statement.parts : Statement μ → List (Term μ)
  | .expression _ e => [e]
  | .empty _ => []

def Statement.mark : Statement μ → μ
  | .expression m _ => m
  | .empty m => m

/-- The numbers of the parts of a node, from left to right. -/
def Node.parts : Node → List Nat
  | .program body => body
  | .statement e => [e]
  | .empty | .name _ | .literal _ => []
  | .object es => es.map (·.2)
  | .member o _ => [o]
  | .index o k => [o, k]
  | .unary _ a => [a]
  | .update _ _ t => [t]
  | .binary _ l r => [l, r]
  | .logical _ l r => [l, r]
  | .conditional t y n => [t, y, n]
  | .assign _ t v => [t, v]
  | .sequence es => es

/-- The number of what a node writes to, if it writes. -/
def Node.target? : Node → Option Nat
  | .update _ _ t => some t
  | .assign _ t _ => some t
  | _ => none

/-- The node of an expression whose first node is numbered `start`. -/
def Term.node (start : Nat) : Term μ → Node
  | .name _ s => .name s
  | .literal _ v => .literal v
  | .object _ es => .object (numberEntries start es)
  | .member _ o k => .member (o.number start) k
  | .index _ o k => .index (o.number start) (k.number (start + o.count))
  | .unary _ op a => .unary op (a.number start)
  | .update _ op b t => .update op b (t.number start)
  | .binary _ op l r => .binary op (l.number start) (r.number (start + l.count))
  | .logical _ op l r => .logical op (l.number start) (r.number (start + l.count))
  | .conditional _ t y n =>
    .conditional (t.number start) (y.number (start + t.count)) (n.number (start + t.count + y.count))
  | .assign _ op t v => .assign op (t.number start) (v.number (start + t.count))
  | .sequence _ es => .sequence (numberItems start es)

/-- The node of a statement whose first node is numbered `start`. -/
def Statement.node (start : Nat) : Statement μ → Node
  | .expression _ e => .statement (e.number start)
  | .empty _ => .empty

/-! ## Blocks -/

/-- Nodes numbered on from wherever they start, the last of them the root. -/
structure Block (μ : Type) where
  count : Nat
  listing : Nat → Listing μ
  node : Nat → Node
  mark : μ

def Term.block (e : Term μ) : Block μ := ⟨e.count, fun start => e.listing start, fun start => e.node start, e.mark⟩

def Statement.block (s : Statement μ) : Block μ :=
  ⟨s.count, fun start => s.listing start, fun start => s.node start, s.mark⟩

/-- The nodes of blocks one after the other. -/
def listAll (start : Nat) : List (Block μ) → Listing μ
  | [] => []
  | b :: bs => b.listing start ++ listAll (start + b.count) bs

/-- The numbers of the roots of blocks one after the other. -/
def numberAll (start : Nat) : List (Block μ) → List Nat
  | [] => []
  | b :: bs => (start + b.count - 1) :: numberAll (start + b.count) bs

/-- How many nodes blocks have. -/
def countAll : List (Block μ) → Nat
  | [] => 0
  | b :: bs => b.count + countAll bs

theorem listItems_eq (es : List (Term μ)) : listItems start es = listAll start (es.map Term.block) := by
  induction es generalizing start with
  | nil => rfl
  | cons e es ih => rw [listItems, ih]; rfl

theorem listEntries_eq (es : List (String × Term μ)) :
    listEntries start es = listAll start ((es.map (·.2)).map Term.block) := by
  induction es generalizing start with
  | nil => rfl
  | cons e es ih => rw [listEntries, ih]; rfl

theorem numberItems_eq (es : List (Term μ)) : numberItems start es = numberAll start (es.map Term.block) := by
  induction es generalizing start with
  | nil => rfl
  | cons e es ih => rw [numberItems, ih]; rfl

theorem numberEntries_eq (es : List (String × Term μ)) :
    (numberEntries start es).map (·.2) = numberAll start ((es.map (·.2)).map Term.block) := by
  induction es generalizing start with
  | nil => rfl
  | cons e es ih => rw [numberEntries, List.map_cons, ih]; rfl

theorem countItems_eq (es : List (Term μ)) : countItems es = countAll (es.map Term.block) := by
  induction es with
  | nil => rfl
  | cons e es ih => rw [countItems, ih]; rfl

theorem countEntries_eq (es : List (String × Term μ)) : countEntries es = countAll ((es.map (·.2)).map Term.block) := by
  induction es with
  | nil => rfl
  | cons e es ih => rw [countEntries, ih]; rfl

theorem listStatements_eq (ss : List (Statement μ)) : listStatements start ss = listAll start (ss.map Statement.block) := by
  induction ss generalizing start with
  | nil => rfl
  | cons s ss ih => rw [listStatements, ih]; rfl

theorem numberStatements_eq (ss : List (Statement μ)) :
    numberStatements start ss = numberAll start (ss.map Statement.block) := by
  induction ss generalizing start with
  | nil => rfl
  | cons s ss ih => rw [numberStatements, ih]; rfl

/-! ## Trees as blocks -/

theorem Term.listing_eq (e : Term μ) (start : Nat) :
    e.listing start = listAll start (e.parts.map Term.block) ++ [(e.node start, e.mark)] := by
  cases e <;> simp [Term.listing, Term.parts, Term.node, Term.mark, listAll, Term.block, listItems_eq, listEntries_eq]

theorem Term.count_eq (e : Term μ) : e.count = countAll (e.parts.map Term.block) + 1 := by
  cases e <;> simp [Term.count, Term.parts, countAll, Term.block, countItems_eq, countEntries_eq, Nat.add_assoc]

theorem Term.parts_node (e : Term μ) (start : Nat) : (e.node start).parts = numberAll start (e.parts.map Term.block) := by
  cases e <;>
    simp [Node.parts, Term.parts, Term.node, numberAll, Term.block, Term.number, numberItems_eq, numberEntries_eq]

theorem Statement.listing_eq (s : Statement μ) (start : Nat) :
    s.listing start = listAll start (s.parts.map Term.block) ++ [(s.node start, s.mark)] := by
  cases s <;> simp [Statement.listing, Statement.parts, Statement.node, Statement.mark, listAll, Term.block]

theorem Statement.count_eq (s : Statement μ) : s.count = countAll (s.parts.map Term.block) + 1 := by
  cases s <;> simp [Statement.count, Statement.parts, countAll, Term.block]

theorem Statement.parts_node (s : Statement μ) (start : Nat) :
    (s.node start).parts = numberAll start (s.parts.map Term.block) := by
  cases s <;> simp [Node.parts, Statement.parts, Statement.node, numberAll, Term.block, Term.number]

theorem Program.listing_eq (p : Program μ) :
    p.listing = listAll 0 (p.body.map Statement.block) ++
      [(.program (numberAll 0 (p.body.map Statement.block)), p.mark)] := by
  rw [Program.listing, listStatements_eq, numberStatements_eq]

theorem Term.count_pos (e : Term μ) : 0 < e.count := by
  rw [e.count_eq]
  exact Nat.succ_pos _

theorem countAll_mem {b : Block μ} {bs : List (Block μ)} (h : b ∈ bs) : b.count ≤ countAll bs := by
  induction bs with
  | nil => cases h
  | cons c bs ih =>
    rcases List.mem_cons.mp h with rfl | h
    · exact Nat.le_add_right _ _
    · exact Nat.le_trans (ih h) (Nat.le_add_left _ _)

theorem Term.count_parts {p : Term μ} (h : p ∈ e.parts) : p.count < e.count := by
  rw [e.count_eq]
  exact Nat.lt_succ_of_le (countAll_mem (List.mem_map_of_mem h : p.block ∈ _))

/-- What holds of an expression if it holds of its parts holds of all. -/
theorem Term.parts_induction {P : Term μ → Prop} (h : ∀ e, (∀ p ∈ e.parts, P p) → P e) (e : Term μ) : P e := by
  induction hn : e.count using Nat.strongRecOn generalizing e with
  | _ n ih =>
    subst hn
    exact h e fun p hp => ih p.count (Term.count_parts hp) p rfl

/-! ## Numbers and places -/

/-- How often a number stands among the parts of nodes. -/
def slots (i : Nat) (nodes : Listing μ) : Nat := (nodes.flatMap (·.1.parts)).count i

@[simp] theorem slots_append (i : Nat) (xs ys : Listing μ) : slots i (xs ++ ys) = slots i xs + slots i ys := by
  simp [slots]

/-- Its root comes last among the nodes that it says it has, and its numbers but the last
    stand in one place each, and no other number does. -/
structure Block.Proper (b : Block μ) : Prop where
  root (start : Nat) : ∃ before, b.listing start = before ++ [(b.node start, b.mark)] ∧ before.length + 1 = b.count
  slots (start i : Nat) : slots i (b.listing start) = if start ≤ i ∧ i + 1 < start + b.count then 1 else 0

theorem Block.Proper.length {b : Block μ} (h : b.Proper) (start : Nat) : (b.listing start).length = b.count := by
  obtain ⟨before, he, hl⟩ := h.root start
  rw [he, ← hl, List.length_append, List.length_singleton]

theorem Block.Proper.pos {b : Block μ} (h : b.Proper) : 0 < b.count := by
  obtain ⟨before, -, hl⟩ := h.root 0
  exact hl ▸ Nat.succ_pos _

variable {bs : List (Block μ)}

theorem length_listAll (h : ∀ b ∈ bs, b.Proper) (start : Nat) : (listAll start bs).length = countAll bs := by
  induction bs generalizing start with
  | nil => rfl
  | cons b bs ih =>
    rw [List.forall_mem_cons] at h
    rw [listAll, List.length_append, h.1.length, ih h.2, countAll]

/-- With the roots, every number stands in one place. -/
theorem slots_listAll (h : ∀ b ∈ bs, b.Proper) (start i : Nat) :
    slots i (listAll start bs) + (numberAll start bs).count i =
      if start ≤ i ∧ i < start + countAll bs then 1 else 0 := by
  induction bs generalizing start with
  | nil =>
    rw [if_neg (by simp [countAll])]
    rfl
  | cons b bs ih =>
    rw [List.forall_mem_cons] at h
    have hb := h.1.slots start i
    have hpos := h.1.pos
    have hbs := ih h.2 (start + b.count)
    rw [listAll, slots_append, numberAll, List.count_cons, countAll, hb]
    split at hbs <;> simp only [beq_iff_eq] <;> split <;> split <;> split <;> omega

/-- A root with its blocks before it is a block. -/
theorem Block.Proper.of_parts {b : Block μ} (h : ∀ p ∈ bs, p.Proper)
    (hl : ∀ start, b.listing start = listAll start bs ++ [(b.node start, b.mark)]) (hc : b.count = countAll bs + 1)
    (hn : ∀ start, (b.node start).parts = numberAll start bs) : b.Proper where
  root start := ⟨_, hl start, by rw [length_listAll h, hc]⟩
  slots start i := by
    have hroot : Expr.slots i [(b.node start, b.mark)] = (numberAll start bs).count i := by simp [Expr.slots, hn]
    rw [hl, slots_append, hroot, slots_listAll h start i, hc]
    simp only [Nat.add_lt_add_iff_right, ← Nat.add_assoc]

theorem Term.proper (e : Term μ) : e.block.Proper := by
  induction e using Term.parts_induction with
  | h e ih => exact .of_parts (List.forall_mem_map.mpr ih) e.listing_eq e.count_eq e.parts_node

@[simp] theorem Term.length_listing (e : Term μ) (start : Nat) : (e.listing start).length = e.count := e.proper.length start

theorem Statement.proper (s : Statement μ) : s.block.Proper :=
  .of_parts (List.forall_mem_map.mpr fun e _ => e.proper) s.listing_eq s.count_eq s.parts_node

@[simp] theorem Statement.length_listing (s : Statement μ) (start : Nat) : (s.listing start).length = s.count :=
  s.proper.length start

/-! ## Standing in a listing -/

/-- The nodes stand in the listing from a number on. -/
def Sits (nodes : Listing μ) (start : Nat) (part : Listing μ) : Prop := part <+: nodes.drop start

variable {nodes xs ys : Listing μ} {x : Node × μ}

theorem sits_append : Sits nodes start (xs ++ ys) ↔ Sits nodes start xs ∧ Sits nodes (start + xs.length) ys := by
  unfold Sits
  rw [← List.drop_drop]
  constructor
  · rintro ⟨after, h⟩
    rw [← h, List.append_assoc, List.drop_left]
    exact ⟨List.prefix_append _ _, List.prefix_append _ _⟩
  · rintro ⟨⟨after, h⟩, h'⟩
    rw [← h, List.drop_left] at h'
    rw [← h]
    exact (List.prefix_append_right_inj _).mpr h'

theorem sits_singleton : Sits nodes start [x] ↔ nodes[start]? = some x := by
  unfold Sits
  rw [← List.head?_drop]
  cases nodes.drop start with
  | nil => simp
  | cons y ys => simp [List.cons_prefix_cons, eq_comm]

theorem sits_self (nodes : Listing μ) : Sits nodes 0 nodes := List.prefix_refl _

/-- The root of a block that stands in a listing. -/
theorem Block.Proper.root_sits {b : Block μ} (h : b.Proper) (hs : Sits nodes start (b.listing start)) :
    nodes[start + b.count - 1]? = some (b.node start, b.mark) := by
  obtain ⟨before, he, hl⟩ := h.root start
  rw [he, sits_append, sits_singleton] at hs
  rw [← hl]
  exact hs.2

/-- Every number taken up by blocks belongs to one of them. -/
theorem sits_cover (h : ∀ b ∈ bs, b.Proper) (hs : Sits nodes start (listAll start bs)) {i : Nat} (hi : start ≤ i)
    (hi' : i < start + countAll bs) :
    ∃ b ∈ bs, ∃ k, Sits nodes k (b.listing k) ∧ k ≤ i ∧ i < k + b.count := by
  induction bs generalizing start with
  | nil => exact absurd hi' (by rw [countAll]; omega)
  | cons b bs ih =>
    rw [List.forall_mem_cons] at h
    rw [listAll, sits_append, h.1.length] at hs
    rcases Nat.lt_or_ge i (start + b.count) with hlt | hge
    · exact ⟨b, List.mem_cons_self, start, hs.1, hi, hlt⟩
    · rw [countAll, ← Nat.add_assoc] at hi'
      obtain ⟨c, hc, hk⟩ := ih h.2 hs.2 hge hi'
      exact ⟨c, List.mem_cons_of_mem _ hc, hk⟩

end Eventful.Expr
