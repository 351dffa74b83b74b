import Eventful.Proofs.Expr.Parsing

/-
  Eventful.Proofs.Expr.WellFormed — the listing of a program that was parsed is a
  well-formed tree.

  The program is the last node; every other node is a part of one node, in one place, and
  is numbered before it. Parts are of the right kind and lie in the span of their node, in
  order (`wellFormed_parse`).
-/

namespace Eventful.Expr

/-! ## Well-formed listings -/

def Node.isProgram : Node → Bool
  | .program _ => true
  | _ => false

def Node.isStatement : Node → Bool
  | .statement _ | .empty => true
  | _ => false

def Node.isExpression (n : Node) : Bool := !n.isProgram && !n.isStatement

/-- What an assignment or an update can write to. -/
def Node.isTarget : Node → Bool
  | .name _ | .member .. | .index .. => true
  | _ => false

/-- Whether a node can be a part of the other: statements of programs, and of all others
    expressions. -/
def Node.takes (n part : Node) : Bool := if n.isProgram then part.isStatement else part.isExpression

/-- What is required of the node numbered `i`. -/
structure WellPlaced (size : Nat) (nodes : Listing Span) (i : Nat) (node : Node) (mark : Span) : Prop where
  older : ∀ j ∈ node.parts, j < i
  kinds : ∀ j ∈ node.parts, ∃ part m, nodes[j]? = some (part, m) ∧ node.takes part = true
  target : ∀ j, node.target? = some j → j ∈ node.parts ∧ ∃ part m, nodes[j]? = some (part, m) ∧ part.isTarget = true
  span : mark.start ≤ mark.stop ∧ mark.stop ≤ size
  inside : ∀ j ∈ node.parts, ∀ part m, nodes[j]? = some (part, m) → mark.start ≤ m.start ∧ m.stop ≤ mark.stop
  ordered : node.parts.Pairwise fun j k => ∀ part m part' m',
    nodes[j]? = some (part, m) → nodes[k]? = some (part', m') → m.stop ≤ m'.start

/-- The listing of a tree over a text of `size` bytes. -/
structure WellFormed (size : Nat) (nodes : Listing Span) : Prop where
  /-- The program comes last. -/
  root : ∃ body mark, nodes.getLast? = some (.program body, mark)
  /-- Every node but the program is a part in one place, and the program in none. -/
  owned : ∀ i < nodes.length, slots i nodes = if i + 1 = nodes.length then 0 else 1
  nodes : ∀ i node mark, nodes[i]? = some (node, mark) → WellPlaced size nodes i node mark

/-! ## Parts that are laid out -/

variable {bs : List (Block Span)} {nodes : Listing Span} {start left right size : Nat}

/-- The roots of blocks that are laid out between two offsets. -/
theorem roots_sit (h : ∀ b ∈ bs, b.Proper) (hs : Sits nodes start (listAll start bs))
    (hw : Within left (bs.map (·.mark)) right) :
    ∀ j ∈ numberAll start bs, j < start + countAll bs ∧ ∃ b ∈ bs, ∃ k, nodes[j]? = some (b.node k, b.mark) ∧
      left ≤ b.mark.start ∧ b.mark.stop ≤ right := by
  induction bs generalizing start left with
  | nil => nofun
  | cons b bs ih =>
    rw [List.forall_mem_cons] at h
    rw [listAll, sits_append, h.1.length] at hs
    obtain ⟨hleft, hmark, hw⟩ := hw
    have hpos := h.1.pos
    rw [numberAll, List.forall_mem_cons, countAll]
    refine ⟨⟨by omega, b, List.mem_cons_self, start, h.1.root_sits hs.1, hleft, hw.le⟩, fun j hj => ?_⟩
    obtain ⟨hlt, c, hc, k, hk, hstart, hstop⟩ := ih h.2 hs.2 hw j hj
    exact ⟨by omega, c, List.mem_cons_of_mem _ hc, k, hk, by omega, hstop⟩

theorem roots_ordered (h : ∀ b ∈ bs, b.Proper) (hs : Sits nodes start (listAll start bs))
    (hw : Within left (bs.map (·.mark)) right) :
    (numberAll start bs).Pairwise fun j k => ∀ part m part' m',
      nodes[j]? = some (part, m) → nodes[k]? = some (part', m') → m.stop ≤ m'.start := by
  induction bs generalizing start left with
  | nil => exact List.Pairwise.nil
  | cons b bs ih =>
    rw [List.forall_mem_cons] at h
    rw [listAll, sits_append, h.1.length] at hs
    refine List.Pairwise.cons (fun j hj part m part' m' hm hm' => ?_) (ih h.2 hs.2 hw.2.2)
    obtain ⟨-, c, -, k, hk, hstart, -⟩ := roots_sit h.2 hs.2 hw.2.2 j hj
    rw [h.1.root_sits hs.1] at hm
    rw [hk] at hm'
    cases hm
    cases hm'
    exact hstart

/-- A node whose parts are laid out in its span. -/
theorem WellPlaced.of_parts {node : Node} {mark : Span} (h : ∀ b ∈ bs, b.Proper) (hs : Sits nodes start (listAll start bs))
    (hn : node.parts = numberAll start bs) (hw : Within mark.start (bs.map (·.mark)) mark.stop) (hsize : mark.stop ≤ size)
    (hk : ∀ b ∈ bs, ∀ k, node.takes (b.node k) = true)
    (ht : ∀ j, node.target? = some j → j ∈ node.parts ∧ ∃ part m, nodes[j]? = some (part, m) ∧ part.isTarget = true) :
    WellPlaced size nodes (start + countAll bs) node mark where
  older := hn ▸ fun j hj => (roots_sit h hs hw j hj).1
  kinds := hn ▸ fun j hj => by
    obtain ⟨-, b, hb, k, hat, -⟩ := roots_sit h hs hw j hj
    exact ⟨_, _, hat, hk b hb k⟩
  target := ht
  span := ⟨hw.le, hsize⟩
  inside := hn ▸ fun j hj part m hm => by
    obtain ⟨-, b, hb, k, hat, hstart, hstop⟩ := roots_sit h hs hw j hj
    rw [hat] at hm
    cases hm
    exact ⟨hstart, hstop⟩
  ordered := hn ▸ roots_ordered h hs hw

/-! ## Trees that are laid out -/

theorem Term.isExpression_node (e : Term Span) (k : Nat) : (e.node k).isExpression = true ∧ (e.node k).isProgram = false := by
  cases e <;> exact ⟨rfl, rfl⟩

theorem Term.isTarget_node (e : Term Span) (k : Nat) : (e.node k).isTarget = e.isTarget := by
  cases e <;> rfl

theorem Term.target_node {e : Term Span} {j : Nat} (h : (e.node start).target? = some j) :
    ∃ t rest, e.target? = some t ∧ e.parts = t :: rest ∧ j = start + t.count - 1 := by
  cases e <;> cases h <;> exact ⟨_, _, rfl, rfl, rfl⟩

/-- The `count` nodes from `start` on are placed as is required. -/
def PlacedFrom (size : Nat) (nodes : Listing Span) (start count : Nat) : Prop :=
  ∀ i node mark, start ≤ i → i < start + count → nodes[i]? = some (node, mark) → WellPlaced size nodes i node mark

/-- The nodes of the parts, and the node itself. -/
theorem PlacedFrom.of_parts {node : Node} {mark : Span} (h : ∀ b ∈ bs, b.Proper)
    (hs : Sits nodes start (listAll start bs ++ [(node, mark)]))
    (hp : ∀ b ∈ bs, ∀ k, Sits nodes k (b.listing k) → PlacedFrom size nodes k b.count)
    (hroot : WellPlaced size nodes (start + countAll bs) node mark) :
    PlacedFrom size nodes start (countAll bs + 1) := by
  rw [sits_append, length_listAll h, sits_singleton] at hs
  intro i node' mark' hi hi' hat
  rcases Nat.lt_or_ge i (start + countAll bs) with hlt | hge
  · obtain ⟨b, hb, k, hk, hki, hki'⟩ := sits_cover h hs.1 hi hlt
    exact hp b hb k hk i node' mark' hki hki' hat
  · obtain rfl : i = start + countAll bs := by omega
    rw [hs.2] at hat
    cases hat
    exact hroot

theorem Term.Laid.placed {e : Term Span} (h : e.Laid) (hs : Sits nodes start (e.listing start)) (hsize : e.mark.stop ≤ size) :
    PlacedFrom size nodes start e.count := by
  induction h generalizing start with
  | @mk e hne hw ht hp ih =>
    have hproper : ∀ b ∈ e.parts.map Term.block, b.Proper := List.forall_mem_map.mpr fun p _ => p.proper
    rw [e.listing_eq] at hs
    have hparts := (sits_append.mp hs).1
    rw [e.count_eq]
    refine .of_parts hproper hs ?_ (.of_parts hproper hparts (e.parts_node start) ?_ hsize ?_ ?_)
    · refine List.forall_mem_map.mpr fun p hp k hk => ih p hp hk ?_
      exact Nat.le_trans (hw.mem (List.mem_map_of_mem hp)).2.2 hsize
    · rw [List.map_map]
      exact hw
    · refine List.forall_mem_map.mpr fun p _ k => ?_
      rw [Node.takes, if_neg (by rw [(e.isExpression_node start).2]; nofun)]
      exact (p.isExpression_node k).1
    · intro j hj
      obtain ⟨t, rest, htarget, he, rfl⟩ := Term.target_node hj
      rw [he, List.map_cons, listAll, sits_append] at hparts
      refine ⟨?_, _, _, t.proper.root_sits hparts.1, (t.isTarget_node start).trans (ht t htarget)⟩
      rw [e.parts_node, he, List.map_cons, numberAll]
      exact List.mem_cons_self

theorem Statement.Laid.placed {s : Statement Span} (h : s.Laid) (hs : Sits nodes start (s.listing start))
    (hsize : s.mark.stop ≤ size) : PlacedFrom size nodes start s.count := by
  have hproper : ∀ b ∈ s.parts.map Term.block, b.Proper := List.forall_mem_map.mpr fun p _ => p.proper
  rw [s.listing_eq] at hs
  rw [s.count_eq]
  refine .of_parts hproper hs ?_ (.of_parts hproper (sits_append.mp hs).1 (s.parts_node start) ?_ hsize ?_ ?_)
  · refine List.forall_mem_map.mpr fun p hp k hk => (h.parts p hp).placed hk ?_
    exact Nat.le_trans (h.within.mem (List.mem_map_of_mem hp)).2.2 hsize
  · rw [List.map_map]
    exact h.within
  · refine List.forall_mem_map.mpr fun p _ k => ?_
    cases s <;> exact (p.isExpression_node k).1
  · intro j hj
    cases s <;> cases hj

/-! ## Programs -/

theorem Program.Laid.wellFormed {p : Program Span} (h : p.Laid size) : WellFormed size p.listing := by
  have hproper : ∀ b ∈ p.body.map Statement.block, b.Proper := List.forall_mem_map.mpr fun s _ => s.proper
  have hs := sits_self p.listing
  rw [p.listing_eq] at hs ⊢
  have hlen := length_listAll hproper 0
  refine ⟨⟨_, _, List.getLast?_concat⟩, fun i hi => ?_, fun i node mark hat => ?_⟩
  · have hslots := slots_listAll hproper 0 i
    have hroot : slots i [(Node.program (numberAll 0 (p.body.map Statement.block)), p.mark)] =
        (numberAll 0 (p.body.map Statement.block)).count i := by simp [slots, Node.parts]
    rw [slots_append, hroot, hslots]
    rw [List.length_append, List.length_singleton, hlen] at hi ⊢
    split <;> split <;> omega
  · have hwithin : Within p.mark.start ((p.body.map Statement.block).map (·.mark)) p.mark.stop := by
      rw [List.map_map]
      exact h.within
    refine PlacedFrom.of_parts hproper hs ?_ (.of_parts hproper (sits_append.mp hs).1 rfl hwithin h.stop ?_ ?_) i node mark
      (Nat.zero_le _) ?_ hat
    · refine List.forall_mem_map.mpr fun s hmem k hk => (h.parts s hmem).placed hk ?_
      exact Nat.le_trans (h.within.mem (List.mem_map_of_mem hmem)).2.2 h.stop
    · refine List.forall_mem_map.mpr fun s _ k => ?_
      cases s <;> rfl
    · intro j hj
      cases hj
    · have hlt := (List.getElem?_eq_some_iff.mp hat).choose
      rw [List.length_append, List.length_singleton, hlen] at hlt
      omega

/-- The listing of a program that was parsed is a well-formed tree over its source text. -/
theorem wellFormed_parse {source : String} {p : Program Span} (h : parse source = .ok p) :
    WellFormed (bytes source.toList) p.listing :=
  (laid_parse h).wellFormed

theorem wellFormed_parse_assignment :
    ∃ p, parse "a.b = (c, d)" = .ok p ∧ WellFormed (bytes "a.b = (c, d)".toList) p.listing :=
  ⟨_, rfl, wellFormed_parse rfl⟩

end Eventful.Expr
