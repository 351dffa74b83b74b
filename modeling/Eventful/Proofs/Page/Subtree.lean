import Eventful.Proofs.Page.Way

/-
  Eventful.Proofs.Page.Subtree — what lies under a node, parents first.

  In a sound tree the depth of a walk downward never cuts it off: a subtree is its node and
  then the subtrees of its children (`Sound.subtree_eq`). Whoever has the node among its
  ancestors is in it, once (`Sound.mem_subtree`, `Sound.nodup_subtree`), and the subtree
  of a node stands in that of any ancestor as it is (`Sound.filter_subtree`).
-/

namespace Eventful.Page.Tree

variable {t : Tree} {n m p c a x : NodeId} {d : Nat} {as : List NodeId}

/-! ## Lines of ancestors -/

/-- A node lies under itself and under its ancestors. -/
def Under (t : Tree) (a n : NodeId) : Prop := a ∈ n :: t.ancestors n

theorem contains_iff : t.contains a n = true ↔ t.Under a n := mem_line_of_contains

theorem under_self (t : Tree) (n : NodeId) : t.Under n n := List.mem_cons_self

theorem Sound.lists_children (hs : t.Sound) (hn : t.has n = true) : t.Lists n (t.children n) := by
  obtain ⟨ns, hl⟩ := hs.lists hn
  rwa [hl.children]

theorem Sound.mem_children (hs : t.Sound) (hn : t.has n = true) : c ∈ t.children n ↔ t.parent? c = some n :=
  (hs.lists_children hn).mem c

theorem Sound.has_child (hs : t.Sound) (hn : t.has n = true) (hc : c ∈ t.children n) : t.has c = true :=
  (hs.lists_children hn).has c hc

/-- Above a node are its parent and what is above that. -/
theorem Sound.ancestors_cons (hs : t.Sound) (hp : t.parent? n = some p) : t.ancestors n = p :: t.ancestors p := by
  have hn : t.has n = true := has_of_link hp
  have hup := (hs.descends_ancestors hn).upward
  rw [hp] at hup
  exact hup.unique (hs.descends_ancestors (hs.parents hp)).line

theorem Sound.under_iff (hs : t.Sound) (hp : t.parent? n = some p) : t.Under a n ↔ a = n ∨ t.Under a p := by
  unfold Under
  rw [hs.ancestors_cons hp, List.mem_cons]

theorem under_top (hp : t.parent? n = none) : t.Under a n ↔ a = n := by
  have hnone : t.ancestors n = [] := by
    rw [ancestors, hp]
    cases t.size <;> rfl
  unfold Under
  rw [hnone, List.mem_singleton]

/-- Only nodes that exist lie under one that does. -/
theorem has_of_under (ha : t.has a = true) (h : t.Under a n) : t.has n = true := by
  rcases List.mem_cons.mp h with rfl | h
  · exact ha
  · exact (Bool.not_eq_false _).mp fun hno => by
      rw [ancestors_unknown hno] at h
      cases h

/-- The line of an ancestor is a part of the line. -/
theorem Sound.under_trans (hs : t.Sound) (h : t.Under a m) (h' : t.Under m n) : t.Under a n := by
  rcases List.mem_cons.mp h' with rfl | hm
  · exact h
  · obtain ⟨xs, ys, e⟩ := List.append_of_mem hm
    unfold Under at h ⊢
    rw [hs.ancestors_of_ancestor e] at h
    rw [e]
    exact List.mem_cons_of_mem _ (List.mem_append_right _ h)

theorem Sound.under_antisymm (hs : t.Sound) (h : t.Under a n) (h' : t.Under n a) : a = n := by
  rcases List.mem_cons.mp h with e | ha
  · exact e
  · obtain ⟨xs, ys, e⟩ := List.append_of_mem ha
    unfold Under at h'
    rw [hs.ancestors_of_ancestor e] at h'
    have hnodup := List.nodup_cons.mp (hs.nodup_ancestors n)
    exact absurd (e ▸ List.mem_append_right xs h') hnodup.1

/-- Of two nodes above the same one, one is above the other. -/
theorem Sound.under_total (hs : t.Sound) (h : t.Under a n) (h' : t.Under m n) : t.Under a m ∨ t.Under m a := by
  rcases List.mem_cons.mp h with rfl | ha
  · exact .inr h'
  · rcases List.mem_cons.mp h' with rfl | hm
    · exact .inl h
    · obtain ⟨xs, ys, e⟩ := List.append_of_mem ha
      rw [e] at hm
      rcases List.mem_append.mp hm with hm | hm
      · obtain ⟨xs₁, xs₂, rfl⟩ := List.append_of_mem hm
        rw [List.append_assoc, List.cons_append] at e
        refine .inl ?_
        unfold Under
        rw [hs.ancestors_of_ancestor e]
        exact List.mem_cons_of_mem _ (List.mem_append_right _ List.mem_cons_self)
      · refine .inr ?_
        unfold Under
        rw [hs.ancestors_of_ancestor e]
        exact hm

/-- What lies under a node is the node, or lies under one of its children. -/
theorem Sound.under_children (hs : t.Sound) (hn : t.has n = true) :
    t.Under n m ↔ m = n ∨ ∃ c ∈ t.children n, t.Under c m := by
  constructor
  · intro h
    have hm := has_of_under hn h
    rcases List.mem_cons.mp h with e | h
    · exact .inl e.symm
    · -- The last step to `n` upward comes from a child of it.
      rcases (hs.descends_ancestors hm).upward.reached h with hp | ⟨c, hc, hp⟩
      · exact .inr ⟨m, (hs.mem_children hn).mpr hp, under_self t m⟩
      · exact .inr ⟨c, (hs.mem_children hn).mpr hp, List.mem_cons_of_mem _ hc⟩
  · rintro (rfl | ⟨c, hc, h⟩)
    · exact under_self t m
    · have hnc : t.Under n c := (hs.under_iff ((hs.mem_children hn).mp hc)).mpr (.inr (under_self t n))
      exact hs.under_trans hnc h

/-- No child is above its parent. -/
theorem Sound.not_under_child (hs : t.Sound) (hp : t.parent? c = some n) : ¬t.Under c n := by
  intro h
  have hnc : t.Under n c := (hs.under_iff hp).mpr (.inr (under_self t n))
  rw [hs.under_antisymm h hnc] at hp
  have hnodup := List.nodup_cons.mp (hs.nodup_ancestors n)
  rw [hs.ancestors_cons hp] at hnodup
  exact hnodup.1 List.mem_cons_self

/-- Nothing lies under two children of a node. -/
theorem Sound.child_unique {c' : NodeId} (hs : t.Sound) (hp : t.parent? c = some n) (hp' : t.parent? c' = some n)
    (h : t.Under c m) (h' : t.Under c' m) : c = c' := by
  rcases hs.under_total h h' with hu | hu
  · exact ((hs.under_iff hp').mp hu).resolve_right (hs.not_under_child hp)
  · exact (((hs.under_iff hp).mp hu).resolve_right (hs.not_under_child hp')).symm

/-! ## Downward -/

/-- There are more nodes than a node has ancestors. -/
theorem Sound.length_ancestors (hs : t.Sound) (hn : t.has n = true) : (t.ancestors n).length < t.size := by
  have hd := hs.descends_ancestors hn
  exact length_le_size hd.nodup (List.forall_mem_cons.mpr ⟨hn, hd.has hs⟩)

/-- What holds of a node if it holds of its children, holds of every node. -/
theorem Sound.downward_induction (hs : t.Sound) {P : NodeId → Prop}
    (h : ∀ n, t.has n = true → (∀ c ∈ t.children n, P c) → P n) : ∀ n, t.has n = true → P n := by
  -- The induction is on the nodes that are not above: a child has one less than its parent.
  have hroom : ∀ d n, t.has n = true → t.size ≤ d + (t.ancestors n).length → P n := by
    intro d
    induction d with
    | zero =>
      intro n hn hd
      have := hs.length_ancestors hn
      omega
    | succ d ih =>
      intro n hn hd
      refine h n hn fun c hc => ih c (hs.has_child hn hc) ?_
      rw [hs.ancestors_cons ((hs.mem_children hn).mp hc), List.length_cons]
      omega
  exact fun n hn => hroom t.size n hn (Nat.le_add_right _ _)

/-- More depth than there is room for adds nothing. -/
theorem Sound.downward_succ (hs : t.Sound) (hn : t.has n = true) (hd : t.size ≤ d + (t.ancestors n).length) :
    t.downward (d + 1) n = t.downward d n := by
  induction d generalizing n with
  | zero =>
    have := hs.length_ancestors hn
    omega
  | succ d ih =>
    rw [downward, downward]
    congr 1
    refine List.flatMap_congr fun c hc => ih (hs.has_child hn hc) ?_
    rw [hs.ancestors_cons ((hs.mem_children hn).mp hc), List.length_cons]
    omega

/-- A node first, and then what lies under its children, child by child. -/
theorem Sound.subtree_eq (hs : t.Sound) (hn : t.has n = true) : t.subtree n = n :: (t.children n).flatMap t.subtree := by
  have hroom : t.downward (t.size + 1) n = t.downward t.size n := hs.downward_succ hn (Nat.le_add_right _ _)
  rw [subtree, if_pos hn, ← hroom, downward]
  congr 1
  refine List.flatMap_congr fun c hc => ?_
  rw [subtree, if_pos (hs.has_child hn hc)]

theorem subtree_unknown (hn : t.has n = false) : t.subtree n = [] := by
  rw [subtree, hn]
  rfl

/-- What lies under a node is known by the children of the nodes that lie there. -/
theorem Sound.subtree_congr {t' : Tree} (hs : t.Sound) (hs' : t'.Sound)
    (hhas : ∀ m, t.has m = true → t'.has m = true) (hn : t.has n = true)
    (h : ∀ m, t.has m = true → t.Under n m → t'.children m = t.children m) : t'.subtree n = t.subtree n := by
  have hbelow : ∀ m, t.has m = true → t.Under n m → t'.subtree m = t.subtree m := by
    refine hs.downward_induction fun m hm ih hnm => ?_
    rw [hs'.subtree_eq (hhas m hm), hs.subtree_eq hm, h m hm hnm]
    congr 1
    refine List.flatMap_congr fun c hc => ih c hc ?_
    exact (hs.under_iff ((hs.mem_children hm).mp hc)).mpr (.inr hnm)
  exact hbelow n hn (under_self t n)

theorem Sound.mem_subtree (hs : t.Sound) (hn : t.has n = true) : m ∈ t.subtree n ↔ t.Under n m := by
  refine hs.downward_induction (P := fun n => ∀ m, m ∈ t.subtree n ↔ t.Under n m) (fun n hn ih m => ?_) n hn m
  rw [hs.subtree_eq hn, List.mem_cons, List.mem_flatMap, hs.under_children hn]
  exact or_congr Iff.rfl (exists_congr fun c => and_congr_right fun hc => ih c hc m)

theorem Sound.nodup_subtree (hs : t.Sound) (n : NodeId) : (t.subtree n).Nodup := by
  cases hn : t.has n with
  | false =>
    rw [subtree_unknown hn]
    exact List.nodup_nil
  | true =>
    refine hs.downward_induction (P := fun n => (t.subtree n).Nodup) (fun n hn ih => ?_) n hn
    have hparent : ∀ c ∈ t.children n, t.parent? c = some n := fun c hc => (hs.mem_children hn).mp hc
    rw [hs.subtree_eq hn]
    refine List.nodup_cons.mpr ⟨fun hm => ?_, List.nodup_flatMap.mpr ⟨ih, ?_⟩⟩
    · obtain ⟨c, hc, hm⟩ := List.mem_flatMap.mp hm
      exact hs.not_under_child (hparent c hc) ((hs.mem_subtree (hs.has_child hn hc)).mp hm)
    · refine (hs.lists_children hn).nodup.imp_of_mem fun {c c'} hc hc' hne => ?_
      intro m hm hm'
      have hu := (hs.mem_subtree (hs.has_child hn hc)).mp hm
      have hu' := (hs.mem_subtree (hs.has_child hn hc')).mp hm'
      exact hne (hs.child_unique (hparent c hc) (hparent c' hc') hu hu')

/-- Of what lies under a node, what lies under a lower one is the subtree of that. -/
theorem Sound.filter_subtree (hs : t.Sound) (ha : t.has a = true) (hn : t.Under a n) :
    (t.subtree a).filter (t.contains n) = t.subtree n := by
  refine hs.downward_induction (P := fun a => t.Under a n → (t.subtree a).filter (t.contains n) = t.subtree n)
    (fun a ha ih hn => ?_) a ha hn
  rcases (hs.under_children ha).mp hn with rfl | ⟨c, hc, hcn⟩
  · exact List.filter_eq_self.mpr fun m hm => contains_iff.mpr ((hs.mem_subtree ha).mp hm)
  · have hparent : ∀ c ∈ t.children a, t.parent? c = some a := fun c hc => (hs.mem_children ha).mp hc
    obtain ⟨xs, ys, e⟩ := List.append_of_mem hc
    have hnodup := (hs.lists_children ha).nodup
    rw [e] at hnodup
    -- The other children have nothing in common with `n`.
    have hothers : ∀ c' ∈ t.children a, c' ≠ c → (t.subtree c').filter (t.contains n) = [] := by
      intro c' hc' hne
      refine List.filter_eq_nil_iff.mpr fun m hm hnm => hne ?_
      have hu' := (hs.mem_subtree (hs.has_child ha hc')).mp hm
      have hu := hs.under_trans hcn (contains_iff.mp hnm)
      exact hs.child_unique (hparent c' hc') (hparent c hc) hu' hu
    have hself : ¬t.contains n a = true := fun hna =>
      hs.not_under_child (hparent c hc) (hs.under_trans hcn (contains_iff.mp hna))
    have hnone : ∀ zs : List NodeId, (∀ z ∈ zs, z ∈ t.children a ∧ z ≠ c) →
        (zs.flatMap t.subtree).filter (t.contains n) = [] := by
      intro zs hzs
      rw [List.filter_flatMap]
      exact List.flatMap_eq_nil_iff.mpr fun z hz => hothers z (hzs z hz).1 (hzs z hz).2
    have hne : ∀ z ∈ xs ++ ys, z ∈ t.children a ∧ z ≠ c := by
      have hcmem := List.nodup_middle.mp hnodup
      refine fun z hz => ⟨?_, fun ez => (List.nodup_cons.mp hcmem).1 (ez ▸ hz)⟩
      rw [e]
      rcases List.mem_append.mp hz with hz | hz
      · exact List.mem_append_left _ hz
      · exact List.mem_append_right _ (List.mem_cons_of_mem _ hz)
    rw [hs.subtree_eq ha, List.filter_cons_of_neg hself, e, List.flatMap_append, List.flatMap_cons, List.filter_append,
      List.filter_append, hnone xs fun z hz => hne z (List.mem_append_left _ hz),
      hnone ys fun z hz => hne z (List.mem_append_right _ hz), ih c hc hcn, List.nil_append, List.append_nil]

end Eventful.Page.Tree
