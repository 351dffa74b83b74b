import Eventful.Proofs.Page.Subtree
import Eventful.Proofs.Page.TreeEdits

/-
  Eventful.Proofs.Page.Leaving — which nodes an edit takes out of the document.

  A node that is taken off keeps what is under it and loses what is above it
  (`Sound.under_detach`); one that is put under another gets what is above that
  (`Sound.under_appendChild`). So what leaves the document by a removal is the subtree of
  the node, if that was in the document. By an append it is the subtree of the child, if
  that was in the document and its new parent is not.
-/

namespace Eventful.Page.Tree

variable {t t' : Tree} {n m p a x : NodeId}

/-- What holds of a node if it holds of its parent, holds of every node. -/
theorem Sound.upward_induction (hs : t.Sound) {P : NodeId → Prop} (h : ∀ n, (∀ p, t.parent? n = some p → P p) → P n)
    (n : NodeId) : P n := by
  induction hlen : (t.ancestors n).length generalizing n with
  | zero =>
    refine h n fun p hp => ?_
    rw [hs.ancestors_cons hp] at hlen
    cases hlen
  | succ len ih =>
    refine h n fun p hp => ih p ?_
    rw [hs.ancestors_cons hp] at hlen
    exact Nat.succ.inj hlen

/-! ## Above and below -/

theorem detach_top (hp : t.parent? n = none) : t.detach n = t := by
  unfold detach
  rw [hp]

theorem parent?_detached (hs : t.Sound) : (t.detach n).parent? x = if x = n then none else t.parent? x := by
  cases hp : t.parent? n with
  | none =>
    rw [detach_top hp]
    split
    · rename_i e
      exact e ▸ hp
    · rfl
  | some p => exact (cut_detach hs hp).parent x

/-- A node that is taken off loses what is above it, and so does what is under it. -/
theorem Sound.under_detach (hs : t.Sound) (n : NodeId) :
    (t.detach n).Under a m ↔ t.Under a m ∧ (t.Under n m → t.Under n a) := by
  induction m using hs.upward_induction with
  | h m ih =>
    have hp' := parent?_detached (n := n) (x := m) hs
    by_cases hm : m = n
    · subst hm
      rw [under_top (hp'.trans (if_pos rfl))]
      constructor
      · exact fun e => e ▸ ⟨under_self t _, fun _ => under_self t _⟩
      · exact fun h => hs.under_antisymm h.1 (h.2 (under_self t m))
    · rw [if_neg hm] at hp'
      cases hp : t.parent? m with
      | none =>
        rw [under_top (hp'.trans hp), under_top hp, under_top hp]
        exact ⟨fun e => ⟨e, fun e' => absurd e'.symm hm⟩, fun h => h.1⟩
      | some p =>
        rw [(hs.detach n).under_iff (hp'.trans hp), ih p hp, hs.under_iff hp, hs.under_iff hp]
        constructor
        · rintro (rfl | ⟨h, hn⟩)
          · exact ⟨.inl rfl, fun hn => (hs.under_iff hp).mpr hn⟩
          · exact ⟨.inr h, fun hn' => hn (hn'.resolve_left (Ne.symm hm))⟩
        · rintro ⟨e | h, hn⟩
          · exact .inl e
          · exact .inr ⟨h, fun hn' => hn (.inr hn')⟩

theorem Sound.children_detach {q : NodeId} (hs : t.Sound) (hq : t.has q = true) (hne : t.parent? n ≠ some q) :
    (t.detach n).children q = t.children q := by
  cases hp : t.parent? n with
  | none => rw [detach_top hp]
  | some p =>
    have hqp : q ≠ p := fun e => hne (e ▸ hp)
    exact ((hs.lists_children hq).cut_other hs hp hqp (cut_detach hs hp)).children

/-- A node that is taken off keeps what is under it. -/
theorem Sound.subtree_detach (hs : t.Sound) (hn : t.has n = true) : (t.detach n).subtree n = t.subtree n := by
  -- The only list that changes is that of the parent, which is not below.
  refine hs.subtree_congr (hs.detach n) (fun m hm => has_detach.trans hm) hn fun m hm hnm => ?_
  exact hs.children_detach hm fun hp => hs.not_under_child hp hnm

/-- What hangs under another node has above it what that has, and nothing else changes. -/
theorem Sound.under_hung (hs : t.Sound) (hs' : t'.Sound) (hfree : t.parent? n = none) (hnp : ¬t.Under n p)
    (hh : Hung t t' p n) : t'.Under a m ↔ t.Under a m ∨ (t.Under n m ∧ t.Under a p) := by
  have hother : ∀ m, ¬t.Under n m → (t'.Under a m ↔ t.Under a m) := by
    refine hs.upward_induction fun m ih hnm => ?_
    have hm : m ≠ n := fun e => hnm (e ▸ under_self t m)
    have hp' := (hh.parent m).trans (if_neg hm)
    cases hp : t.parent? m with
    | none => rw [under_top (hp'.trans hp), under_top hp]
    | some q =>
      have hnq : ¬t.Under n q := fun h => hnm ((hs.under_iff hp).mpr (.inr h))
      rw [hs'.under_iff (hp'.trans hp), hs.under_iff hp, ih q hp hnq]
  by_cases hnm : t.Under n m
  · rw [and_iff_right hnm]
    induction m using hs.upward_induction with
    | h m ih =>
      by_cases hm : m = n
      · subst hm
        rw [hs'.under_iff ((hh.parent m).trans (if_pos rfl)), hother p hnp, under_top hfree]
      · have hp' := (hh.parent m).trans (if_neg hm)
        cases hp : t.parent? m with
        | none => exact absurd ((under_top hp).mp hnm).symm hm
        | some q =>
          have hnq := ((hs.under_iff hp).mp hnm).resolve_left (Ne.symm hm)
          have hq : t'.Under a q ↔ t.Under a q ∨ t.Under a p := ih q hp hnq
          rw [hs'.under_iff (hp'.trans hp), hs.under_iff hp, hq, or_assoc]
  · rw [hother m hnm]
    exact ⟨.inl, fun h => h.resolve_right fun h => hnm h.1⟩

/-! ## In the document -/

theorem isConnected_iff_under : t.isConnected n = true ↔ t.has n = true ∧ t.Under root n := isConnected_iff

/-- The document node is under itself alone. -/
theorem Sound.under_root (hs : t.Sound) : t.Under n root ↔ n = root := under_top hs.document.2

theorem Sound.mem_document (hs : t.Sound) : m ∈ t.subtree root ↔ t.isConnected m = true := by
  rw [hs.mem_subtree hs.document.1, isConnected_iff_under]
  exact ⟨fun h => ⟨has_of_under hs.document.1 h, h⟩, And.right⟩

/-- Whatever is in the document, what is above it is, too. -/
theorem Sound.connected_above (hs : t.Sound) (hn : t.has n = true) (hroot : n ≠ root) (hc : t.isConnected m = true)
    (hnm : t.Under n m) : t.isConnected n = true := by
  refine isConnected_iff_under.mpr ⟨hn, ?_⟩
  rcases hs.under_total (isConnected_iff_under.mp hc).2 hnm with h | h
  · exact h
  · exact absurd (hs.under_root.mp h) hroot

theorem Sound.connected_detach (hs : t.Sound) (hroot : n ≠ root) :
    (t.detach n).isConnected m = true ↔ t.isConnected m = true ∧ ¬t.Under n m := by
  rw [isConnected_iff_under, isConnected_iff_under, has_detach, hs.under_detach, hs.under_root, and_assoc]
  exact and_congr_right fun _ => and_congr_right fun _ => ⟨fun h hnm => hroot (h hnm), fun h hnm => absurd hnm h⟩

/-- After an append the child is where its new parent is, with all that is under it. -/
theorem Sound.connected_appendChild (hs : t.Sound) (h : t.appendChild p n = .ok t') :
    t'.isConnected m = true ↔
      (t.has m = true ∧ t.Under n m ∧ t.isConnected p = true) ∨ (t.isConnected m = true ∧ ¬t.Under n m) := by
  have hs' := hs.appendChild h
  obtain ⟨hp, hn, hroot, hunder, rfl⟩ := appendChild_ok h
  have hnp : ¬t.Under n p := hunder
  have hh := hung_link (hs.detach n) (has_detach.trans hp) (has_detach.trans hn)
  have hnp' : ¬(t.detach n).Under n p := fun hu => hnp (hs.under_detach n |>.mp hu).1
  have hnm : (t.detach n).Under n m ↔ t.Under n m := by
    rw [hs.under_detach]
    exact and_iff_left fun _ => under_self t n
  have hm := hs.connected_detach (m := m) hroot
  have hpc := hs.connected_detach (m := p) hroot
  rw [and_iff_left hnp] at hpc
  rw [isConnected_iff_under, has_detach] at hm hpc
  rw [isConnected_iff_under, hh.has, has_detach, (hs.detach n).under_hung hs' (parent?_detach hs) hnp' hh, hnm]
  rw [hp, eq_self, true_and] at hpc
  rw [hpc, and_or_left, hm, or_comm]

/-! ## What leaves -/

/-- The nodes that were in the document and are not any more, in its order. -/
def left (t t' : Tree) : List NodeId := (t.subtree root).filter fun m => !t'.isConnected m

theorem Sound.mem_left (hs : t.Sound) : m ∈ t.left t' ↔ t.isConnected m = true ∧ t'.isConnected m = false := by
  rw [left, List.mem_filter, hs.mem_document, Bool.not_eq_true']

theorem Sound.nodup_left (hs : t.Sound) (t' : Tree) : (t.left t').Nodup := (hs.nodup_subtree root).filter _

theorem Sound.left_nil (hs : t.Sound) (h : ∀ m, t.isConnected m = true → t'.isConnected m = true) : t.left t' = [] := by
  refine List.filter_eq_nil_iff.mpr fun m hm => ?_
  rw [h m (hs.mem_document.mp hm)]
  decide

/-- A subtree of the document that leaves as a whole, and nothing else. -/
theorem Sound.left_subtree (hs : t.Sound) (hc : t.isConnected n = true)
    (h : ∀ m, t.isConnected m = true → (t'.isConnected m = true ↔ ¬t.Under n m)) : t.left t' = t.subtree n := by
  rw [left, ← hs.filter_subtree hs.document.1 (isConnected_iff_under.mp hc).2]
  refine List.filter_congr fun m hm => ?_
  rw [Bool.eq_iff_iff, contains_iff, Bool.not_eq_true', ← Bool.not_eq_true, h m (hs.mem_document.mp hm), not_not]

theorem Sound.left_detach (hs : t.Sound) (hn : t.has n = true) (hroot : n ≠ root) :
    t.left (t.detach n) = if t.isConnected n then t.subtree n else [] := by
  split
  · rename_i hc
    refine hs.left_subtree hc fun m hm => ?_
    rw [hs.connected_detach hroot]
    exact and_iff_right hm
  · rename_i hc
    refine hs.left_nil fun m hm => (hs.connected_detach hroot).mpr ⟨hm, fun hnm => hc ?_⟩
    exact hs.connected_above hn hroot hm hnm

theorem Sound.left_detach_root (hs : t.Sound) : t.left (t.detach root) = [] := by
  rw [detach_top hs.document.2]
  exact hs.left_nil fun _ hm => hm

theorem Sound.left_appendChild (hs : t.Sound) (h : t.appendChild p n = .ok t') :
    t.left t' = if t.isConnected n && !t.isConnected p then t.subtree n else [] := by
  obtain ⟨-, hn, hroot, -, -⟩ := appendChild_ok h
  have hconnected := fun m => hs.connected_appendChild (m := m) h
  cases hc : t.isConnected n with
  | false =>
    refine hs.left_nil fun m hm => (hconnected m).mpr (.inr ⟨hm, fun hnm => ?_⟩)
    rw [hs.connected_above hn hroot hm hnm] at hc
    cases hc
  | true =>
    cases hp : t.isConnected p with
    | false =>
      refine hs.left_subtree hc fun m hm => ?_
      rw [hconnected m, hp, hm]
      simp
    | true =>
      refine hs.left_nil fun m hm => (hconnected m).mpr ?_
      by_cases hnm : t.Under n m
      · exact .inl ⟨(isConnected_iff_under.mp hm).1, hnm, hp⟩
      · exact .inr ⟨hm, hnm⟩

/-- A node that is made is not in the document, and moves nobody. -/
theorem Sound.connected_add (hs : t.Sound) (c : Content) (hm : t.isConnected m = true) :
    (t.add c).2.isConnected m = true := by
  obtain ⟨hhas, hu⟩ := isConnected_iff_under.mp hm
  have hg := grown_add t c
  refine isConnected_iff_under.mpr ⟨(hg.has m).mpr (.inl hhas), ?_⟩
  unfold Under
  rw [((hs.descends_ancestors hhas).grown hg).ancestors (hs.add c)]
  exact hu

theorem Sound.detached_add (hs : t.Sound) (c : Content) : (t.add c).2.isConnected (t.add c).1 = false := by
  have hg := grown_add t c
  have hp : (t.add c).2.parent? (t.add c).1 = none := by
    rw [parent?, hg.links, if_pos rfl]
    rfl
  refine (Bool.not_eq_true _).mp fun hc => hg.fresh ?_
  rw [← (under_top hp).mp (isConnected_iff_under.mp hc).2]
  exact hs.document.1

theorem Sound.left_appendElement (hs : t.Sound) (p : NodeId) (tag : String) : t.left (t.appendElement p tag).2 = [] := by
  have hnew := hs.detached_add (.element (.ofTag tag))
  have hold : ∀ m, t.isConnected m = true → (t.createElement tag).2.isConnected m = true := fun m => hs.connected_add _
  unfold Tree.appendElement
  dsimp only
  split
  · exact hs.left_nil hold
  · rename_i t' h
    have hsnew : (t.createElement tag).2.Sound := hs.add _
    have hleft : (t.createElement tag).2.left t' = [] := by
      rw [hsnew.left_appendChild h, show (t.createElement tag).2.isConnected (t.createElement tag).1 = false from hnew]
      rfl
    refine hs.left_nil fun m hm => (Bool.not_eq_false _).mp fun hgone => ?_
    have hmem : m ∈ (t.createElement tag).2.left t' := hsnew.mem_left.mpr ⟨hold m hm, hgone⟩
    rw [hleft] at hmem
    cases hmem

end Eventful.Page.Tree
