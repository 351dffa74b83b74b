import Eventful.Proofs.Page.Leaving
import Eventful.Proofs.Page.Reached

/-
  Eventful.Proofs.Page.Placing — where an append puts a node.

  An append is refused for one reason at a time, the parent before the child before their
  order (`appendChild_error`). Otherwise the node is taken out of the list that it was in
  and comes last in the list of its new parent, which may be the same one; no other list
  changes, and nothing that the nodes hold (`Sound.moved`).
-/

namespace Eventful.Page.Tree

variable {t t' : Tree} {n m p q x : NodeId}

/-! ## Refusals -/

/-- Why a node may not be put under another. -/
inductive Refused (t : Tree) (p n : NodeId) : TreeError → Prop
  | parent : t.has p = false → Refused t p n (.unknownNode p)
  | child : t.has p = true → t.has n = false → Refused t p n (.unknownNode n)
  | hierarchy : t.has p = true → t.has n = true → n = root ∨ n = p ∨ n ∈ t.ancestors p →
      Refused t p n (.hierarchy p n)

theorem appendChild_error {e : TreeError} : t.appendChild p n = .error e ↔ t.Refused p n e := by
  have habove : (n == root || t.contains n p) = true ↔ n = root ∨ n = p ∨ n ∈ t.ancestors p := by
    rw [Bool.or_eq_true, beq_iff_eq, mem_line_of_contains, List.mem_cons]
  unfold appendChild
  constructor
  · intro h
    split at h
    · rename_i hp
      cases h
      exact .parent (by simpa using hp)
    · rename_i hp
      have hp : t.has p = true := by simpa using hp
      split at h
      · rename_i hn
        cases h
        exact .child hp (by simpa using hn)
      · rename_i hn
        have hn : t.has n = true := by simpa using hn
        split at h
        · rename_i hu
          cases h
          exact .hierarchy hp hn (habove.mp hu)
        · cases h
  · intro h
    cases h with
    | parent hp =>
      rw [hp]
      rfl
    | child hp hn =>
      rw [hp, hn]
      rfl
    | hierarchy hp hn hu =>
      rw [hp, hn, habove.mpr hu]
      rfl

/-! ## Lists of children -/

/-- A node that is taken off goes out of its list, and nothing else does. -/
theorem Sound.children_detached (hs : t.Sound) (n q : NodeId) :
    (t.detach n).children q = (t.children q).filter (· != n) := by
  cases hq : t.has q with
  | false =>
    rw [children_unknown hq, children_unknown (has_detach.trans hq)]
    rfl
  | true =>
    have hl := hs.lists_children hq
    by_cases hp : t.parent? n = some q
    · obtain ⟨xs, ys, e⟩ := List.append_of_mem ((hs.mem_children hq).mpr hp)
      rw [e] at hl
      have hn : n ∉ xs := fun hx => (List.nodup_append.mp hl.nodup).2.2 n hx n List.mem_cons_self rfl
      rw [(hl.cut (cut_detach hs hp)).children, e, ← hl.nodup.erase_eq_filter, List.erase_append_right _ hn,
        List.erase_cons_head]
    · rw [hs.children_detach hq hp]
      refine (List.filter_eq_self.mpr fun m hm => bne_iff_ne.mpr fun e => hp ?_).symm
      exact (hs.mem_children hq).mp (e ▸ hm)

/-- A node by itself that is put under another is the last child of that. -/
theorem Sound.children_link (hs : t.Sound) (hp : t.has p = true) (hn : t.has n = true) (hfree : t.parent? n = none)
    (q : NodeId) : (t.link p n).children q = if q = p then t.children p ++ [n] else t.children q := by
  have hh := hung_link hs hp hn
  split
  · rename_i e
    rw [e, ((hs.lists_children hp).hung hfree hh).children]
  · rename_i hqp
    cases hq : t.has q with
    | false => rw [children_unknown hq, children_unknown ((hh.has q).trans hq)]
    | true => rw [((hs.lists_children hq).hung_other hs hp hfree hqp hh).children]

/-! ## Appends -/

/-- What an append of `n` to `p` does. -/
structure Moved (t t' : Tree) (p n : NodeId) : Prop where
  /-- The node comes last, wherever it stood before. -/
  children : t'.children p = (t.children p).filter (· != n) ++ [n]
  /-- Its former parent has the other children. -/
  former : ∀ q, t.parent? n = some q → q ≠ p → t'.children q = (t.children q).filter (· != n)
  /-- All others have the children that they had. -/
  others : ∀ q, q ≠ p → t.parent? n ≠ some q → t'.children q = t.children q
  /-- So has whatever lies under the node. -/
  below : ∀ q ∈ t.subtree n, t'.children q = t.children q
  parents : ∀ x, t'.parent? x = if x = n then some p else t.parent? x
  has : ∀ x, t'.has x = t.has x
  content : ∀ x, t'.content? x = t.content? x

theorem Sound.moved (hs : t.Sound) (h : t.appendChild p n = .ok t') : t.Moved t' p n := by
  obtain ⟨hp, hn, -, hnp, rfl⟩ := appendChild_ok h
  have hbare := hs.detach n
  have hp' : (t.detach n).has p = true := has_detach.trans hp
  have hn' : (t.detach n).has n = true := has_detach.trans hn
  have hh := hung_link hbare hp' hn'
  have hlists : ∀ q, ((t.detach n).link p n).children q =
      if q = p then (t.children p).filter (· != n) ++ [n] else (t.children q).filter (· != n) := by
    intro q
    rw [hbare.children_link hp' hn' (parent?_detach hs), hs.children_detached, hs.children_detached]
  have hothers : ∀ q, q ≠ p → t.parent? n ≠ some q → ((t.detach n).link p n).children q = t.children q := by
    intro q hqp hne
    rw [hlists, if_neg hqp]
    refine List.filter_eq_self.mpr fun m hm => bne_iff_ne.mpr fun e => hne ?_
    cases hq : t.has q with
    | false =>
      rw [children_unknown hq] at hm
      cases hm
    | true => exact (hs.mem_children hq).mp (e ▸ hm)
  refine ⟨?_, fun q _ hqp => ?_, hothers, fun q hq => ?_, fun x => ?_, fun x => (hh.has x).trans has_detach,
    fun x => content?_link.trans content?_detach⟩
  · rw [hlists, if_pos rfl]
  · rw [hlists, if_neg hqp]
  · have hu := (hs.mem_subtree hn).mp hq
    exact hothers q (fun e => hnp (e ▸ hu)) fun hpq => hs.not_under_child hpq hu
  · rw [hh.parent, parent?_detached hs]
    split <;> rfl

end Eventful.Page.Tree
