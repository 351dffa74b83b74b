import Eventful.Proofs.Page.Chain
import Mathlib.Data.List.Nodup
import Mathlib.Data.List.Perm.Subperm

/-
  Eventful.Proofs.Page.Tree — the links of a tree fit together.

  In a sound tree the children of a node are a list that is read forward by one kind of
  links and backward by another (`Lists`), and every node has a line of ancestors that
  comes to an end (`Descends`). What that comes to, link by link, is `WellLinked`.
-/

namespace Eventful.Page.Tree

variable {t t' : Tree} {n m p x : NodeId} {ns as : List NodeId} {read : Links → Option NodeId} {f : Links → Links}

/-! ## Soundness -/

/-- The children of `p` are `ns`, by whichever links they are read. -/
structure Lists (t : Tree) (p : NodeId) (ns : List NodeId) : Prop where
  forward : Passes t.nextSibling? (t.firstChild? p) ns none
  backward : Passes t.previousSibling? (t.lastChild? p) ns.reverse none
  nodup : ns.Nodup
  mem : ∀ n, n ∈ ns ↔ t.parent? n = some p

/-- The ancestors of `n` are `as`, and `n` is none of them. -/
structure Descends (t : Tree) (n : NodeId) (as : List NodeId) : Prop where
  upward : Passes t.parent? (t.parent? n) as none
  nodup : (n :: as).Nodup

structure Sound (t : Tree) : Prop where
  document : t.has root = true ∧ t.parent? root = none
  parents : ∀ {n p}, t.parent? n = some p → t.has p = true
  lists : ∀ {p}, t.has p = true → ∃ ns, t.Lists p ns
  alone : ∀ {n}, t.parent? n = none → t.previousSibling? n = none ∧ t.nextSibling? n = none
  descends : ∀ {n}, t.has n = true → ∃ as, t.Descends n as

/-! ## Reading -/

theorem has_iff : t.has n = true ↔ n < t.size := decide_eq_true_iff

theorem links?_eq_none : t.links? n = none ↔ t.has n = false := by
  rw [← Bool.not_eq_true, has_iff, Nat.not_lt]
  simp [links?, get?, size]

theorem has_of_link (h : (t.links? n).bind read = some m) : t.has n = true := by
  refine (Bool.not_eq_false _).mp fun hn => ?_
  rw [links?_eq_none.mpr hn] at h
  cases h

theorem children_leaf (h : t.firstChild? n = none) : t.children n = [] := by
  rw [children, h]
  cases t.size <;> rfl

theorem children_unknown (h : t.has n = false) : t.children n = [] := by
  refine children_leaf ?_
  rw [firstChild?, links?_eq_none.mpr h]
  rfl

/-- Nodes that exist and are all different are not more than there are. -/
theorem length_le_size (hd : ns.Nodup) (hs : ∀ n ∈ ns, t.has n = true) : ns.length ≤ t.size := by
  have hsub : ns ⊆ List.range t.size := fun n hn => List.mem_range.mpr (has_iff.mp (hs n hn))
  simpa using (hd.subperm hsub).length_le

theorem Lists.has (hl : t.Lists p ns) : ∀ n ∈ ns, t.has n = true := fun n hn => has_of_link ((hl.mem n).mp hn)

theorem Lists.children (hl : t.Lists p ns) : t.children p = ns :=
  hl.forward.follow (length_le_size hl.nodup hl.has)

theorem Descends.line (hd : t.Descends n as) : Passes t.parent? (some n) (n :: as) none := ⟨rfl, hd.upward⟩

theorem Descends.has (hs : t.Sound) (hd : t.Descends n as) : ∀ a ∈ as, t.has a = true := by
  intro a ha
  rcases hd.upward.reached ha with h | ⟨b, _, h⟩
  · exact hs.parents h
  · exact hs.parents h

theorem Descends.ancestors (hs : t.Sound) (hd : t.Descends n as) : t.ancestors n = as :=
  hd.upward.follow (length_le_size (List.nodup_cons.mp hd.nodup).2 (hd.has hs))

/-- The siblings of a node among the children of its parent. -/
theorem Lists.siblings {xs ys : List NodeId} (hl : t.Lists p (xs ++ n :: ys)) :
    t.previousSibling? n = xs.getLast? ∧ t.nextSibling? n = ys.head? := by
  have hback : Passes t.previousSibling? (t.lastChild? p) (ys.reverse ++ n :: xs.reverse) none := by
    simpa using hl.backward
  exact ⟨hback.after.head.trans List.head?_reverse, hl.forward.after.head⟩

theorem Lists.lastChild? (hl : t.Lists p ns) : t.lastChild? p = ns.getLast? :=
  hl.backward.head.trans List.head?_reverse

theorem Sound.parent_of_next (hs : t.Sound) (h : t.nextSibling? n = some m) :
    ∃ p, t.parent? n = some p ∧ t.parent? m = some p := by
  cases hp : t.parent? n with
  | none => cases h.symm.trans (hs.alone hp).2
  | some p =>
    obtain ⟨ns, hl⟩ := hs.lists (hs.parents hp)
    obtain ⟨xs, ys, rfl⟩ := List.append_of_mem ((hl.mem n).mpr hp)
    have hm : m ∈ ys := List.mem_of_head? (hl.siblings.2.symm.trans h)
    exact ⟨p, rfl, (hl.mem m).mp (List.mem_append_right _ (List.mem_cons_of_mem _ hm))⟩

theorem Sound.parent_of_previous (hs : t.Sound) (h : t.previousSibling? n = some m) :
    ∃ p, t.parent? n = some p ∧ t.parent? m = some p := by
  cases hp : t.parent? n with
  | none => cases h.symm.trans (hs.alone hp).1
  | some p =>
    obtain ⟨ns, hl⟩ := hs.lists (hs.parents hp)
    obtain ⟨xs, ys, rfl⟩ := List.append_of_mem ((hl.mem n).mpr hp)
    have hm : m ∈ xs := List.mem_of_getLast? (hl.siblings.1.symm.trans h)
    exact ⟨p, rfl, (hl.mem m).mp (List.mem_append_left _ hm)⟩

theorem Sound.parent_of_last (hs : t.Sound) (hp : t.has p = true) (h : t.lastChild? p = some m) :
    t.parent? m = some p := by
  obtain ⟨ns, hl⟩ := hs.lists hp
  exact (hl.mem m).mp (List.mem_of_getLast? (hl.lastChild?.symm.trans h))

theorem Sound.descends_ancestors (hs : t.Sound) (h : t.has n = true) : t.Descends n (t.ancestors n) := by
  obtain ⟨as, hd⟩ := hs.descends h
  rwa [hd.ancestors hs]

theorem mem_line_of_contains {a : NodeId} : t.contains a n = true ↔ a ∈ n :: t.ancestors n := by
  rw [contains, Bool.or_eq_true, beq_iff_eq, List.contains_iff_mem, List.mem_cons, eq_comm]

/-! ## Link by link -/

/-- What is to be read in a tree, whichever links one goes by. -/
structure WellLinked (t : Tree) : Prop where
  /-- Links lead to nodes that exist. -/
  leads : ∀ n l, t.links? n = some l → ∀ m,
    some m ∈ [l.parent, l.firstChild, l.lastChild, l.previous, l.next] → t.has m = true
  /-- The children are a list that is read alike forward and backward. -/
  children : ∀ p, t.has p = true → t.Lists p (t.children p)
  /-- Who has a parent stands in its list once, and in no other. -/
  once : ∀ n p, t.parent? n = some p → (t.children p).count n = 1 ∧ ∀ q, n ∈ t.children q → q = p
  alone : ∀ n, t.parent? n = none → t.previousSibling? n = none ∧ t.nextSibling? n = none
  document : t.parent? root = none
  /-- The parents upward come to an end, and no node comes twice. -/
  ancestors : ∀ n, t.has n = true → t.Descends n (t.ancestors n)

theorem Sound.wellLinked (hs : t.Sound) : t.WellLinked where
  leads := by
    intro n l hl m hm
    have hn : t.has n = true := (Bool.not_eq_false _).mp fun h => by cases hl.symm.trans (links?_eq_none.mpr h)
    have hread : ∀ {read : Links → Option NodeId}, read l = some m → (t.links? n).bind read = some m := by
      intro read h
      rw [hl]
      exact h
    obtain ⟨ns, hns⟩ := hs.lists hn
    simp only [List.mem_cons, List.not_mem_nil, or_false] at hm
    rcases hm with h | h | h | h | h
    · exact hs.parents (hread h.symm)
    · have hfirst : t.firstChild? n = some m := hread h.symm
      exact hns.has m (List.mem_of_head? (hns.forward.head.symm.trans hfirst))
    · exact has_of_link (hs.parent_of_last hn (hread h.symm))
    · obtain ⟨_, _, hp⟩ := hs.parent_of_previous (hread h.symm)
      exact has_of_link hp
    · obtain ⟨_, _, hp⟩ := hs.parent_of_next (hread h.symm)
      exact has_of_link hp
  children := by
    intro p hp
    obtain ⟨ns, hl⟩ := hs.lists hp
    rwa [hl.children]
  once := by
    intro n p hp
    obtain ⟨ns, hl⟩ := hs.lists (hs.parents hp)
    refine ⟨?_, fun q hq => ?_⟩
    · rw [hl.children]
      exact List.count_eq_one_of_mem hl.nodup ((hl.mem n).mpr hp)
    · by_cases hhas : t.has q = true
      · obtain ⟨ns', hl'⟩ := hs.lists hhas
        rw [hl'.children] at hq
        exact Option.some.inj (((hl'.mem n).mp hq).symm.trans hp)
      · rw [children_unknown ((Bool.not_eq_true _).mp hhas)] at hq
        cases hq
  alone := fun _ hp => hs.alone hp
  document := hs.document.2
  ancestors := fun _ hn => hs.descends_ancestors hn

end Eventful.Page.Tree
