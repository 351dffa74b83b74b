import Eventful.Proofs.Page.Reached
import Eventful.Proofs.Page.Subtree

/-
  Eventful.Proofs.Page.Loops — the walks through a tree as loops.

  The walks are defined with a limit. The loops here have none: a cursor goes over the
  children of a node, another one upward, and a stack holds the nodes that a walk downward
  has still to visit. On links that run in a circle such a loop would never end (`Yields`,
  `Seeks` say that it does). In a tree that edits come to all of them end, with what the
  walks give, and the walks agree with each other (`Reached.walks_agree`).
-/

namespace Eventful.Page

/-! ## Loops -/

section

variable {σ : Type} {next : σ → Option (NodeId × σ)} {s : σ} {ns ns' : List NodeId}

/-- The loop that goes on by `next` gives the nodes in order from `s` on and ends. -/
inductive Yields (next : σ → Option (NodeId × σ)) : σ → List NodeId → Prop
  | stop {s : σ} : next s = none → Yields next s []
  | go {s s' : σ} {n : NodeId} {ns : List NodeId} :
    next s = some (n, s') → Yields next s' ns → Yields next s (n :: ns)

theorem Yields.unique (h : Yields next s ns) (h' : Yields next s ns') : ns' = ns := by
  induction h generalizing ns' with
  | stop hs =>
    cases h' with
    | stop => rfl
    | go hs' => cases hs.symm.trans hs'
  | go hs _ ih =>
    cases h' with
    | stop hs' => cases hs.symm.trans hs'
    | go hs' h' =>
      cases hs.symm.trans hs'
      rw [ih h']

theorem Yields.iff (h : Yields next s ns) : Yields next s ns' ↔ ns' = ns := ⟨h.unique, fun e => e ▸ h⟩

end

namespace Tree

variable {t : Tree} {a n : NodeId} {s : Option NodeId} {ns rest : List NodeId} {b b' : Bool}

/-- The child that a cursor is at; the cursor goes on to its next sibling. -/
def nextChild (t : Tree) (cursor : Option NodeId) : Option (NodeId × Option NodeId) :=
  cursor.bind fun n => (t.links? n).map fun l => (n, l.next)

/-- The node that a cursor is at; the cursor goes on to its parent. -/
def nextAbove (t : Tree) (cursor : Option NodeId) : Option (NodeId × Option NodeId) :=
  cursor.map fun n => (n, t.parent? n)

/-- The node on top of a stack; its children take its place. -/
def nextBelow (t : Tree) : List NodeId → Option (NodeId × List NodeId)
  | [] => none
  | n :: rest => some (n, t.children n ++ rest)

/-- The search for `a` from a cursor upward ends with an answer. -/
inductive Seeks (t : Tree) (a : NodeId) : Option NodeId → Bool → Prop
  | missed : Seeks t a none false
  | found : Seeks t a (some a) true
  | up {n : NodeId} {b : Bool} : n ≠ a → Seeks t a (t.parent? n) b → Seeks t a (some n) b

theorem Seeks.unique (h : t.Seeks a s b) (h' : t.Seeks a s b') : b' = b := by
  induction h with
  | missed =>
    cases h'
    rfl
  | found =>
    cases h' with
    | found => rfl
    | up hne => exact absurd rfl hne
  | up hne _ ih =>
    cases h' with
    | found => exact absurd rfl hne
    | up _ h' => exact ih h'

theorem Seeks.iff (h : t.Seeks a s b) : t.Seeks a s b' ↔ b' = b := ⟨h.unique, fun e => e ▸ h⟩

/-! ## Ends -/

theorem yields_children (h : Passes t.nextSibling? s ns none) (hns : ∀ n ∈ ns, t.has n = true) :
    Yields t.nextChild s ns := by
  induction ns generalizing s with
  | nil =>
    cases h
    exact .stop rfl
  | cons n ns ih =>
    obtain ⟨rfl, h⟩ := h
    cases hl : t.links? n with
    | none => cases (links?_eq_none.mp hl).symm.trans (hns n List.mem_cons_self)
    | some l =>
      have hgo : t.nextChild (some n) = some (n, t.nextSibling? n) := by
        simp only [nextChild, nextSibling?, hl, Option.bind_some, Option.map_some]
      exact .go hgo (ih h fun m hm => hns m (List.mem_cons_of_mem _ hm))

theorem yields_above (h : Passes t.parent? s ns none) : Yields t.nextAbove s ns := by
  induction ns generalizing s with
  | nil =>
    cases h
    exact .stop rfl
  | cons n ns ih =>
    obtain ⟨rfl, h⟩ := h
    exact .go rfl (ih h)

/-- On top of a stack the node gives its subtree first, whatever the rest gives then. -/
def ComesFirst (t : Tree) (n : NodeId) : Prop :=
  ∀ rest out, Yields t.nextBelow rest out → Yields t.nextBelow (n :: rest) (t.subtree n ++ out)

/-- A stack gives the subtrees of its nodes, one after the other. -/
theorem yields_stack {out : List NodeId} (hns : ∀ n ∈ ns, t.ComesFirst n) (h : Yields t.nextBelow rest out) :
    Yields t.nextBelow (ns ++ rest) (ns.flatMap t.subtree ++ out) := by
  induction ns with
  | nil => exact h
  | cons n ns ih =>
    have hrest := ih fun m hm => hns m (List.mem_cons_of_mem _ hm)
    have hall := hns n List.mem_cons_self _ _ hrest
    rwa [← List.append_assoc] at hall

theorem Sound.comesFirst (hs : t.Sound) (hn : t.has n = true) : t.ComesFirst n := by
  refine hs.downward_induction (fun n hn ih rest out h => ?_) n hn
  rw [hs.subtree_eq hn]
  exact .go rfl (yields_stack ih h)

theorem Sound.yields_below (hs : t.Sound) (hn : t.has n = true) : Yields t.nextBelow [n] (t.subtree n) := by
  simpa using hs.comesFirst hn [] [] (.stop rfl)

theorem seeks_above (h : Passes t.parent? s ns none) : t.Seeks a s (ns.contains a) := by
  induction ns generalizing s with
  | nil =>
    cases h
    exact .missed
  | cons n ns ih =>
    obtain ⟨rfl, h⟩ := h
    by_cases hna : n = a
    · subst hna
      rw [List.contains_cons, beq_self_eq_true, Bool.true_or]
      exact .found
    · rw [List.contains_cons, beq_eq_false_iff_ne.mpr (Ne.symm hna), Bool.false_or]
      exact .up hna (ih h)

/-! ## Agreement -/

/-- What the walks from `a` downward and from `n` upward have to do with each other. -/
structure Agrees (t : Tree) (a n : NodeId) : Prop where
  /-- The loops end, and just with what the walks give. -/
  children : ∀ ns, Yields t.nextChild (t.firstChild? a) ns ↔ ns = t.children a
  ancestors : ∀ ns, Yields t.nextAbove (t.parent? n) ns ↔ ns = t.ancestors n
  subtree : ∀ ns, Yields t.nextBelow [a] ns ↔ ns = t.subtree a
  contains : ∀ b, t.Seeks a (some n) b ↔ b = t.contains a n
  /-- A node comes first, then what lies under its children, child by child. -/
  preorder : t.subtree a = a :: (t.children a).flatMap t.subtree
  nodup : (t.subtree a).Nodup
  /-- The parent comes first, then its parent, and so on. -/
  chain : Passes t.parent? (t.parent? n) (t.ancestors n) none
  below : t.contains a n = true ↔ n ∈ t.subtree a
  above : t.contains a n = true ↔ a = n ∨ a ∈ t.ancestors n
  connected : t.isConnected n = true ↔ n ∈ t.subtree root

/-- However a tree is edited, every walk through it ends, and all of them agree. -/
theorem Reached.walks_agree (hr : t.Reached) (ha : t.has a = true) (hn : t.has n = true) : t.Agrees a n := by
  have hs := hr.sound
  have hup := hs.descends_ancestors hn
  have hlist := hs.lists_children ha
  have habove : t.contains a n = (n :: t.ancestors n).contains a := by
    rw [Tree.contains, List.contains_cons, Bool.beq_comm]
  exact {
    children := fun _ => (yields_children hlist.forward hlist.has).iff
    ancestors := fun _ => (yields_above hup.upward).iff
    subtree := fun _ => (hs.yields_below ha).iff
    contains := fun _ => by
      rw [habove]
      exact (seeks_above hup.line).iff
    preorder := hs.subtree_eq ha
    nodup := hs.nodup_subtree a
    chain := hup.upward
    below := contains_iff.trans (hs.mem_subtree ha).symm
    above := contains_iff.trans List.mem_cons
    connected := by
      rw [isConnected, hn, Bool.true_and, contains_iff, hs.mem_subtree hs.document.1] }

end Tree

/-- A list with two items, in a page of which the head was put under the body. -/
def shuffled : Page Unit Unit :=
  [.appendElement 3 "ul", .appendElement 4 "li", .appendElement 4 "li", .appendChild 3 2, .appendChild 4 5].foldl Edit.on
    (.new "" .browser)

/-- The first item came behind the other one. -/
theorem shuffled_walks : Yields shuffled.tree.nextBelow [4] [4, 6, 5] ∧ shuffled.tree.Seeks 4 (some 5) true ∧
    Yields shuffled.tree.nextAbove (shuffled.tree.parent? 5) [4, 3, 1, 0] := by
  have hr : shuffled.tree.Reached := Tree.kept_reached.edits (reached_new "" .browser) _
  have hagrees := hr.walks_agree (a := 4) (n := 5) (by decide) (by decide)
  exact ⟨(hagrees.subtree _).mpr (by decide), (hagrees.contains _).mpr (by decide),
    (hagrees.ancestors _).mpr (by decide)⟩

end Eventful.Page
