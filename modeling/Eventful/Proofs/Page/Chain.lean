import Eventful.Page.Tree

/-
  Eventful.Proofs.Page.Chain — the nodes that a link passes.

  A link of the nodes is read as a function. Where it leads depends only on what it is on
  the nodes that it passes (`Passes.congr`), and two chains that meet go on together
  (`Passes.unique`). Bending the last link of a chain makes it arrive elsewhere
  (`Passes.bend`); from that come taking a node out of a chain and putting one at its end.
-/

namespace Eventful.Page

variable {link link' : NodeId → Option NodeId} {s e e' : Option NodeId} {n x : NodeId} {ns ns' xs ys : List NodeId}

/-- From `s` the link passes the nodes in order and arrives at `e`. -/
def Passes (link : NodeId → Option NodeId) : Option NodeId → List NodeId → Option NodeId → Prop
  | s, [], e => s = e
  | s, n :: ns, e => s = some n ∧ Passes link (link n) ns e

theorem passes_append : Passes link s (xs ++ ys) e ↔ ∃ m, Passes link s xs m ∧ Passes link m ys e := by
  induction xs generalizing s with
  | nil => exact ⟨fun h => ⟨s, rfl, h⟩, fun ⟨_, hm, h⟩ => hm ▸ h⟩
  | cons x xs ih =>
    simp only [List.cons_append, Passes, ih]
    exact ⟨fun ⟨hs, m, h, h'⟩ => ⟨m, ⟨hs, h⟩, h'⟩, fun ⟨m, ⟨hs, h⟩, h'⟩ => ⟨hs, m, h, h'⟩⟩

/-- A node in the middle. -/
theorem passes_middle : Passes link s (xs ++ n :: ys) e ↔ Passes link s xs (some n) ∧ Passes link (link n) ys e := by
  rw [passes_append]
  exact ⟨fun ⟨_, h, hm, h'⟩ => ⟨hm ▸ h, h'⟩, fun ⟨h, h'⟩ => ⟨some n, h, rfl, h'⟩⟩

theorem Passes.congr (h : Passes link s ns e) (hl : ∀ n ∈ ns, link' n = link n) : Passes link' s ns e := by
  induction ns generalizing s with
  | nil => exact h
  | cons n ns ih =>
    refine ⟨h.1, ?_⟩
    rw [hl n List.mem_cons_self]
    exact ih h.2 fun m hm => hl m (List.mem_cons_of_mem _ hm)

theorem Passes.head (h : Passes link s ns none) : s = ns.head? := by
  cases ns with
  | nil => exact h
  | cons n ns => exact h.1

theorem Passes.unique (h : Passes link s ns none) (h' : Passes link s ns' none) : ns = ns' := by
  induction ns generalizing s ns' with
  | nil =>
    cases ns' with
    | nil => rfl
    | cons n' ns' => cases h.symm.trans h'.1
  | cons n ns ih =>
    cases ns' with
    | nil => cases h.1.symm.trans h'
    | cons n' ns' =>
      cases h.1.symm.trans h'.1
      rw [ih h.2 h'.2]

/-- What comes after a node is the chain from its link. -/
theorem Passes.after (h : Passes link s (xs ++ n :: ys) none) : Passes link (link n) ys none := (passes_middle.mp h).2

/-- Two chains that meet end alike. -/
theorem Passes.meet {s' : Option NodeId} (h : Passes link s xs none) (h' : Passes link s' ys none) (hx : n ∈ xs)
    (hy : n ∈ ys) : xs.getLast? = ys.getLast? := by
  obtain ⟨as, bs, rfl⟩ := List.append_of_mem hx
  obtain ⟨cs, ds, rfl⟩ := List.append_of_mem hy
  have hsame : bs = ds := h.after.unique h'.after
  rw [hsame, List.getLast?_append, List.getLast?_append, List.getLast?_cons, Option.some_or, Option.some_or]

/-- A chain ends at a node that leads nowhere. -/
theorem Passes.last (h : Passes link s ns none) (hn : n ∈ ns) (hl : link n = none) : ns.getLast? = some n := by
  obtain ⟨xs, ys, rfl⟩ := List.append_of_mem hn
  have hend : ys = [] := h.after.unique hl
  rw [hend, List.getLast?_concat]

/-- A walk comes to the end of a chain that is not too long. -/
theorem Passes.follow {limit : Nat} (h : Passes link s ns none) (hl : ns.length ≤ limit) :
    Tree.follow link limit s = ns := by
  induction ns generalizing s limit with
  | nil =>
    cases h
    cases limit <;> rfl
  | cons n ns ih =>
    cases h.1
    cases limit with
    | zero => exact absurd hl (Nat.not_succ_le_zero _)
    | succ limit => exact congrArg _ (ih h.2 (Nat.le_of_succ_le_succ hl))

/-- A node of a chain is where the chain begins or where a node's link leads. -/
theorem Passes.reached (h : Passes link s ns e) (hn : n ∈ ns) : s = some n ∨ ∃ x ∈ ns, link x = some n := by
  induction ns generalizing s with
  | nil => cases hn
  | cons x ns ih =>
    rcases List.mem_cons.mp hn with rfl | hn
    · exact .inl h.1
    · rcases ih h.2 hn with hx | ⟨y, hy, hlink⟩
      · exact .inr ⟨x, List.mem_cons_self, hx⟩
      · exact .inr ⟨y, List.mem_cons_of_mem _ hy, hlink⟩

/-- The last link of a chain is bent. -/
theorem Passes.bend (h : Passes link s xs e) (hd : xs.Nodup)
    (hl : ∀ x ∈ xs, link' x = if xs.getLast? = some x then e' else link x) :
    Passes link' (if xs.getLast? = none then e' else s) xs e' := by
  induction xs generalizing s with
  | nil => rfl
  | cons x xs ih =>
    obtain ⟨hx, hd⟩ := List.nodup_cons.mp hd
    rw [if_neg (by simp)]
    refine ⟨h.1, ?_⟩
    cases xs with
    | nil =>
      rw [hl x List.mem_cons_self]
      exact if_pos rfl
    | cons y ys =>
      rw [List.getLast?_cons_cons] at hl
      have hy : (y :: ys).getLast? ≠ some x := fun he => hx (List.mem_of_getLast? he)
      have hrest := ih h.2 hd fun z hz => hl z (List.mem_cons_of_mem _ hz)
      rw [if_neg (by simp)] at hrest
      rwa [hl x List.mem_cons_self, if_neg hy]

/-- A node is taken out of a chain. -/
theorem Passes.unlink (h : Passes link s (xs ++ n :: ys) none) (hd : (xs ++ n :: ys).Nodup)
    (hl : ∀ x, link' x = if x = n then none else if xs.getLast? = some x then link n else link x) :
    Passes link' (if xs.getLast? = none then link n else s) (xs ++ ys) none := by
  obtain ⟨hbefore, hafter⟩ := passes_middle.mp h
  obtain ⟨hdx, hdn, hne⟩ := List.nodup_append.mp hd
  obtain ⟨hn, -⟩ := List.nodup_cons.mp hdn
  refine passes_append.mpr ⟨link n, hbefore.bend hdx fun x hx => ?_, hafter.congr fun y hy => ?_⟩
  · rw [hl x, if_neg (hne x hx n List.mem_cons_self)]
  · have hlast : xs.getLast? ≠ some y := fun he =>
      hne y (List.mem_of_getLast? he) y (List.mem_cons_of_mem _ hy) rfl
    rw [hl y, if_neg (fun he : y = n => hn (he ▸ hy)), if_neg hlast]

/-- A node is put at the end of a chain. -/
theorem Passes.extend (h : Passes link s xs none) (hd : xs.Nodup) (hn : n ∉ xs)
    (hl : ∀ x, link' x = if xs.getLast? = some x then some n else if x = n then none else link x) :
    Passes link' (if xs.getLast? = none then some n else s) (xs ++ [n]) none := by
  refine passes_append.mpr ⟨some n, h.bend hd fun x hx => ?_, rfl, ?_⟩
  · rw [hl x, if_neg fun he : x = n => hn (he ▸ hx)]
  · rw [hl n, if_neg fun he => hn (List.mem_of_getLast? he), if_pos rfl]
    rfl

/-- If the link ends at `n`, chains become shorter. -/
theorem Passes.cut (h : Passes link s ns none) (hl : ∀ x, link' x = if x = n then none else link x) :
    ∃ ns', ns' <+: ns ∧ Passes link' s ns' none := by
  induction ns generalizing s with
  | nil => exact ⟨[], List.prefix_rfl, h⟩
  | cons x ns ih =>
    by_cases hx : x = n
    · refine ⟨[x], List.prefix_append [x] ns, h.1, ?_⟩
      rw [hl x, if_pos hx]
      rfl
    · obtain ⟨ns', hpre, hns'⟩ := ih h.2
      refine ⟨x :: ns', List.prefix_cons_inj x |>.mpr hpre, h.1, ?_⟩
      rwa [hl x, if_neg hx]

end Eventful.Page
