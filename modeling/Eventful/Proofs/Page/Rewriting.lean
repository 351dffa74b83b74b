import Eventful.Proofs.Page.Placing

/-
  Eventful.Proofs.Page.Rewriting — the children of a node are replaced by a text.

  Taking off children and hanging up a new one changes who the children of a node are and
  nothing else (`Confined`): of the other nodes the links stay, and so do the subtrees. So
  what a new text leaves is known link by link (`Rewritten`). Setting a text is never
  refused, and it reads back, except from a text: that has its own text, which stays and
  comes first (`Reached.setText_rewritten`, `relabelledText_appends`).
-/

namespace Eventful.Page.Tree

variable {t t' t'' : Tree} {n m p c x q : NodeId} {ns : List NodeId} {s : String} {content : Content}

/-! ## All links of a node -/

theorem links?_of_has (hn : t.has n = true) :
    t.links? n = some ⟨t.parent? n, t.firstChild? n, t.lastChild? n, t.previousSibling? n, t.nextSibling? n⟩ := by
  cases hl : t.links? n with
  | none => exact absurd (links?_eq_none.mp hl) (by rw [hn]; decide)
  | some l => simp only [parent?, firstChild?, lastChild?, previousSibling?, nextSibling?, hl, Option.bind_some]

theorem size_of_has {k : Nat} (h : ∀ x, t.has x = true ↔ x < k) : t.size = k := by
  have hlt : ∀ x, x < t.size ↔ x < k := fun x => has_iff.symm.trans (h x)
  exact Nat.le_antisymm (Nat.not_lt.mp fun hk => Nat.lt_irrefl _ ((hlt _).mp hk))
    (Nat.not_lt.mp fun hk => Nat.lt_irrefl _ ((hlt _).mpr hk))

/-! ## Edits confined to a list of children -/

/-- Nothing changes but who the children of `p` are. -/
structure Confined (t t' : Tree) (p : NodeId) : Prop where
  has : ∀ x, t.has x = true → t'.has x = true
  content : ∀ x, t.has x = true → t'.content? x = t.content? x
  /-- The other nodes hang where they hung, with the children that they had. -/
  links : ∀ x, t.has x = true → x ≠ p → t.parent? x ≠ some p → t'.links? x = t.links? x
  /-- So does `p`. -/
  hangs : t'.parent? p = t.parent? p ∧ t'.previousSibling? p = t.previousSibling? p ∧
    t'.nextSibling? p = t.nextSibling? p
  /-- A child of `p` keeps its own children. -/
  bears : ∀ c, t.parent? c = some p → t'.firstChild? c = t.firstChild? c ∧ t'.lastChild? c = t.lastChild? c
  /-- Nobody gets another parent than `p`. -/
  parents : ∀ x q, t'.parent? x = some q → q = p ∨ t.parent? x = some q

/-- A link of a node that is not concerned. -/
theorem Confined.read {read : Links → Option NodeId} (hc : t.Confined t' p) (hx : t.has x = true) (hne : x ≠ p)
    (hp : t.parent? x ≠ some p) : (t'.links? x).bind read = (t.links? x).bind read := by
  rw [hc.links x hx hne hp]

theorem Confined.refl (t : Tree) (p : NodeId) : t.Confined t p :=
  ⟨fun _ h => h, fun _ _ => rfl, fun _ _ _ _ => rfl, ⟨rfl, rfl, rfl⟩, fun _ _ => ⟨rfl, rfl⟩, fun _ _ => .inr⟩

theorem Sound.parent_ne (hs : t.Sound) (hp : t.parent? c = some p) : c ≠ p := fun e =>
  hs.not_under_child hp (e ▸ under_self t p)

theorem Confined.trans (hs : t.Sound) (h : t.Confined t' p) (h' : t'.Confined t'' p) : t.Confined t'' p where
  has x hx := h'.has x (h.has x hx)
  content x hx := (h'.content x (h.has x hx)).trans (h.content x hx)
  links x hx hne hp := by
    have hp' : t'.parent? x ≠ some p := by rwa [show t'.parent? x = t.parent? x from h.read hx hne hp]
    exact (h'.links x (h.has x hx) hne hp').trans (h.links x hx hne hp)
  hangs := ⟨h'.hangs.1.trans h.hangs.1, h'.hangs.2.1.trans h.hangs.2.1, h'.hangs.2.2.trans h.hangs.2.2⟩
  bears c hc := by
    by_cases hc' : t'.parent? c = some p
    · exact ⟨(h'.bears c hc').1.trans (h.bears c hc).1, (h'.bears c hc').2.trans (h.bears c hc).2⟩
    · have hhas := h.has c (has_of_link hc)
      have hne := hs.parent_ne hc
      exact ⟨Eq.trans (h'.read hhas hne hc') (h.bears c hc).1, Eq.trans (h'.read hhas hne hc') (h.bears c hc).2⟩
  parents x q hq := by
    rcases h'.parents x q hq with e | hq
    · exact .inl e
    · exact h.parents x q hq

/-- The other lists of children stay. -/
theorem Confined.children (hs : t.Sound) (hc : t.Confined t' p) (hm : t.has m = true) (hne : m ≠ p) :
    t'.children m = t.children m := by
  have hreads : t'.firstChild? m = t.firstChild? m ∧ t'.lastChild? m = t.lastChild? m := by
    by_cases hp : t.parent? m = some p
    · exact hc.bears m hp
    · exact ⟨hc.read hm hne hp, hc.read hm hne hp⟩
  have hsiblings : ∀ k ∈ t.children m,
      t'.previousSibling? k = t.previousSibling? k ∧ t'.nextSibling? k = t.nextSibling? k := by
    intro k hk
    have hkm := (hs.mem_children hm).mp hk
    by_cases e : k = p
    · exact e ▸ hc.hangs.2
    · have hkp : t.parent? k ≠ some p := fun h => hne (Option.some.inj (hkm.symm.trans h))
      exact ⟨hc.read (has_of_link hkm) e hkp, hc.read (has_of_link hkm) e hkp⟩
  have hparents : ∀ k, t'.parent? k = some m ↔ t.parent? k = some m := by
    refine fun k => ⟨fun h => (hc.parents k m h).resolve_left hne, fun h => ?_⟩
    by_cases e : k = p
    · subst e
      exact hc.hangs.1.trans h
    · have hkp : t.parent? k ≠ some p := fun h' => hne (Option.some.inj (h.symm.trans h'))
      exact Eq.trans (hc.read (has_of_link h) e hkp) h
  exact ((hs.lists_children hm).congr hreads.1 hreads.2 (fun k hk => (hsiblings k hk).2)
    (fun k hk => (hsiblings k hk).1) hparents).children

/-- What lies under a child stays as it is. -/
theorem Confined.subtree (hs : t.Sound) (hs' : t'.Sound) (hc : t.Confined t' p) (hp : t.parent? c = some p) :
    t'.subtree c = t.subtree c := by
  refine hs.subtree_congr hs' hc.has (has_of_link hp) fun m hm hcm => ?_
  exact hc.children hs hm fun e => hs.not_under_child hp (e ▸ hcm)

/-! ## Confined edits -/

theorem confined_detach (hs : t.Sound) (hp : t.parent? c = some p) : t.Confined (t.detach c) p := by
  have hcut := cut_detach hs hp
  have hcp := hs.parent_ne hp
  -- The siblings of a child are children of the same parent.
  have hbefore : ∀ {x}, t.parent? x ≠ some p → t.previousSibling? c ≠ some x := fun hx h => by
    obtain ⟨p', hc', hx'⟩ := hs.parent_of_previous h
    exact hx (hx'.trans (hc'.symm.trans hp))
  have hafter : ∀ {x}, t.parent? x ≠ some p → t.nextSibling? c ≠ some x := fun hx h => by
    obtain ⟨p', hc', hx'⟩ := hs.parent_of_next h
    exact hx (hx'.trans (hc'.symm.trans hp))
  have hself : t.parent? p ≠ some p := fun h => hs.parent_ne h rfl
  refine ⟨fun x hx => has_detach.trans hx, fun x _ => content?_detach, fun x hx hne hxp => ?_, ⟨?_, ?_, ?_⟩,
    fun k hk => ⟨?_, ?_⟩, fun x q hq => .inr ?_⟩
  · have hxc : x ≠ c := fun e => hxp (e ▸ hp)
    rw [links?_of_has hx, links?_of_has ((hcut.has x).trans hx), hcut.parent, hcut.first, hcut.last, hcut.next,
      hcut.previous, if_neg hxc, if_neg hxc, if_neg hxc, if_neg fun h => hne h.2, if_neg fun h => hne h.2,
      if_neg (hbefore hxp), if_neg (hafter hxp)]
  · rw [hcut.parent, if_neg hcp.symm]
  · rw [hcut.previous, if_neg hcp.symm, if_neg (hafter hself)]
  · rw [hcut.next, if_neg hcp.symm, if_neg (hbefore hself)]
  · rw [hcut.first, if_neg fun h => hs.parent_ne hk h.2]
  · rw [hcut.last, if_neg fun h => hs.parent_ne hk h.2]
  · rw [hcut.parent] at hq
    split at hq
    · cases hq
    · exact hq

theorem confined_detachAll (hs : t.Sound) (hns : ∀ c ∈ ns, t.parent? c = some p) :
    t.Confined (ns.foldl Tree.detach t) p := by
  -- A child that is still to come may have been taken off before, and is then left alone.
  have hall : ∀ t', t'.Sound → t.Confined t' p → (∀ c ∈ ns, t.parent? c = some p) →
      t.Confined (ns.foldl Tree.detach t') p := by
    induction ns with
    | nil => exact fun t' _ h _ => h
    | cons c ns ih =>
      intro t' hs' h hns
      refine ih (fun c hc => hns c (List.mem_cons_of_mem _ hc)) _ (hs'.detach c) ?_
        fun c hc => hns c (List.mem_cons_of_mem _ hc)
      cases hc : t'.parent? c with
      | none =>
        rw [detach_top hc]
        exact h
      | some q =>
        have hq : q = p := by
          rcases h.parents c q hc with e | hq
          · exact e
          · exact Option.some.inj (hq.symm.trans (hns c List.mem_cons_self))
        exact h.trans hs (confined_detach hs' (hq ▸ hc))
  exact hall t hs (.refl t p) hns

theorem children_detachAll (hs : t.Sound) (q : NodeId) :
    (ns.foldl Tree.detach t).children q = (t.children q).filter (· ∉ ns) := by
  induction ns generalizing t with
  | nil => simp
  | cons c ns ih =>
    rw [List.foldl_cons, ih (hs.detach c), hs.children_detached, List.filter_filter]
    refine List.filter_congr fun m _ => ?_
    rw [Bool.eq_iff_iff]
    simp [not_or, and_comm]

/-- A node that is made is in nobody's list. -/
theorem Sound.children_add (hs : t.Sound) (hp : t.has p = true) (content : Content) :
    (t.add content).2.children p = t.children p := by
  have hg := grown_add t content
  refine ((hs.lists_children hp).congr (hg.reads rfl) (hg.reads rfl) (fun _ _ => hg.reads rfl)
    (fun _ _ => hg.reads rfl) fun x => ?_).children
  rw [show (t.add content).2.parent? x = t.parent? x from hg.reads rfl]

theorem links?_added (t : Tree) (content : Content) : (t.add content).2.links? (t.add content).1 = some .alone := by
  rw [(grown_add t content).links, if_pos rfl]

theorem parent?_added (t : Tree) (content : Content) : (t.add content).2.parent? (t.add content).1 = none := by
  rw [parent?, links?_added]
  rfl

/-- A new node can be hung up anywhere. -/
theorem Sound.hung_added (hs : t.Sound) (hp : t.has p = true) (content : Content) :
    Hung (t.add content).2 ((t.add content).2.link p (t.add content).1) p (t.add content).1 :=
  have hg := grown_add t content
  hung_link (hs.add content) ((hg.has p).mpr (.inl hp)) ((hg.has _).mpr (.inr rfl))

/-- A new node comes after the last child. -/
theorem confined_append (hs : t.Sound) (hp : t.has p = true) (content : Content) :
    t.Confined ((t.add content).2.link p (t.add content).1) p := by
  have hg := grown_add t content
  have hs' := hs.add content
  have hp' : (t.add content).2.has p = true := (hg.has p).mpr (.inl hp)
  have hh := hs.hung_added hp content
  have hold : ∀ {x}, t.has x = true → x ≠ (t.add content).1 := fun hx e => hg.fresh (e ▸ hx)
  have hreads : ∀ {read : Links → Option NodeId} {x}, read .alone = none →
      ((t.add content).2.links? x).bind read = (t.links? x).bind read := fun ha => hg.reads ha
  have hlast : ∀ {x}, t.parent? x ≠ some p → (t.add content).2.lastChild? p ≠ some x := fun hx h =>
    hx (Eq.trans (hreads rfl).symm (hs'.parent_of_last hp' h))
  refine ⟨fun x hx => ?_, fun x hx => ?_, fun x hx hne hxp => ?_, ⟨?_, ?_, ?_⟩, fun c hc => ⟨?_, ?_⟩, fun x q hq => ?_⟩
  · rw [hh.has]
    exact (hg.has x).mpr (.inl hx)
  · rw [content?_link, content?_add, if_neg (hold hx)]
  · rw [links?_of_has ((hh.has x).trans ((hg.has x).mpr (.inl hx))), links?_of_has hx, hh.parent, hh.first, hh.last,
      hh.next, hh.previous, if_neg (hold hx), if_neg (hold hx), if_neg (hold hx), if_neg (hlast hxp), if_neg hne,
      if_neg fun h => hne h.2]
    congr 2
    · exact hreads rfl
    · exact hreads rfl
    · exact hreads rfl
    · exact hreads rfl
    · exact hreads rfl
  · rw [hh.parent, if_neg (hold hp)]
    exact hreads rfl
  · rw [hh.previous, if_neg (hold hp)]
    exact hreads rfl
  · rw [hh.next, if_neg (hold hp), if_neg (hlast fun h => hs.parent_ne h rfl)]
    exact hreads rfl
  · rw [hh.first, if_neg fun h => hs.parent_ne hc h.2]
    exact hreads rfl
  · rw [hh.last, if_neg (hs.parent_ne hc)]
    exact hreads rfl
  · rw [hh.parent] at hq
    split at hq
    · exact .inl (Option.some.inj hq).symm
    · exact .inr (Eq.trans (hreads rfl).symm hq)

/-! ## Replacing the children by a text -/

/-- What replacing the children of `n` by the text `s` does. -/
structure Rewritten (t t' : Tree) (n : NodeId) (s : String) : Prop where
  /-- The text reads back. A text keeps its own text, which comes first. -/
  text : t'.textContent n = match t.content? n with
    | some (.text own) => own ++ s
    | _ => s
  children : t'.children n = if s = "" then [] else [t.size]
  /-- The text is a new node, the only child; no text makes no node. -/
  fresh : s ≠ "" → t'.content? t.size = some (.text s) ∧ t'.links? t.size = some { Links.alone with parent := some n }
  size : t'.size = if s = "" then t.size else t.size + 1
  /-- The former children hang nowhere, and keep their own children. -/
  freed : ∀ c ∈ t.children n,
    t'.links? c = (t.links? c).map fun l => { l with parent := none, previous := none, next := none }
  /-- What lay under them lies under them still, and hangs as it did. -/
  below : ∀ c ∈ t.children n, t'.subtree c = t.subtree c ∧ ∀ m ∈ t.subtree c, m ≠ c → t'.links? m = t.links? m
  /-- The node itself hangs where it hung. -/
  hangs : t'.parent? n = t.parent? n ∧ t'.previousSibling? n = t.previousSibling? n ∧
    t'.nextSibling? n = t.nextSibling? n
  /-- All other nodes hang where they hung, with the children that they had. -/
  others : ∀ x, t.has x = true → x ≠ n → x ∉ t.children n → t'.links? x = t.links? x
  /-- No node that was there holds anything else. -/
  content : ∀ x, t.has x = true → t'.content? x = t.content? x

/-- The tree without the children of `n`. -/
def bared (t : Tree) (n : NodeId) : Tree := (t.children n).foldl Tree.detach t

theorem Sound.bared (hs : t.Sound) (n : NodeId) : (t.bared n).Sound := kept_sound.detachAll hs _

theorem confined_bared (hs : t.Sound) (hn : t.has n = true) : t.Confined (t.bared n) n :=
  confined_detachAll hs fun _ hc => (hs.mem_children hn).mp hc

theorem children_bared (hs : t.Sound) (n : NodeId) : (t.bared n).children n = [] := by
  rw [Tree.bared, children_detachAll hs]
  exact List.filter_eq_nil_iff.mpr fun c hc => by simpa using hc

theorem size_bared (t : Tree) (n : NodeId) : (t.bared n).size = t.size := by
  refine size_of_has fun x => ?_
  rw [← has_iff, Tree.bared]
  generalize t.children n = ns
  induction ns generalizing t with
  | nil => rfl
  | cons c ns ih => rw [List.foldl_cons, ih, has_detach]

/-- The tree with the text `s` under `n`, whose children are gone. -/
def rewrite (t : Tree) (n : NodeId) (s : String) : Tree :=
  if s = "" then t.bared n else ((t.bared n).add (.text s)).2.link n ((t.bared n).add (.text s)).1

/-- A new text can be put under any node. -/
theorem setText_eq (hs : t.Sound) (hn : t.has n = true) (s : String) : t.setText n s = .ok (t.rewrite n s) := by
  have hn' := (confined_bared hs hn).has n hn
  unfold Tree.setText rewrite
  rw [if_pos hn]
  by_cases he : s = ""
  · simp only [he, beq_self_eq_true, if_true, Tree.bared]
  · rw [if_neg he]
    obtain ⟨t', h⟩ := (hs.bared n).appendChild_new hn' (.text s)
    obtain ⟨-, -, -, -, ht'⟩ := appendChild_ok h
    rw [detach_top (parent?_added _ _)] at ht'
    simp only [beq_eq_false_iff_ne.mpr he, Bool.false_eq_true, if_false]
    exact h.trans (congrArg Except.ok ht')

theorem confined_rewrite (hs : t.Sound) (hn : t.has n = true) (s : String) : t.Confined (t.rewrite n s) n := by
  have hb := confined_bared hs hn
  unfold rewrite
  split
  · exact hb
  · exact hb.trans hs (confined_append (hs.bared n) (hb.has n hn) _)

theorem Sound.rewrite (hs : t.Sound) (hn : t.has n = true) (s : String) : (t.rewrite n s).Sound :=
  kept_sound.setText hs (setText_eq hs hn s)

/-- The node has no child then, or the text alone. -/
theorem children_rewrite (hs : t.Sound) (hn : t.has n = true) (s : String) :
    (t.rewrite n s).children n = if s = "" then [] else [t.size] := by
  have hn' := (confined_bared hs hn).has n hn
  have hg := grown_add (t.bared n) (.text s)
  unfold Tree.rewrite
  split
  · exact children_bared hs n
  · rw [((hs.bared n).add _).children_link ((hg.has n).mpr (.inl hn')) ((hg.has _).mpr (.inr rfl)) (parent?_added _ _),
      if_pos rfl, (hs.bared n).children_add hn', children_bared hs, ← size_bared t n]
    rfl

/-- The new text hangs under the node, with nothing around it. -/
theorem added_rewrite (hs : t.Sound) (hn : t.has n = true) (hne : s ≠ "") :
    (t.rewrite n s).content? t.size = some (.text s) ∧
      (t.rewrite n s).links? t.size = some { Links.alone with parent := some n } := by
  have hb := hs.bared n
  have hn' := (confined_bared hs hn).has n hn
  have hg := grown_add (t.bared n) (.text s)
  have hnew : ((t.bared n).add (.text s)).2.has ((t.bared n).add (.text s)).1 = true := (hg.has _).mpr (.inr rfl)
  have hh := hb.hung_added hn' (.text s)
  have hnone : ((t.bared n).add (.text s)).2.lastChild? n = none := by
    refine Eq.trans (hg.reads rfl) ((hb.lists_children hn').lastChild?.trans ?_)
    rw [children_bared hs]
    rfl
  have hne' : ((t.bared n).add (.text s)).1 ≠ n := fun e => hg.fresh (by rw [e]; exact hn')
  have hread : ∀ {read : Links → Option NodeId}, read .alone = none →
      (((t.bared n).add (.text s)).2.links? ((t.bared n).add (.text s)).1).bind read = none := by
    intro read ha
    rw [links?_added]
    exact ha
  rw [rewrite, if_neg hne, ← size_bared t n]
  constructor
  · exact content?_link.trans (content?_add.trans (if_pos rfl))
  · rw [show (t.bared n).size = ((t.bared n).add (.text s)).1 from rfl, links?_of_has ((hh.has _).trans hnew), hh.parent,
      hh.first, hh.last, hh.next, hh.previous, hnone, if_pos rfl, if_pos rfl, if_pos rfl, if_neg hne',
      if_neg fun h => hne' h.2, if_neg fun h => (by cases h), show Tree.firstChild? _ _ = none from hread rfl,
      show Tree.lastChild? _ _ = none from hread rfl]
    rfl

theorem size_rewrite (hs : t.Sound) (hn : t.has n = true) (s : String) :
    (t.rewrite n s).size = if s = "" then t.size else t.size + 1 := by
  have hn' := (confined_bared hs hn).has n hn
  have hg := grown_add (t.bared n) (.text s)
  unfold rewrite
  split
  · exact size_bared t n
  · have hnew : ((t.bared n).add (.text s)).1 = t.size := size_bared t n
    refine size_of_has fun x => ?_
    rw [((hs.bared n).hung_added hn' _).has, hg.has, has_iff, size_bared, hnew]
    exact Nat.lt_succ_iff_lt_or_eq.symm

theorem subtree_rewrite (hs : t.Sound) (hn : t.has n = true) (s : String) :
    (t.rewrite n s).subtree n = if s = "" then [n] else [n, t.size] := by
  have hs' := hs.rewrite hn s
  rw [hs'.subtree_eq ((confined_rewrite hs hn s).has n hn), children_rewrite hs hn]
  split
  · rfl
  · rename_i hne
    have hnew : (t.rewrite n s).has t.size = true := by
      rw [has_iff, size_rewrite hs hn, if_neg hne]
      exact Nat.lt_succ_self _
    have hleaf : (t.rewrite n s).children t.size = [] := children_leaf <| by
      rw [firstChild?, (added_rewrite hs hn hne).2]
      rfl
    rw [List.flatMap_singleton, hs'.subtree_eq hnew, hleaf, List.flatMap_nil]

/-- The node's own text, if it is one, and then the new one. -/
theorem textContent_rewrite (hs : t.Sound) (hn : t.has n = true) (s : String) :
    (t.rewrite n s).textContent n = match t.content? n with
      | some (.text own) => own ++ s
      | _ => s := by
  have hown := (confined_rewrite hs hn s).content n hn
  have hnew : s ≠ "" → ((t.rewrite n s).content? t.size).bind Content.text? = some s := fun hne => by
    rw [(added_rewrite hs hn hne).1]
    rfl
  have hjoin : (t.rewrite n s).textContent n = ((t.content? n).bind Content.text?).getD "" ++ s := by
    rw [textContent, subtree_rewrite hs hn, ← hown]
    split
    · rename_i he
      subst he
      cases hf : ((t.rewrite n "").content? n).bind Content.text? <;> simp [hf, String.join]
    · rename_i hne
      cases hf : ((t.rewrite n s).content? n).bind Content.text? <;> simp [hf, hnew hne, String.join]
  rw [hjoin]
  cases hc : t.content? n with
  | none => exact String.empty_append
  | some c =>
    cases c with
    | text own => rfl
    | document | element e | comment own => exact String.empty_append

/-! ## Main result -/

/-- Setting the text of a node that exists is never refused, and what it does is known. -/
theorem Reached.setText_rewritten (hr : t.Reached) (hn : t.has n = true) (s : String) :
    ∃ t', t.setText n s = .ok t' ∧ t.Rewritten t' n s := by
  have hs := hr.sound
  have hs' := hs.rewrite hn s
  have hc := confined_rewrite hs hn s
  have hchild : ∀ {c}, c ∈ t.children n ↔ t.parent? c = some n := hs.mem_children hn
  refine ⟨_, setText_eq hs hn s, ?_⟩
  refine ⟨textContent_rewrite hs hn s, children_rewrite hs hn s, added_rewrite hs hn, size_rewrite hs hn s,
    fun c hcn => ?_, fun c hcn => ⟨?_, fun m hm hne => ?_⟩, hc.hangs, fun x hx hne hxn => ?_, hc.content⟩
  · have hp := hchild.mp hcn
    have hhas := has_of_link hp
    -- Only the new text has the node as its parent.
    have hfree : (t.rewrite n s).parent? c = none := by
      cases hq : (t.rewrite n s).parent? c with
      | none => rfl
      | some q =>
        have hqn : q = n := (hc.parents c q hq).elim id fun h => Option.some.inj (h.symm.trans hp)
        have hmem := (hs'.mem_children (hc.has n hn)).mpr (hqn ▸ hq)
        rw [children_rewrite hs hn] at hmem
        split at hmem
        · cases hmem
        · rw [List.mem_singleton.mp hmem] at hhas
          exact absurd (has_iff.mp hhas) (Nat.lt_irrefl _)
    obtain ⟨hprevious, hnext⟩ := hs'.alone hfree
    obtain ⟨hfirst, hlast⟩ := hc.bears c hp
    rw [links?_of_has (hc.has c hhas), links?_of_has hhas, hfree, hprevious, hnext, hfirst, hlast]
    rfl
  · exact hc.subtree hs hs' (hchild.mp hcn)
  · have hp := hchild.mp hcn
    have hcm := (hs.mem_subtree (has_of_link hp)).mp hm
    refine hc.links m (has_of_under (has_of_link hp) hcm) (fun e => hs.not_under_child hp (e ▸ hcm)) fun hmp => hne ?_
    exact (hs.child_unique hp hmp hcm (under_self t m)).symm
  · exact hc.links x hx hne fun h => hxn (hchild.mpr h)

/-- A list with an item that holds a text and one that holds nothing. -/
def listed : Tree :=
  let t := (empty.appendElement root "ul").2
  let t := (t.appendElement 1 "li").2
  let t := (t.setText 2 "7").toOption.getD t
  (t.appendElement 1 "li").2

theorem reached_listed : listed.Reached := by
  have hlist := kept_reached.appendElement .empty root "ul"
  have hitem := kept_reached.appendElement hlist 1 "li"
  exact kept_reached.appendElement (of_getD hitem fun _ h => kept_reached.setText hitem h) 1 "li"

/-- Both items come off the list, and the first keeps its text. -/
theorem emptiedList_rewritten : listed.Reached ∧ listed.has 1 = true ∧
    (∃ t', listed.setText 1 "none" = .ok t' ∧ listed.Rewritten t' 1 "none") ∧
    (listed.setText 1 "none").toOption.map (fun t => (t.textContent 1, t.children 1, t.textContent 2)) =
      some ("none", [5], "7") :=
  ⟨reached_listed, by decide, reached_listed.setText_rewritten (by decide) "none", rfl⟩

/-- A text has no children to replace, and what it says stays: its new text does not read back. -/
theorem relabelledText_appends : ¬∀ (t : Tree) (n : NodeId) (s : String), t.Reached → t.has n = true →
    ∃ t', t.setText n s = .ok t' ∧ t'.textContent n = s := by
  intro h
  obtain ⟨t', ht', htext⟩ := h (empty.createText "a").2 1 "b" (.createText "a" .empty) rfl
  have hboth : ((empty.createText "a").2.setText 1 "b").map (·.textContent 1) = .ok "ab" := rfl
  rw [ht'] at hboth
  exact absurd (htext.symm.trans (Except.ok.inj hboth)) (by decide)

end Eventful.Page.Tree
