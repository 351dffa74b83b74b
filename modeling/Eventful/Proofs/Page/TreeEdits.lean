import Eventful.Page.Basic
import Eventful.Proofs.Page.Relinking

/-
  Eventful.Proofs.Page.TreeEdits — edits keep a tree sound.

  An edit detaches, links, makes nodes or changes what they hold; a refused one leaves the
  tree alone or leaves one new node by itself. The ancestors that an append looks at are
  what keeps a node from going under itself.
-/

namespace Eventful.Page.Tree

variable {t t' : Tree} {n p x : NodeId} {as : List NodeId}

/-! ## Edits -/

theorem sound_empty : empty.Sound := by
  have hhas : ∀ {x}, empty.has x = true ↔ x = root := by
    intro x
    rw [has_iff]
    exact Nat.lt_one_iff
  have hread : ∀ {read : Links → Option NodeId} {x}, read .alone = none → (empty.links? x).bind read = none := by
    intro read x ha
    by_cases hx : x = root
    · subst hx
      exact ha
    · rw [links?_eq_none.mpr ((Bool.not_eq_true _).mp fun h => hx (hhas.mp h))]
      rfl
  refine ⟨⟨rfl, rfl⟩, fun h => ?_, fun _ => ⟨[], hread rfl, hread rfl, List.nodup_nil, fun x => ⟨fun h => ?_, fun h => ?_⟩⟩,
    fun _ => ⟨hread rfl, hread rfl⟩, fun _ => ⟨[], hread rfl, List.nodup_singleton _⟩⟩
  · cases (hread rfl).symm.trans h
  · cases h
  · cases (hread rfl).symm.trans h

/-- Taking a node off makes no line of ancestors longer. -/
theorem descends_detach (hs : t.Sound) (hd : t.Descends x as) : ∃ as', as' <+: as ∧ (t.detach n).Descends x as' := by
  cases hp : t.parent? n with
  | none => exact ⟨as, List.prefix_rfl, by unfold detach; rwa [hp]⟩
  | some p => exact hd.cut (cut_detach hs hp)

theorem parent?_detach (hs : t.Sound) : (t.detach n).parent? n = none := by
  cases hp : t.parent? n with
  | none => unfold detach; rwa [hp]
  | some p => rw [(cut_detach hs hp).parent, if_pos rfl]

@[simp] theorem has_detach : (t.detach n).has x = t.has x := by
  unfold detach
  split <;> simp

theorem Sound.detach (hs : t.Sound) (n : NodeId) : (t.detach n).Sound := by
  cases hp : t.parent? n with
  | none => unfold Tree.detach; rwa [hp]
  | some p => exact hs.cut hp (cut_detach hs hp)

theorem Sound.add (hs : t.Sound) (c : Content) : (t.add c).2.Sound := hs.grown (grown_add t c)

/-- An append that is not refused. -/
theorem appendChild_ok (h : t.appendChild p n = .ok t') :
    t.has p = true ∧ t.has n = true ∧ n ≠ root ∧ n ∉ p :: t.ancestors p ∧ t' = (t.detach n).link p n := by
  unfold appendChild at h
  split at h
  · cases h
  · rename_i hp
    split at h
    · cases h
    · rename_i hn
      split at h
      · cases h
      · rename_i hno
        cases h
        have hno : ¬n = root ∧ ¬t.contains n p = true := by simpa using hno
        exact ⟨by simpa using hp, by simpa using hn, hno.1, fun hu => hno.2 (mem_line_of_contains.mpr hu), rfl⟩

theorem has_appendChild (h : t.appendChild p n = .ok t') : t'.has x = t.has x := by
  obtain ⟨-, -, -, -, rfl⟩ := appendChild_ok h
  simp [link]

theorem has_removeChild (h : t.removeChild n = .ok t') : t'.has x = t.has x := by
  unfold Tree.removeChild at h
  split at h
  · cases h
    exact has_detach
  · cases h

theorem Sound.appendChild (hs : t.Sound) (h : t.appendChild p n = .ok t') : t'.Sound := by
  obtain ⟨hp, hn, hroot, hunder, rfl⟩ := appendChild_ok h
  obtain ⟨as, hpre, hd⟩ := descends_detach (n := n) hs (hs.descends_ancestors hp)
  have hhung := hung_link (hs.detach n) (p := p) (n := n) (by simpa using hp) (by simpa using hn)
  refine (hs.detach n).hung hroot (parent?_detach hs) (by simpa using hp) hd (fun hm => hunder ?_) hhung
  rcases List.mem_cons.mp hm with e | hm
  · exact e ▸ List.mem_cons_self
  · exact List.mem_cons_of_mem _ (hpre.subset hm)

theorem Sound.removeChild (hs : t.Sound) (h : t.removeChild n = .ok t') : t'.Sound := by
  unfold Tree.removeChild at h
  split at h
  · cases h
    exact hs.detach n
  · cases h

/-! ## What edits keep -/

/-- A property that the edits keep of which all others are made. -/
structure Kept (P : Tree → Prop) : Prop where
  createElement : ∀ {t}, P t → ∀ tag, P (t.createElement tag).2
  createText : ∀ {t}, P t → ∀ s, P (t.createText s).2
  appendChild : ∀ {t t' p n}, P t → t.appendChild p n = .ok t' → P t'
  removeChild : ∀ {t t' n}, P t → t.removeChild n = .ok t' → P t'

theorem kept_sound : Kept Sound where
  createElement hs _ := hs.add _
  createText hs _ := hs.add _
  appendChild := Sound.appendChild
  removeChild := Sound.removeChild

section

variable {P : Tree → Prop}

theorem Kept.detach (hk : Kept P) (ht : P t) (n : NodeId) : P (t.detach n) := by
  cases hn : t.has n with
  | true =>
    refine hk.removeChild (n := n) ht ?_
    unfold Tree.removeChild
    rw [if_pos hn]
  | false =>
    have hp : t.parent? n = none := by
      rw [parent?, links?_eq_none.mpr hn]
      rfl
    have hsame : t.detach n = t := by
      unfold Tree.detach
      rw [hp]
    rw [hsame]
    exact ht

theorem Kept.detachAll (hk : Kept P) (ht : P t) (ns : List NodeId) : P (ns.foldl Tree.detach t) := by
  induction ns generalizing t with
  | nil => exact ht
  | cons n ns ih => exact ih (hk.detach ht n)

theorem Kept.setText {s : String} (hk : Kept P) (ht : P t) (h : t.setText n s = .ok t') : P t' := by
  have hbare := hk.detachAll ht (t.children n)
  unfold Tree.setText at h
  split at h
  · dsimp only at h
    split at h
    · cases h
      exact hbare
    · exact hk.appendChild (hk.createText hbare s) h
  · cases h

theorem Kept.appendElement (hk : Kept P) (ht : P t) (p : NodeId) (tag : String) : P (t.appendElement p tag).2 := by
  have hnew := hk.createElement ht tag
  unfold Tree.appendElement
  dsimp only
  split
  · exact hnew
  · rename_i h
    exact hk.appendChild hnew h

end

/-! ## Edits that succeed -/

/-- A new node can be put under any other. -/
theorem Sound.appendChild_new (hs : t.Sound) (hp : t.has p = true) (c : Content) :
    ∃ t', (t.add c).2.appendChild p (t.add c).1 = .ok t' := by
  have hg := grown_add t c
  have hs' := hs.add c
  have hp' := (hg.has p).mpr (.inl hp)
  have hn := (hg.has _).mpr (.inr rfl)
  have hroot : (t.add c).1 ≠ root := fun e => hg.fresh (by rw [e]; exact hs.document.1)
  obtain ⟨as, hd⟩ := hs.descends hp
  have hunder : ¬(t.add c).2.contains (t.add c).1 p = true := by
    rw [mem_line_of_contains, (hd.grown hg).ancestors hs']
    intro hm
    rcases List.mem_cons.mp hm with e | hm
    · exact hg.fresh (e ▸ hp)
    · exact hg.fresh (hd.has hs _ hm)
  unfold Tree.appendChild
  rw [hp', hn, (Bool.not_eq_true _).mp hunder, beq_false_of_ne hroot]
  exact ⟨_, rfl⟩

/-! ## Content -/

/-- Soundness is a matter of the links. -/
theorem Sound.congr (hs : t.Sound) (h : t'.links? = t.links?) : t'.Sound := by
  have hread : ∀ {read : Links → Option NodeId} {x}, (t'.links? x).bind read = (t.links? x).bind read := by
    intro read x
    rw [h]
  have hhas : ∀ {x}, t'.has x = t.has x := by
    intro x
    rw [Bool.eq_iff_iff, ← Bool.not_eq_false, ← Bool.not_eq_false, ← links?_eq_none, ← links?_eq_none, h]
  refine ⟨?_, fun hp => ?_, fun hp => ?_, fun hp => ?_, fun hx => ?_⟩
  · exact ⟨hhas.trans hs.document.1, Eq.trans hread hs.document.2⟩
  · exact hhas.trans (hs.parents (Eq.trans hread.symm hp))
  · obtain ⟨ns, hl⟩ := hs.lists (hhas.symm.trans hp)
    refine ⟨ns, hl.congr hread hread (fun _ _ => hread) (fun _ _ => hread) fun x => ?_⟩
    rw [show t'.parent? x = t.parent? x from hread]
  · obtain ⟨hprevious, hnext⟩ := hs.alone (Eq.trans hread.symm hp)
    exact ⟨Eq.trans hread hprevious, Eq.trans hread hnext⟩
  · obtain ⟨as, hd⟩ := hs.descends (hhas.symm.trans hx)
    refine ⟨as, ?_, hd.nodup⟩
    rw [show t'.parent? _ = t.parent? _ from hread]
    exact hd.upward.congr fun _ _ => hread

theorem links?_setContent (c : Content) : (t.setContent n c).links? = t.links? := by
  funext x
  simp only [links?, get?, setContent, update, List.getElem?_modify]
  split
  · simp only [Option.map_eq_map, Option.map_map, Function.comp_def]
  · simp only [Option.map_eq_map, Option.map_id']

theorem has_setContent {c : Content} : (t.setContent n c).has x = t.has x := by
  rw [Bool.eq_iff_iff, has_iff, has_iff]
  simp [size, setContent, update]

theorem Sound.setContent (hs : t.Sound) (n : NodeId) (c : Content) : (t.setContent n c).Sound :=
  hs.congr (links?_setContent c)

theorem Sound.editElement {f : Element → Element} (hs : t.Sound) (h : t.editElement n f = .ok t') : t'.Sound := by
  unfold Tree.editElement at h
  split at h
  · cases h
  · cases h
    exact hs.setContent n _
  · cases h

end Eventful.Page.Tree

namespace Eventful.Page

variable {κ ω : Type} {p p' : Page κ ω} {n : NodeId} {ns : List NodeId}

/-! ## Pages -/

/-- Removing a node from the page takes it off its parent. -/
theorem removeNode_tree (h : p.removeNode n = .ok (ns, p')) : p.tree.removeChild n = .ok p'.tree := by
  unfold removeNode at h
  cases ht : p.tree.removeChild n with
  | error e => rw [ht] at h; cases h
  | ok t =>
    rw [ht] at h
    cases h
    rfl

/-- What an element holds does not change the way of an event. -/
theorem way_mapElement (p : Page κ ω) (n : NodeId) (f : Element → Element) :
    ({ p with tree := p.tree.mapElement n f } : Page κ ω).way = p.way := by
  unfold Tree.mapElement
  split
  · rename_i e _
    have hparent : (p.tree.setContent n (.element (f e))).parent? = p.tree.parent? := by
      funext x
      exact congrArg (Option.bind · Links.parent) (congrFun (Tree.links?_setContent (.element (f e))) x)
    have hsize : (p.tree.setContent n (.element (f e))).size = p.tree.size := List.length_modify _ _ _
    funext target
    unfold way Tree.isConnected Tree.contains Tree.has Tree.ancestors
    simp only [hparent, hsize]
  · rfl

/-- The edits that make, move and remove nodes. -/
inductive Edit where
  | createElement (tag : String)
  | createText (s : String)
  | appendChild (parent child : NodeId)
  | appendElement (parent : NodeId) (tag : String)
  | removeChild (n : NodeId)
  | removeNode (n : NodeId)
  | setText (n : NodeId) (s : String)

/-- The page after an edit, whether that succeeded or failed. -/
def Edit.on (p : Page κ ω) : Edit → Page κ ω
  | .createElement tag => { p with tree := (p.tree.createElement tag).2 }
  | .createText s => { p with tree := (p.tree.createText s).2 }
  | .appendChild parent child => { p with tree := (p.tree.appendChild parent child).toOption.getD p.tree }
  | .appendElement parent tag => { p with tree := (p.tree.appendElement parent tag).2 }
  | .removeChild n => { p with tree := (p.tree.removeChild n).toOption.getD p.tree }
  | .removeNode n => ((p.removeNode n).toOption.map (·.2)).getD p
  | .setText n s => { p with tree := (p.tree.setText n s).toOption.getD p.tree }

/-- A refused edit leaves the tree alone. -/
theorem of_getD {P : Tree → Prop} {t : Tree} {r : Except TreeError Tree} (ht : P t) (hr : ∀ t', r = .ok t' → P t') :
    P (r.toOption.getD t) := by
  cases r with
  | error e => exact ht
  | ok t' => exact hr t' rfl

theorem Tree.Kept.on {P : Tree → Prop} (hk : Kept P) (hp : P p.tree) (e : Edit) : P (e.on p).tree := by
  cases e with
  | createElement tag => exact hk.createElement hp tag
  | createText s => exact hk.createText hp s
  | appendChild parent child => exact of_getD hp fun _ h => hk.appendChild hp h
  | appendElement parent tag => exact hk.appendElement hp parent tag
  | removeChild n => exact of_getD hp fun _ h => hk.removeChild hp h
  | removeNode n =>
    show P (((p.removeNode n).toOption.map (·.2)).getD p).tree
    cases h : p.removeNode n with
    | error e => exact hp
    | ok r => exact hk.removeChild hp (removeNode_tree h)
  | setText n s => exact of_getD hp fun _ h => hk.setText hp h

theorem Tree.Kept.edits {P : Tree → Prop} (hk : Kept P) (hp : P p.tree) (es : List Edit) :
    P (es.foldl Edit.on p).tree := by
  induction es generalizing p with
  | nil => exact hp
  | cons e es ih => exact ih (hk.on hp e)

theorem sound_edits (hs : p.tree.Sound) (es : List Edit) : (es.foldl Edit.on p).tree.Sound := Tree.kept_sound.edits hs es

end Eventful.Page
