import Eventful.Proofs.Page.Attributes
import Eventful.Proofs.Page.TreeEdits

/-
  Eventful.Proofs.Page.Reached — the trees that edits come to.

  A tree is `Reached` if it comes of a document node by itself by edits: nodes are made,
  appended and removed, and what they hold is changed. The other edits are made of these
  (`kept_reached`), and a new page is one of those trees (`reached_new`). In such a tree
  the links fit together (`Reached.sound`), and every element is in order
  (`Reached.element`): moving nodes changes nothing that they hold.
-/

namespace Eventful.Page.Tree

variable {t t' : Tree} {n m p x : NodeId} {c : Content} {e : Element}

/-! ## Content -/

theorem has_of_content (h : t.content? n = some c) : t.has n = true := by
  obtain ⟨x, hx, -⟩ := Option.map_eq_some_iff.mp h
  exact has_iff.mpr (List.getElem?_eq_some_iff.mp hx).1

theorem content?_relink {f : Links → Links} : (t.relink n f).content? x = t.content? x := by
  simp only [content?, get?, relink, update, List.getElem?_modify, Option.map_eq_map]
  split
  · simp only [Option.map_map, Function.comp_def]
  · simp only [Option.map_id']

theorem content?_setNext {before v : Option NodeId} : (t.setNext p before v).content? x = t.content? x := by
  unfold setNext; split <;> exact content?_relink

theorem content?_setPrevious {after v : Option NodeId} : (t.setPrevious p after v).content? x = t.content? x := by
  unfold setPrevious; split <;> exact content?_relink

theorem content?_detach : (t.detach n).content? x = t.content? x := by
  unfold Tree.detach
  split
  · rfl
  · exact content?_relink.trans (content?_setPrevious.trans content?_setNext)

theorem content?_link : (t.link p n).content? x = t.content? x := by
  unfold link
  exact content?_setPrevious.trans (content?_setNext.trans content?_relink)

theorem content?_add : (t.add c).2.content? x = if x = (t.add c).1 then some c else t.content? x := by
  rw [content?, get?_add]
  split <;> rfl

theorem content?_setContent :
    (t.setContent n c).content? x = if x = n then (t.content? x).map fun _ => c else t.content? x := by
  simp only [content?, get?, setContent, update, List.getElem?_modify, Option.map_eq_map]
  by_cases h : x = n
  · subst h
    simp only [if_true, Option.map_map, Function.comp_def]
  · simp only [if_neg h, if_neg (Ne.symm h), Option.map_id']

theorem content?_appendChild (h : t.appendChild p n = .ok t') : t'.content? x = t.content? x := by
  obtain ⟨-, -, -, -, rfl⟩ := appendChild_ok h
  exact content?_link.trans content?_detach

theorem content?_removeChild (h : t.removeChild n = .ok t') : t'.content? x = t.content? x := by
  unfold removeChild at h
  split at h
  · cases h
    exact content?_detach
  · cases h

theorem element?_eq_some : t.element? n = some e ↔ t.content? n = some (.element e) := by
  unfold element?
  rw [Option.bind_eq_some_iff]
  constructor
  · rintro ⟨c, hc, he⟩
    cases c with
    | element e' =>
      cases he
      exact hc
    | document | text s | comment s => cases he
  · exact fun h => ⟨_, h, rfl⟩

theorem editElement_of (f : Element → Element) (he : t.element? n = some e) :
    t.editElement n f = .ok (t.setContent n (.element (f e))) := by
  unfold editElement
  rw [element?_eq_some.mp he]

theorem editElement_ok {f : Element → Element} (h : t.editElement n f = .ok t') :
    ∃ e, t.element? n = some e ∧ t' = t.setContent n (.element (f e)) := by
  unfold editElement at h
  split at h
  · cases h
  · rename_i e he
    cases h
    exact ⟨e, element?_eq_some.mpr he, rfl⟩
  · cases h

theorem mapElement_of (f : Element → Element) (he : t.element? n = some e) :
    t.mapElement n f = t.setContent n (.element (f e)) := by
  unfold mapElement
  rw [he]

/-- An element that must exist is changed like one that may exist. -/
theorem mapElement_of_edit {f : Element → Element} (h : t.editElement n f = .ok t') : t.mapElement n f = t' := by
  obtain ⟨e, he, rfl⟩ := editElement_ok h
  exact mapElement_of f he

theorem removeAttr_ok {name : String} {old : Option String} (h : t.removeAttr n name = .ok (old, t')) :
    t.editElement n (fun e => (e.removeAttr name).2) = .ok t' := by
  unfold Tree.removeAttr at h
  cases he : t.editElement n fun e => (e.removeAttr name).2 with
  | error e =>
    rw [he] at h
    cases h
  | ok t₁ =>
    rw [he] at h
    cases h
    rfl

/-! ## Edits -/

/-- The trees that come of a document node by itself, however it is edited. -/
inductive Reached : Tree → Prop
  | empty : Reached .empty
  | createElement {t : Tree} (tag : String) : Reached t → Reached (t.createElement tag).2
  | createText {t : Tree} (s : String) : Reached t → Reached (t.createText s).2
  | makeComment {t : Tree} (n : NodeId) (s : String) : Reached t → Reached (t.setContent n (.comment s))
  | appendChild {t t' : Tree} {p n : NodeId} : Reached t → t.appendChild p n = .ok t' → Reached t'
  | removeChild {t t' : Tree} {n : NodeId} : Reached t → t.removeChild n = .ok t' → Reached t'
  | editElement {t t' : Tree} {n : NodeId} (ed : Element.Edit) :
      Reached t → t.editElement n ed.on = .ok t' → Reached t'

theorem Reached.sound (hr : t.Reached) : t.Sound := by
  induction hr with
  | empty => exact sound_empty
  | createElement tag _ ih => exact ih.add _
  | createText s _ ih => exact ih.add _
  | makeComment n s _ ih => exact ih.setContent n _
  | appendChild _ h ih => exact ih.appendChild h
  | removeChild _ h ih => exact ih.removeChild h
  | editElement ed _ h ih => exact ih.editElement h

theorem kept_reached : Kept Reached where
  createElement hr tag := hr.createElement tag
  createText hr s := hr.createText s
  appendChild := .appendChild
  removeChild := .removeChild

theorem Reached.mapElement (hr : t.Reached) (n : NodeId) (ed : Element.Edit) : (t.mapElement n ed.on).Reached := by
  unfold Tree.mapElement
  split
  · rename_i e he
    exact hr.editElement ed (editElement_of ed.on he)
  · exact hr

theorem Reached.removeAttr {name : String} {old : Option String} (hr : t.Reached)
    (h : t.removeAttr n name = .ok (old, t')) : t'.Reached := hr.editElement (.removeAttr name) (removeAttr_ok h)

/-! ## Elements -/

/-- However a tree is edited, its elements are in order. -/
theorem Reached.element (hr : t.Reached) (he : t.element? x = some e) : e.Sound := by
  have hall : ∀ x e, t.content? x = some (.element e) → e.Sound := by
    clear he
    induction hr with
    | empty =>
      intro x e he
      cases x with
      | zero => cases he
      | succ x => cases he
    | createElement tag _ ih =>
      intro x e he
      rw [Tree.createElement, content?_add] at he
      split at he
      · cases he
        exact Element.sound_ofTag tag
      · exact ih x e he
    | createText s _ ih =>
      intro x e he
      rw [Tree.createText, content?_add] at he
      split at he
      · cases he
      · exact ih x e he
    | @makeComment t n s _ ih =>
      intro x e he
      rw [content?_setContent] at he
      split at he
      · cases hc : t.content? x <;> rw [hc] at he <;> cases he
      · exact ih x e he
    | appendChild _ h ih =>
      intro x e he
      rw [content?_appendChild h] at he
      exact ih x e he
    | removeChild _ h ih =>
      intro x e he
      rw [content?_removeChild h] at he
      exact ih x e he
    | @editElement t t' n ed _ h ih =>
      intro x e he
      obtain ⟨e₀, he₀, rfl⟩ := editElement_ok h
      have hs₀ : e₀.Sound := ih n e₀ (element?_eq_some.mp he₀)
      rw [content?_setContent] at he
      split at he
      · cases hc : t.content? x <;> rw [hc] at he <;> cases he
        exact hs₀.on ed
      · exact ih x e he
  exact hall x e (element?_eq_some.mp he)

end Eventful.Page.Tree

namespace Eventful.Page

variable {κ ω : Type}

/-! ## Pages -/

theorem reached_new (url : String) (globals : Globals) : (new url globals : Page κ ω).tree.Reached := by
  have hhtml := Tree.kept_reached.appendElement .empty root "html"
  have hhead := Tree.kept_reached.appendElement hhtml 1 "head"
  exact Tree.kept_reached.appendElement hhead 1 "body"

theorem sound_new (url : String) (globals : Globals) : (new url globals : Page κ ω).tree.Sound :=
  (reached_new url globals).sound

end Eventful.Page
