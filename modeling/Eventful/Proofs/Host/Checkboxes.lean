import Eventful.Proofs.Host.Growing

/-
  Eventful.Proofs.Host.Checkboxes — what a click does to a checkbox.

  A click writes the flag of a checkbox, lets the event go its way, and writes the old flag
  back if the event was prevented; otherwise it touches nothing (`Checked`). On its way the
  event may run into anything, also into clicks of the same node. A flag that nobody writes
  meanwhile stays (`keeps_flagged`), so a click that was not prevented has negated it.

  - `click_checkbox`: all of it, for every host.
-/

namespace Eventful.Page.Element

/-- The edit writes the flag. -/
def Edit.Checks : Edit → Prop
  | .setAttr name _ => name = "checked"
  | .check _ => True
  | _ => False

/-- The other edits leave the flag. -/
theorem checked_on {ed : Edit} (e : Element) (hed : ¬ed.Checks) : (ed.on e).checked = e.checked := by
  cases ed with
  | setAttr name value =>
    show (e.setAttr name value).checked = e.checked
    unfold setAttr
    dsimp only
    split
    · rfl
    · rfl
    · exact absurd rfl hed
    · rfl
    · rfl
  | removeAttr name =>
    show (e.removeAttr name).2.checked = e.checked
    unfold removeAttr
    split
    · rfl
    · dsimp only
      split <;> rfl
  | addClass c =>
    show (e.addClass c).checked = e.checked
    unfold addClass
    split <;> rfl
  | removeClass c =>
    show (e.removeClass c).checked = e.checked
    unfold removeClass
    split <;> rfl
  | setSize width height => rfl
  | place box => rfl
  | check checked => exact absurd trivial hed
  | enter value => rfl

end Eventful.Page.Element

namespace Eventful.Page.Tree

variable {t t' : Tree} {n m p x : NodeId} {b : Bool} {c : Content}

/-! ## A flag -/

/-- The node exists, and its flag is `b` as long as it is an element. -/
def Flagged (n : NodeId) (b : Bool) (t : Tree) : Prop := t.has n = true ∧ ∀ e, t.element? n = some e → e.checked = b

theorem Flagged.same (hf : Flagged n b t) (hhas : t'.has n = true) (hc : t'.content? n = t.content? n) :
    Flagged n b t' := by
  refine ⟨hhas, fun e he => hf.2 e ?_⟩
  rw [element?_eq_some] at he ⊢
  exact hc ▸ he

theorem Flagged.add (hf : Flagged n b t) (c : Content) : Flagged n b (t.add c).2 := by
  have hg := grown_add t c
  refine hf.same ((hg.has n).mpr (.inl hf.1)) ?_
  rw [content?_add, if_neg fun e => hg.fresh (by rw [← e]; exact hf.1)]

theorem Flagged.setContent (hf : Flagged n b t) (hc : m = n → ∀ e, c.element? = some e → e.checked = b) :
    Flagged n b (t.setContent m c) := by
  refine ⟨has_setContent.trans hf.1, fun e he => ?_⟩
  rw [element?_eq_some, content?_setContent] at he
  split at he
  · rename_i hnm
    obtain ⟨_, -, rfl⟩ := Option.map_eq_some_iff.mp he
    exact hc hnm.symm e rfl
  · exact hf.2 e (element?_eq_some.mpr he)

theorem Flagged.mapElement {ed : Element.Edit} (hf : Flagged n b t) (hed : m = n → ¬ed.Checks) :
    Flagged n b (t.mapElement m ed.on) := by
  unfold Tree.mapElement
  split
  · rename_i e he
    refine hf.setContent fun hm e' he' => ?_
    cases he'
    rw [Element.checked_on e (hed hm)]
    exact hf.2 e (hm ▸ he)
  · exact hf

/-- Making and moving nodes writes no flag. -/
theorem kept_flagged : Kept (Flagged n b) where
  createElement hf tag := hf.add (.element (.ofTag tag))
  createText hf s := hf.add (.text s)
  appendChild hf h := hf.same (has_appendChild h ▸ hf.1) (content?_appendChild h)
  removeChild hf h := hf.same (has_removeChild h ▸ hf.1) (content?_removeChild h)

end Eventful.Page.Tree

namespace Eventful.Host

open Page Binding

variable {h h' : Host} {tr : History} {n : NodeId} {b : Bool}

/-- The action writes the flag of a node, if it is done in the tree `t`. -/
def Action.Checks (n : NodeId) (t : Tree) : Action → Prop
  | .setAttr m name _ => m = n ∧ name = "checked"
  | .click m => m = n ∧ (t.element? n).any (·.isCheckbox) = true
  | _ => False

/-- The other actions leave the flag. -/
theorem keeps_flagged {t : Tree} {a : Action} (ha : ¬a.Checks n t) : a.Keeps (Tree.Flagged n b) t := by
  intro f hf t' ht'
  cases a with
  | createElement name =>
    cases List.mem_singleton.mp hf
    exact Tree.kept_flagged.createElement ht' name
  | createText s =>
    cases List.mem_singleton.mp hf
    exact Tree.kept_flagged.createText ht' s
  | makeComment m s =>
    cases List.mem_singleton.mp hf
    exact ht'.setContent fun _ _ he => by cases he
  | appendElement p name =>
    cases List.mem_singleton.mp hf
    exact Tree.kept_flagged.appendElement ht' p name
  | appendChild p m =>
    cases List.mem_singleton.mp hf
    exact of_getD ht' fun _ h => Tree.kept_flagged.appendChild ht' h
  | removeNode m =>
    cases List.mem_singleton.mp hf
    exact of_getD ht' fun _ h => Tree.kept_flagged.removeChild ht' h
  | detachNode m =>
    cases List.mem_singleton.mp hf
    exact of_getD ht' fun _ h => Tree.kept_flagged.removeChild ht' h
  | setText m s =>
    cases List.mem_singleton.mp hf
    exact of_getD ht' fun _ h => Tree.kept_flagged.setText ht' h
  | setAttr m name value =>
    cases List.mem_singleton.mp hf
    exact ht'.mapElement fun hm hname => ha ⟨hm, hname⟩
  | removeAttr m name =>
    cases List.mem_singleton.mp hf
    exact ht'.mapElement fun _ => id
  | addClass m c =>
    cases List.mem_singleton.mp hf
    exact ht'.mapElement fun _ => id
  | removeClass m c =>
    cases List.mem_singleton.mp hf
    exact ht'.mapElement fun _ => id
  | setSize m width height =>
    cases List.mem_singleton.mp hf
    exact ht'.mapElement fun _ => id
  | setBox m width height =>
    cases List.mem_singleton.mp hf
    exact ht'.mapElement fun _ => id
  | input m value =>
    cases List.mem_singleton.mp hf
    exact ht'.mapElement fun _ => id
  | click m =>
    unfold Action.edits at hf
    dsimp only at hf
    split at hf
    · rename_i hbox
      have hmn : m ≠ n := fun hm => ha ⟨hm, hm ▸ hbox⟩
      rcases List.mem_cons.mp hf with rfl | hf
      · exact ht'.mapElement fun hm => absurd hm hmn
      · cases List.mem_singleton.mp hf
        exact ht'.mapElement fun hm => absurd hm hmn
    · cases hf
  | _ => cases hf

/-! ## Clicks -/

/-- The flag of an element is `b` now, and nothing else is changed. -/
structure Checked (h h' : Host) (n : NodeId) (b : Bool) : Prop where
  element : h'.page.tree.element? n = (h.page.tree.element? n).map fun e => { e with checked := b }
  /-- What is no element has no flag. -/
  none : h.page.tree.element? n = none → h' = h
  links : h'.page.tree.links? = h.page.tree.links?
  others : ∀ x, x ≠ n → h'.page.tree.content? x = h.page.tree.content? x
  rest : h' = h.setTree h'.page.tree

/-- The host with the flag of a node set. -/
def check (h : Host) (n : NodeId) (b : Bool) : Host :=
  h.setTree (h.page.tree.mapElement n fun e => { e with checked := b })

theorem checked_check (h : Host) (n : NodeId) (b : Bool) : Checked h (h.check n b) n b := by
  cases he : h.page.tree.element? n with
  | none =>
    have hsame : h.check n b = h := by
      unfold check Tree.mapElement
      rw [he]
      rfl
    rw [hsame]
    exact ⟨by rw [he]; rfl, fun _ => rfl, rfl, fun _ _ => rfl, rfl⟩
  | some e =>
    have ht : (h.check n b).page.tree = h.page.tree.setContent n (.element { e with checked := b }) :=
      Tree.mapElement_of _ he
    refine ⟨?_, fun hno => ?_, ?_, fun x hx => ?_, rfl⟩
    · rw [ht, he, Option.map_some, Tree.element?_eq_some, Tree.content?_setContent, if_pos rfl,
        Tree.element?_eq_some.mp he]
      rfl
    · cases he.symm.trans hno
    · rw [ht, Tree.links?_setContent]
    · rw [ht, Tree.content?_setContent, if_neg hx]

/-- A click of a checkbox: the flag is negated, and once the event is back it is what it
    was before if that was prevented. -/
theorem came_click {el : Element} {e : Event} (hel : h.page.tree.element? n = some el) (hbox : el.isCheckbox = true) :
    (click n).Came h e h' tr ↔ ∃ h₂, (deliver (.node n) .click).Came (h.check n !el.checked) e h₂ tr ∧
      h' = if e.prevented then h₂.check n el.checked else h₂ := by
  have hbefore : ((h.page.tree.element? n).bind fun e => if e.isCheckbox then some e.checked else none) =
      some el.checked := by
    rw [hel]
    exact if_pos hbox
  have hback : ∀ {e₁ : Event} {h₁ : Host} {tr₁ : History}, Proc.Came (do
      if e₁.prevented then modify fun h => h.check n el.checked
      return e₁) h₁ e h' tr₁ ↔ e = e₁ ∧ h' = (if e₁.prevented then h₁.check n el.checked else h₁) ∧ tr₁ = [] := by
    intro e₁ h₁ tr₁
    cases e₁.prevented <;> exact came_done
  unfold click
  rw [came_get]
  dsimp only
  rw [hbefore]
  dsimp only
  rw [came_first, came_bind]
  constructor
  · rintro ⟨e₁, h₂, tr₁, tr₂, hd, hrest, rfl⟩
    obtain ⟨rfl, e', rfl⟩ := hback.mp hrest
    exact ⟨h₂, hd, e'⟩
  · rintro ⟨h₂, hd, e'⟩
    exact ⟨e, h₂, tr, [], hd, hback.mpr ⟨rfl, e', rfl⟩, rfl⟩

/-- Click a checkbox, whatever its listeners do. The flag is negated before the event goes
    its way, and nothing else is touched. If the event comes back prevented, the old flag
    is set, and again nothing else is touched; otherwise nothing at all. So a click that was
    prevented leaves the flag as it was, and one that was not leaves it negated if nobody
    wrote it meanwhile, as long as the node is still an element. -/
theorem click_checkbox {depth : Nat} {el : Element} {e : Event} (hel : h.page.tree.element? n = some el)
    (hbox : el.isCheckbox = true) (hrun : (click n).run depth h = some (e, h')) :
    ∃ h₁ h₂ tr, Checked h h₁ n (!el.checked) ∧ (deliver (.node n) .click).Came h₁ e h₂ tr ∧
      (e.prevented = true → Checked h₂ h' n el.checked) ∧ (e.prevented = false → h' = h₂) ∧
      ∀ el', h'.page.tree.element? n = some el' →
        (e.prevented = true → el'.checked = el.checked) ∧
        (e.prevented = false → (∀ a h, .begins (.act a) h ∈ tr → ¬a.Checks n h.page.tree) →
          el'.checked = !el.checked) := by
  obtain ⟨tr, hcame⟩ := came_of_run hrun
  obtain ⟨h₂, hd, rfl⟩ := (came_click hel hbox).mp hcame
  have htoggled := checked_check h n !el.checked
  refine ⟨_, h₂, tr, htoggled, hd, fun hp => ?_, fun hp => ?_, fun el' hel' => ⟨fun hp => ?_, fun hp hno => ?_⟩⟩
  · rw [hp]
    exact checked_check h₂ n el.checked
  · rw [hp]
    rfl
  · rw [hp, if_pos rfl, (checked_check h₂ n el.checked).element] at hel'
    obtain ⟨e₂, -, rfl⟩ := Option.map_eq_some_iff.mp hel'
    rfl
  · -- Nobody writes the flag, so it is what the click made it.
    have hnow : (h.check n !el.checked).page.tree.element? n = some { el with checked := !el.checked } := by
      rw [htoggled.element, hel]
      rfl
    have hflag : Tree.Flagged n (!el.checked) (h.check n !el.checked).page.tree := by
      refine ⟨Tree.has_of_content (Tree.element?_eq_some.mp hnow), fun e₁ he₁ => ?_⟩
      cases hnow.symm.trans he₁
      rfl
    have hgrows : Grows (Tree.Flagged n !el.checked) (fun t a => ¬a.Checks n t) (deliver (.node n) .click) :=
      grows_deliver _ _
    have hkept := hd.grows hgrows (fun t a => keeps_flagged) hno hflag
    rw [hp] at hel'
    exact hkept.2 el' hel'

/-- A checkbox that is clicked again by its own listener, once, under a listener that
    prevents every click. -/
def clickedWithin : List Action :=
  [.appendElement 3 "input", .setAttr 4 "type" "checkbox",
    .listen (.node 4) "click" ⟨false, false, true⟩ (.mk "again" [.click 4]),
    .listen (.node 3) "click" ⟨false, false, false⟩ (.mk "no" [.prevent])]

def clickedHost : Host := (play 1 clickedWithin (.new "" .browser []) []).1.getD (.new "" .browser [])

/-- The click within sets the flag back to what the outer one made it, and that back to
    what it was. -/
theorem clickedWithin_checkbox : ∃ el e h', clickedHost.page.tree.element? 4 = some el ∧ el.isCheckbox = true ∧
    (click 4).run 6 clickedHost = some (e, h') ∧ e.prevented = true ∧
    ∀ el', h'.page.tree.element? 4 = some el' → el'.checked = false := by
  obtain ⟨el, hel, hbox, hoff⟩ : ∃ el, clickedHost.page.tree.element? 4 = some el ∧ el.isCheckbox = true ∧
    el.checked = false := ⟨_, rfl, rfl, rfl⟩
  have hback : ((click 4).run 6 clickedHost).map (·.1.prevented) = some true := by decide +kernel
  obtain ⟨⟨e, h'⟩, hrun, hp⟩ := Option.map_eq_some_iff.mp hback
  obtain ⟨_, _, _, -, -, -, -, hflag⟩ := click_checkbox hel hbox hrun
  exact ⟨el, e, h', hel, hbox, hrun, hp, fun el' hel' => ((hflag el' hel').1 hp).trans hoff⟩

end Eventful.Host
