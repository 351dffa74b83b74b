import Eventful.Page.Element
import Eventful.Proofs.Text
import Mathlib.Data.List.Nodup

/-
  Eventful.Proofs.Page.Attributes — what an element keeps beside its attributes.

  An element keeps its id and its classes beside the attributes they are written in, and
  either can be edited from its own side. However an element is edited, no two of its
  attributes have one name, and its id is what the attribute says (`Sound`, `sound_edits`).
  The classes taken apart into words are the words of the attribute; so the two agree just
  as long as every class is one word (`Sound.mirrors_iff`). A value that is set is split
  into words, but a class is added as it is given: if it has a blank in it or is empty,
  class and attribute tell different stories from then on (`addClass_unmirrored`).

  - `mirrors_edits`: all of it for every sequence of edits of a new element.
-/

namespace Eventful.Page.Element

open Text

variable {e : Element} {as : List (String × String)} {name other value c : String} {box : Box} {checked : Bool}

/-! ## Attributes -/

/-- What the first attribute of a name says. -/
def valueOf (as : List (String × String)) (name : String) : Option String := (as.find? (·.1 == name)).map (·.2)

theorem valueOf_cons (a : String × String) :
    valueOf (a :: as) name = if a.1 = name then some a.2 else valueOf as name := by
  unfold valueOf
  by_cases h : a.1 = name <;> simp [h]

theorem valueOf_eq_none : valueOf as name = none ↔ name ∉ as.map (·.1) := by
  induction as with
  | nil => exact ⟨fun _ => List.not_mem_nil, fun _ => rfl⟩
  | cons a as ih =>
    rw [valueOf_cons, List.map_cons, List.mem_cons, not_or, ← ih]
    by_cases h : a.1 = name
    · simp [h]
    · simp [h, Ne.symm h]

theorem valueOf_putAttr :
    valueOf (putAttr name value as) other = if name = other then some value else valueOf as other := by
  induction as with
  | nil => simp [putAttr, valueOf_cons]
  | cons a as ih =>
    simp only [putAttr, beq_iff_eq]
    split
    · rename_i h
      rw [valueOf_cons, valueOf_cons, h]
      split <;> rfl
    · rename_i h
      rw [valueOf_cons, ih, valueOf_cons]
      by_cases ha : a.1 = other
      · rw [if_pos ha, if_pos ha, if_neg fun e => h (ha.trans e.symm)]
      · rw [if_neg ha, if_neg ha]

theorem nodup_putAttr (hd : (as.map (·.1)).Nodup) : ((putAttr name value as).map (·.1)).Nodup := by
  induction as with
  | nil => exact List.nodup_singleton name
  | cons a as ih =>
    obtain ⟨ha, hd⟩ := List.nodup_cons.mp hd
    simp only [putAttr, beq_iff_eq]
    split
    · exact List.nodup_cons.mpr ⟨ha, hd⟩
    · rename_i h
      refine List.nodup_cons.mpr ⟨valueOf_eq_none.mp ?_, ih hd⟩
      rw [valueOf_putAttr, if_neg (Ne.symm h)]
      exact valueOf_eq_none.mpr ha

theorem nodup_eraseP (hd : (as.map (·.1)).Nodup) : ((as.eraseP (·.1 == name)).map (·.1)).Nodup :=
  hd.sublist (List.eraseP_sublist.map _)

theorem valueOf_eraseP (hd : (as.map (·.1)).Nodup) :
    valueOf (as.eraseP (·.1 == name)) other = if name = other then none else valueOf as other := by
  induction as with
  | nil =>
    split <;> rfl
  | cons a as ih =>
    obtain ⟨ha, hd⟩ := List.nodup_cons.mp hd
    by_cases h : a.1 = name
    · rw [List.eraseP_cons_of_pos (by simpa using h)]
      split
      · rename_i hother
        exact valueOf_eq_none.mpr (hother ▸ h ▸ ha)
      · rename_i hother
        rw [valueOf_cons, if_neg fun e => hother (h.symm.trans e)]
    · rw [List.eraseP_cons_of_neg (by simpa using h), valueOf_cons, ih hd, valueOf_cons]
      by_cases hother : a.1 = other
      · rw [if_pos hother, if_pos hother, if_neg fun e => h (hother.trans e.symm)]
      · rw [if_neg hother, if_neg hother]

/-! ## Edits -/

/-- What is done to an element. -/
inductive Edit where
  | setAttr (name value : String)
  | removeAttr (name : String)
  | addClass (c : String)
  | removeClass (c : String)
  | setSize (width height : Float)
  | place (box : Box)
  | check (checked : Bool)
  | enter (value : String)

def Edit.on : Edit → Element → Element
  | .setAttr name value, e => e.setAttr name value
  | .removeAttr name, e => (e.removeAttr name).2
  | .addClass c, e => e.addClass c
  | .removeClass c, e => e.removeClass c
  | .setSize width height, e => e.setSize width height
  | .place box, e => { e with box := box }
  | .check checked, e => { e with checked := checked }
  | .enter value, e => { e with value := value }

/-- A value that is set is kept beside the attribute, if it is the id or the classes. -/
theorem setAttr_eq (e : Element) (name value : String) : ∃ checked entered, e.setAttr name value =
    { e with
      attrs := putAttr name value e.attrs
      id := if name = "id" then some value else e.id
      classes := if name = "class" then words value else e.classes
      checked := checked
      value := entered } := by
  unfold setAttr
  dsimp only
  split
  · exact ⟨e.checked, e.value, rfl⟩
  · exact ⟨e.checked, e.value, rfl⟩
  · exact ⟨true, e.value, rfl⟩
  · exact ⟨e.checked, value, rfl⟩
  · rename_i hid hclass _ _
    refine ⟨e.checked, e.value, ?_⟩
    rw [if_neg hid, if_neg hclass]

/-- An attribute that is there is taken out, and what was kept beside it. -/
theorem removeAttr_eq (hn : e.attr? name ≠ none) : (e.removeAttr name).2 =
    { e with
      attrs := e.attrs.eraseP (·.1 == name)
      id := if name = "id" then none else e.id
      classes := if name = "class" then [] else e.classes } := by
  unfold removeAttr
  split
  · rename_i h
    exact absurd h hn
  · dsimp only
    split
    · rfl
    · rfl
    · rename_i hid hclass
      rw [if_neg hid, if_neg hclass]

theorem removeAttr_none (hn : e.attr? name = none) : (e.removeAttr name).2 = e := by
  unfold removeAttr
  rw [hn]

/-! ## What is kept beside the attributes -/

/-- The words of the `class` attribute; none if there is no such attribute. -/
def classWords (e : Element) : List String := ((e.attr? "class").map words).getD []

/-- The tag is in small letters, no two attributes have one name, the id is what the
    attribute says, and the classes hold the words of the attribute. -/
structure Sound (e : Element) : Prop where
  tag : lower e.tag = e.tag
  names : (e.attrs.map (·.1)).Nodup
  id : e.id = e.attr? "id"
  classes : e.classes.flatMap words = e.classWords

theorem sound_ofTag (tag : String) : (ofTag tag).Sound := ⟨lower_lower tag, List.nodup_nil, rfl, rfl⟩

theorem Sound.setAttr (hs : e.Sound) (name value : String) : (e.setAttr name value).Sound := by
  obtain ⟨checked, entered, h⟩ := setAttr_eq e name value
  rw [h]
  refine ⟨hs.tag, nodup_putAttr hs.names, ?_, ?_⟩
  · show (if name = "id" then some value else e.id) = valueOf (putAttr name value e.attrs) "id"
    rw [valueOf_putAttr, hs.id]
    rfl
  · show (if name = "class" then words value else e.classes).flatMap words =
      ((valueOf (putAttr name value e.attrs) "class").map words).getD []
    rw [valueOf_putAttr]
    split
    · exact flatMap_words fun c hc => .of_mem hc
    · exact hs.classes

theorem Sound.removeAttr (hs : e.Sound) (name : String) : (e.removeAttr name).2.Sound := by
  by_cases hn : e.attr? name = none
  · rw [removeAttr_none hn]
    exact hs
  · rw [removeAttr_eq hn]
    refine ⟨hs.tag, nodup_eraseP hs.names, ?_, ?_⟩
    · show (if name = "id" then none else e.id) = valueOf (e.attrs.eraseP (·.1 == name)) "id"
      rw [valueOf_eraseP hs.names, hs.id]
      rfl
    · show (if name = "class" then [] else e.classes).flatMap words =
        ((valueOf (e.attrs.eraseP (·.1 == name)) "class").map words).getD []
      rw [valueOf_eraseP hs.names]
      split
      · rfl
      · exact hs.classes

/-- Classes that are written into the attribute are joined by blanks. -/
theorem Sound.withClasses (hs : e.Sound) (cs : List String) : (e.withClasses cs).Sound := by
  refine ⟨hs.tag, nodup_putAttr hs.names, ?_, ?_⟩
  · show e.id = valueOf (putAttr "class" (" ".intercalate cs) e.attrs) "id"
    rw [valueOf_putAttr, if_neg (by decide)]
    exact hs.id
  · show cs.flatMap words = ((valueOf (putAttr "class" (" ".intercalate cs) e.attrs) "class").map words).getD []
    rw [valueOf_putAttr, if_pos rfl]
    exact (words_intercalate cs).symm

theorem Sound.on (hs : e.Sound) (ed : Edit) : (ed.on e).Sound := by
  cases ed with
  | setAttr name value => exact hs.setAttr name value
  | removeAttr name => exact hs.removeAttr name
  | addClass c =>
    show (e.addClass c).Sound
    unfold addClass
    split
    · exact hs
    · exact hs.withClasses _
  | removeClass c =>
    show (e.removeClass c).Sound
    unfold removeClass
    split
    · exact hs.withClasses _
    · exact hs
  | setSize width height => exact ⟨hs.tag, hs.names, hs.id, hs.classes⟩
  | place box => exact ⟨hs.tag, hs.names, hs.id, hs.classes⟩
  | check checked => exact ⟨hs.tag, hs.names, hs.id, hs.classes⟩
  | enter value => exact ⟨hs.tag, hs.names, hs.id, hs.classes⟩

theorem sound_edits (hs : e.Sound) (es : List Edit) : (es.foldl (fun e ed => ed.on e) e).Sound := by
  induction es generalizing e with
  | nil => exact hs
  | cons ed es ih => exact ih (hs.on ed)

/-! ## Classes -/

/-- Classes and attribute agree as long as every class is one word. -/
theorem Sound.mirrors_iff (hs : e.Sound) : e.classes = e.classWords ↔ ∀ c ∈ e.classes, IsWord c := by
  constructor
  · intro h c hc
    rw [h, classWords] at hc
    cases hv : e.attr? "class" with
    | none =>
      rw [hv] at hc
      cases hc
    | some value =>
      rw [hv] at hc
      exact .of_mem hc
  · intro h
    rw [← hs.classes, flatMap_words h]

/-- A class was there before, is a word of a value, or was added as it is. -/
theorem mem_classes_on {ed : Edit} (hc : c ∈ (ed.on e).classes) : c ∈ e.classes ∨ IsWord c ∨ ed = .addClass c := by
  cases ed with
  | setAttr name value =>
    obtain ⟨checked, entered, h⟩ := setAttr_eq e name value
    have hc : c ∈ (e.setAttr name value).classes := hc
    rw [h] at hc
    dsimp only at hc
    split at hc
    · exact .inr (.inl (.of_mem hc))
    · exact .inl hc
  | removeAttr name =>
    have hc : c ∈ (e.removeAttr name).2.classes := hc
    by_cases hn : e.attr? name = none
    · rw [removeAttr_none hn] at hc
      exact .inl hc
    · rw [removeAttr_eq hn] at hc
      dsimp only at hc
      split at hc
      · cases hc
      · exact .inl hc
  | addClass d =>
    have hc : c ∈ (e.addClass d).classes := hc
    unfold addClass at hc
    split at hc
    · exact .inl hc
    · rcases List.mem_append.mp hc with hc | hc
      · exact .inl hc
      · exact .inr (.inr (List.mem_singleton.mp hc ▸ rfl))
  | removeClass d =>
    have hc : c ∈ (e.removeClass d).classes := hc
    unfold removeClass at hc
    split at hc
    · exact .inl (List.mem_filter.mp hc).1
    · exact .inl hc
  | setSize width height => exact .inl hc
  | place box => exact .inl hc
  | check checked => exact .inl hc
  | enter value => exact .inl hc

theorem mem_classes_edits {es : List Edit} (hc : c ∈ (es.foldl (fun e ed => ed.on e) e).classes) :
    c ∈ e.classes ∨ IsWord c ∨ .addClass c ∈ es := by
  induction es generalizing e with
  | nil => exact .inl hc
  | cons ed es ih =>
    rcases ih hc with h | h | h
    · rcases mem_classes_on h with h | h | rfl
      · exact .inl h
      · exact .inr (.inl h)
      · exact .inr (.inr List.mem_cons_self)
    · exact .inr (.inl h)
    · exact .inr (.inr (List.mem_cons_of_mem _ h))

/-- However a new element is edited, no two attributes have one name, the id is what its
    attribute says, and the classes taken apart are the words of theirs. The classes are
    these words themselves just if every class is one word; so it is if only words were
    added, and then an element has a class just if the attribute names it. -/
theorem mirrors_edits (tag : String) (es : List Edit) :
    let e := es.foldl (fun e ed => ed.on e) (ofTag tag)
    (e.attrs.map (·.1)).Nodup ∧ e.id = e.attr? "id" ∧ e.classes.flatMap words = e.classWords ∧
    (e.classes = e.classWords ↔ ∀ c ∈ e.classes, IsWord c) ∧
    ((∀ c, .addClass c ∈ es → IsWord c) →
      e.classes = e.classWords ∧ ∀ c, e.hasClass c = e.classWords.contains c) := by
  intro e
  have hs : e.Sound := sound_edits (sound_ofTag tag) es
  refine ⟨hs.names, hs.id, hs.classes, hs.mirrors_iff, fun hwords => ?_⟩
  have hagree : e.classes = e.classWords := by
    refine hs.mirrors_iff.mpr fun c hc => ?_
    rcases mem_classes_edits hc with hc | hc | hc
    · cases hc
    · exact hc
    · exact hwords c hc
  refine ⟨hagree, fun c => ?_⟩
  rw [← hagree]
  rfl

/-- A menu that is opened: its classes are written as text first, and then edited. -/
def openedMenu : List Edit :=
  [.setAttr "class" " menu  hidden", .setAttr "id" "main", .removeClass "hidden", .addClass "open"]

theorem openedMenu_mirrors :
    let e := openedMenu.foldl (fun e ed => ed.on e) (ofTag "UL")
    (∀ c, .addClass c ∈ openedMenu → IsWord c) ∧ e.attr? "class" = some "menu open" ∧ e.id = some "main" ∧
      e.classes = e.classWords ∧ e.classes = ["menu", "open"] ∧ e.hasClass "hidden" = false := by
  have hwords : ∀ c, .addClass c ∈ openedMenu → IsWord c := by
    intro c hc
    have hc : c = "open" := by simpa [openedMenu] using hc
    subst hc
    exact .of_mem (show "open" ∈ words "menu open" by decide)
  obtain ⟨-, -, -, -, hmirrors⟩ := mirrors_edits "UL" openedMenu
  exact ⟨hwords, by decide, by decide, (hmirrors hwords).1, by decide, by decide⟩

/-- A class with a blank in it is one class beside the attribute, and two words in it. -/
theorem addClass_unmirrored :
    let e := (Edit.addClass "a b").on (ofTag "p")
    e.attr? "class" = some "a b" ∧ e.classWords = ["a", "b"] ∧ e.classes = ["a b"] ∧ e.classes ≠ e.classWords ∧
      e.hasClass "a" = false ∧ e.hasClass "a b" = true := by
  decide

end Eventful.Page.Element
