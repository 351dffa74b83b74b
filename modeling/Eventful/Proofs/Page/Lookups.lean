import Eventful.Proofs.Page.Leaving
import Eventful.Proofs.Page.Reached

/-
  Eventful.Proofs.Page.Lookups — elements that are looked up by id or tag.

  An id is looked up where it is kept beside the attributes, and a tag but for its case. In
  a tree that edits come to, what is kept is what the attribute says, and tags are in small
  letters; so a lookup finds the first node in document order whose `id` attribute is the
  one that was asked for, or whose tag is that in small letters (`Reached.lookups`). An id
  is looked up in the document alone, and a tag under any node.
-/

namespace Eventful.Page

variable {P : NodeId → Prop} {p : NodeId → Bool} {ns : List NodeId} {r : Option NodeId}

/-- The first of the nodes that `P` holds for; nothing if it holds for none. -/
def IsFirst (P : NodeId → Prop) (ns : List NodeId) : Option NodeId → Prop
  | some n => P n ∧ ∃ before after, ns = before ++ n :: after ∧ ∀ m ∈ before, ¬P m
  | none => ∀ m ∈ ns, ¬P m

theorem find?_iff (hp : ∀ n, p n = true ↔ P n) : ns.find? p = r ↔ IsFirst P ns r := by
  have hnot : ∀ n, p n = false ↔ ¬P n := fun n => by rw [← hp, Bool.not_eq_true]
  cases r with
  | none => simp only [List.find?_eq_none, Bool.not_eq_true, hnot, IsFirst]
  | some n => simp only [List.find?_eq_some_iff_append, Bool.not_eq_true', hp, hnot, IsFirst]

namespace Tree

variable {t : Tree} {n : NodeId} {x : String}

/-- An element whose `id` attribute is `x`. -/
def Identified (t : Tree) (x : String) (n : NodeId) : Prop :=
  ∃ e, t.element? n = some e ∧ e.attr? "id" = some x

/-- An element whose tag is `x` in small letters. -/
def Tagged (t : Tree) (x : String) (n : NodeId) : Prop := ∃ e, t.element? n = some e ∧ e.tag = Text.lower x

/-- The id that is kept is what the attribute says. -/
theorem Reached.identified_iff (hr : t.Reached) :
    (((t.element? n).bind (·.id)) == some x) = true ↔ t.Identified x n := by
  unfold Identified
  cases he : t.element? n with
  | none => simp
  | some e =>
    have hid : e.id = e.attr? "id" := (hr.element he).id
    simp [hid]

/-- The tag of an element is in small letters already. -/
theorem Reached.tagged_iff (hr : t.Reached) :
    ((t.element? n).any fun e => Text.eqIgnoringCase e.tag x) = true ↔ t.Tagged x n := by
  unfold Tagged
  cases he : t.element? n with
  | none => simp
  | some e =>
    have htag : Text.lower e.tag = e.tag := (hr.element he).tag
    simp [Text.eqIgnoringCase, htag]

/-- However a tree is edited, a lookup finds the first node in document order, and by an id
    one of the document. -/
theorem Reached.lookups (hr : t.Reached) (x : String) :
    (∀ r, t.findId? x = r ↔ IsFirst (t.Identified x) (t.subtree root) r) ∧
    (∀ n, n ∈ t.subtree root ↔ t.isConnected n = true) ∧
    (∀ start r, t.findTag? start x = r ↔ IsFirst (t.Tagged x) (t.subtree start) r) ∧
    ∀ start, t.has start = true → (t.subtree start).Nodup ∧
      t.subtree start = start :: (t.children start).flatMap t.subtree := by
  have hs := hr.sound
  refine ⟨fun r => ?_, fun n => hs.mem_document, fun start r => ?_, fun start hn => ?_⟩
  · exact find?_iff fun n => hr.identified_iff
  · exact find?_iff fun n => hr.tagged_iff
  · exact ⟨hs.nodup_subtree start, hs.subtree_eq hn⟩

/-- A page with three elements: the first one was put behind the second, and the third is
    outside of the document. -/
def threesome : Page Unit Unit :=
  [.appendElement 3 "P", .appendElement 3 "Ul", .createElement "p", .appendChild 3 4].foldl Edit.on (.new "" .browser)

/-- All of them get one id. -/
def namesakes : Tree :=
  let named : Element.Edit := .setAttr "id" "menu"
  ((threesome.tree.mapElement 4 named.on).mapElement 5 named.on).mapElement 6 named.on

theorem namesakes_lookups : IsFirst (namesakes.Identified "menu") (namesakes.subtree root) (some 5) ∧
    IsFirst (namesakes.Tagged "P") (namesakes.subtree 3) (some 4) ∧
    IsFirst (namesakes.Identified "main") (namesakes.subtree root) none ∧ 6 ∉ namesakes.subtree root := by
  have hthree : threesome.tree.Reached := kept_reached.edits (reached_new "" .browser) _
  have hr : namesakes.Reached := ((hthree.mapElement 4 _).mapElement 5 _).mapElement 6 _
  refine ⟨((hr.lookups "menu").1 _).mp ?_, ((hr.lookups "P").2.2.1 3 _).mp ?_, ((hr.lookups "main").1 _).mp ?_,
    fun h => ?_⟩
  · decide
  · decide
  · decide
  · exact absurd (((hr.lookups "menu").2.1 6).mp h) (by decide)

end Tree
end Eventful.Page
