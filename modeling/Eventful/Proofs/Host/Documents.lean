import Eventful.Proofs.Host.Tending
import Eventful.Proofs.Page.Placing

/-
  Eventful.Proofs.Host.Documents — what a host does to its document.

  At every moment of a session the tree is one that edits come to (`session_reached`). From
  there:

  - `append_places`: an append is refused just if one of the two nodes does not exist, or
    the child is the document node or above its new parent, and then the host stays as it
    is. Otherwise the child comes last under its parent and no other list changes.
-/

namespace Eventful.Host

open Page

theorem run_appendChild (h : Host) (p n : NodeId) (d : Nat) :
    (perform (.appendChild p n)).run d h = some (match h.page.tree.appendChild p n with
      | .error e => (.refusedEdit e, h)
      | .ok t => (.done, h.setTree t)) := by
  show (match h.page.tree.appendChild p n with
    | .error e => Proc.done (Answer.refusedEdit e)
    | .ok t => .get fun h' => .set (h'.setTree t) (.done .done)).run d h = _
  cases h.page.tree.appendChild p n <;> rfl

/-- An append to a tree that edits come to is refused for its reasons alone, and else puts
    the node last; a host whose append is refused stays as it is. -/
theorem append_places {h : Host} (hr : h.page.tree.Reached) (p n : NodeId) (d : Nat) :
    (∀ e, h.page.tree.appendChild p n = .error e ↔ h.page.tree.Refused p n e) ∧
    (∀ t, h.page.tree.appendChild p n = .ok t → h.page.tree.Moved t p n) ∧
    (perform (.appendChild p n)).run d h = some (match h.page.tree.appendChild p n with
      | .error e => (.refusedEdit e, h)
      | .ok t => (.done, h.setTree t)) :=
  ⟨fun _ => Tree.appendChild_error, fun _ ht => hr.sound.moved ht, run_appendChild h p n d⟩

/-- A list of three items in the body. -/
def listing : List Action :=
  [.appendElement 3 "ul", .appendElement 4 "li", .appendElement 4 "li", .appendElement 4 "li"]

/-- The host that it stands in. -/
def listingHost : Host := (play 1 listing (.new "" .browser []) []).1.getD (.new "" .browser [])

/-- The first item goes behind the others; the list does not go under it. -/
theorem listing_moved : listingHost.page.tree.children 4 = [5, 6, 7] ∧
    (∃ t, listingHost.page.tree.appendChild 4 5 = .ok t ∧ t.children 4 = [6, 7, 5] ∧
      listingHost.page.tree.Moved t 4 5) ∧
    listingHost.page.tree.Refused 5 4 (.hierarchy 5 4) ∧
    (perform (.appendChild 5 4)).run 0 listingHost = some (.refusedEdit (.hierarchy 5 4), listingHost) := by
  have hm : .ends (.act _) _ listingHost ∈ (play 1 listing (.new "" .browser []) []).2 :=
    List.mem_of_getElem? (i := 0) rfl
  have hr : listingHost.page.tree.Reached := session_reached hm
  refine ⟨rfl, ⟨_, rfl, rfl, (append_places hr 4 5 0).2.1 _ rfl⟩, ?_, ?_⟩
  · exact ((append_places hr 5 4 0).1 _).mp rfl
  · exact (append_places hr 5 4 0).2.2

end Eventful.Host
