import Eventful.Proofs.Host.Calls
import Eventful.Proofs.Host.Tending
import Eventful.Proofs.Page.Leaving

/-
  Eventful.Proofs.Host.Removals — what removal observers are told.

  An edit of a page by its handle tells the observers that are registered then, one after
  the other, what left the document, whatever they do about it (`Tells`). Two edits go
  astray (`PageEdit.Strays`): to remove the document node takes nothing out of the
  document and is told as if all had left, and to append a node of the document under one
  outside of it takes a subtree out and is told to nobody.

  - `session_removals`: at every moment of a session, the other edits tell exactly what
    left, and the two that go astray do as is said here.
-/

namespace Eventful.Host

open Page Binding

variable {h h' : Host} {cs : List Call} {ns : List NodeId} {a : Answer} {n p : NodeId} {t t' : Tree}

/-! ## Telling -/

/-- All observers are told of the nodes, in order; what they do is their own matter. -/
inductive Informs (ns : List NodeId) : List (Nat × Observer) → Host → List Call → Host → Prop
  | nil {h : Host} : Informs ns [] h [] h
  | cons {o : Nat × Observer} {os : List (Nat × Observer)} {h h₁ h' : Host} {cs : List Call} :
    Informs ns os h₁ cs h' → Informs ns (o :: os) h (⟨.observe o.2 ns, h, (), h₁⟩ :: cs) h'

theorem informs_of_gives {os : List (Nat × Observer)} {r : Unit} (hg : (informAll ns os).Gives h cs r h') :
    Informs ns os h cs h' := by
  induction os generalizing h cs with
  | nil =>
    obtain ⟨rfl, -, rfl⟩ := hg
    exact .nil
  | cons o os ih =>
    obtain ⟨_, h₁, cs', rfl, hrest⟩ := gives_call.mp hg
    exact .cons (ih hrest)

theorem Informs.length {os : List (Nat × Observer)} (hi : Informs ns os h cs h') : cs.length = os.length := by
  induction hi with
  | nil => rfl
  | cons _ ih => exact congrArg (· + 1) ih

/-- The observers that are registered in a host are told of the nodes, if there are any. -/
def Tells (ns : List NodeId) (h : Host) (cs : List Call) (h' : Host) : Prop :=
  (ns = [] ∧ cs = [] ∧ h' = h) ∨ (ns ≠ [] ∧ Informs ns h.page.observers h cs h')

/-! ## Edits -/

/-- The edits of a page by its handle that may move nodes. -/
inductive PageEdit where
  | appendChild (parent child : NodeId)
  | appendElement (parent : NodeId) (tag : String)
  | removeNode (n : NodeId)

def PageEdit.action : PageEdit → Action
  | .appendChild parent child => .appendChild parent child
  | .appendElement parent tag => .appendElement parent tag
  | .removeNode n => .removeNode n

/-- The tree after an edit; a refused one leaves it as it was, but for a new node. -/
def PageEdit.after (t : Tree) : PageEdit → Tree
  | .appendChild parent child => (t.appendChild parent child).toOption.getD t
  | .appendElement parent tag => (t.appendElement parent tag).2
  | .removeNode n => (t.removeChild n).toOption.getD t

/-- An edit of which the observers are not told as they should be. -/
def PageEdit.Strays (t : Tree) : PageEdit → Prop
  | .appendChild parent child => t.isConnected child = true ∧ t.isConnected parent = false ∧
    ∃ t', t.appendChild parent child = .ok t'
  | .appendElement .. => False
  | .removeNode n => n = root

theorem removeNode_known {pg : Page Reaction Observer} (hn : pg.tree.has n = true) :
    pg.removeNode n = .ok (if pg.tree.isConnected n then (pg.tree.detach n).subtree n else [],
      { pg with tree := pg.tree.detach n }) := by
  unfold Page.removeNode Tree.removeChild
  rw [if_pos hn]
  rfl

theorem removeNode_unknown {pg : Page Reaction Observer} (hn : pg.tree.has n = false) :
    pg.removeNode n = .error (.unknownNode n) := by
  unfold Page.removeNode Tree.removeChild
  rw [hn]
  rfl

/-- What is done once the nodes that leave are known. -/
theorem tells_of_gives {os : List (Nat × Observer)} (hos : os = h.page.observers)
    (hg : (do
      unless ns.isEmpty do informAll ns os
      return .done : Proc Answer).Gives h cs a h') : a = .done ∧ Tells ns h cs h' := by
  subst hos
  dsimp only at hg
  split at hg
  · rename_i hempty
    obtain ⟨rfl, rfl, rfl⟩ := hg
    exact ⟨rfl, .inl ⟨List.isEmpty_iff.mp hempty, rfl, rfl⟩⟩
  · rename_i hne
    obtain ⟨_, h₁, cs₁, cs₂, rfl, hall, rfl, rfl, rfl⟩ := gives_bind.mp hg
    rw [List.append_nil]
    exact ⟨rfl, .inr ⟨fun e => hne (List.isEmpty_iff.mpr e), informs_of_gives hall⟩⟩

theorem gives_removeNode (hn : h.page.tree.has n = true) (hg : (perform (.removeNode n)).Gives h cs a h') :
    a = .done ∧ Tells (if h.page.tree.isConnected n then (h.page.tree.detach n).subtree n else [])
      (h.setTree (h.page.tree.detach n)) cs h' := by
  unfold perform removeNode at hg
  rw [gives_get, removeNode_known hn] at hg
  exact tells_of_gives rfl hg

theorem gives_removeNode_unknown (hn : h.page.tree.has n = false) (hg : (perform (.removeNode n)).Gives h cs a h') :
    a = .refusedEdit (.unknownNode n) ∧ cs = [] ∧ h' = h := by
  unfold perform removeNode at hg
  rw [gives_get, removeNode_unknown hn] at hg
  obtain ⟨rfl, rfl, rfl⟩ := hg
  exact ⟨rfl, rfl, rfl⟩

/-- Nobody is told of an append. -/
theorem gives_appendChild (hg : (perform (.appendChild p n)).Gives h cs a h') :
    cs = [] ∧ h' = h.setTree ((h.page.tree.appendChild p n).toOption.getD h.page.tree) := by
  unfold perform edit at hg
  simp only [gives_get] at hg
  cases ht : h.page.tree.appendChild p n with
  | error e =>
    rw [ht] at hg
    obtain ⟨rfl, -, rfl⟩ := hg
    exact ⟨rfl, rfl⟩
  | ok t =>
    rw [ht] at hg
    obtain ⟨rfl, -, rfl⟩ := hg
    exact ⟨rfl, rfl⟩

theorem gives_appendElement {tag : String} (hg : (perform (.appendElement p tag)).Gives h cs a h') :
    cs = [] ∧ h' = h.setTree (h.page.tree.appendElement p tag).2 := by
  obtain ⟨rfl, -, rfl⟩ := hg
  refine ⟨rfl, ?_⟩
  split <;> rename_i e <;> rw [e]

/-! ## Sessions -/

/-- An edit that does not go astray tells what left. -/
theorem tells_edit {e : PageEdit} (hs : h.page.tree.Sound) (hno : ¬e.Strays h.page.tree)
    (hg : (perform e.action).Gives h cs a h') :
    Tells (h.page.tree.left (e.after h.page.tree)) (h.setTree (e.after h.page.tree)) cs h' := by
  cases e with
  | appendChild p n =>
    obtain ⟨rfl, rfl⟩ := gives_appendChild hg
    refine .inl ⟨?_, rfl, rfl⟩
    show h.page.tree.left ((h.page.tree.appendChild p n).toOption.getD h.page.tree) = []
    cases ht : h.page.tree.appendChild p n with
    | error e => exact hs.left_nil fun _ hm => hm
    | ok t' =>
      show h.page.tree.left t' = []
      rw [hs.left_appendChild ht]
      refine if_neg fun hout => hno ?_
      have hout := (Bool.and_eq_true _ _).mp hout
      exact ⟨hout.1, (Bool.not_eq_true' _).mp hout.2, t', ht⟩
  | appendElement p tag =>
    obtain ⟨rfl, rfl⟩ := gives_appendElement hg
    exact .inl ⟨hs.left_appendElement p tag, rfl, rfl⟩
  | removeNode n =>
    show Tells (h.page.tree.left ((h.page.tree.removeChild n).toOption.getD h.page.tree)) _ _ _
    cases hn : h.page.tree.has n with
    | false =>
      obtain ⟨-, rfl, rfl⟩ := gives_removeNode_unknown hn hg
      have hsame : (h'.page.tree.removeChild n).toOption.getD h'.page.tree = h'.page.tree := by
        unfold Tree.removeChild
        rw [hn]
        rfl
      refine .inl ⟨?_, rfl, ?_⟩
      · rw [hsame]
        exact hs.left_nil fun _ hm => hm
      · show h' = h'.setTree ((h'.page.tree.removeChild n).toOption.getD h'.page.tree)
        rw [hsame]
        rfl
    | true =>
      have hafter : (h.page.tree.removeChild n).toOption.getD h.page.tree = h.page.tree.detach n := by
        unfold Tree.removeChild
        rw [hn]
        rfl
      have htells := (gives_removeNode hn hg).2
      rw [hs.subtree_detach hn, ← hs.left_detach hn hno] at htells
      show Tells _ (h.setTree ((h.page.tree.removeChild n).toOption.getD h.page.tree)) _ _
      rw [hafter]
      exact htells

/-- At every moment of a session: an edit tells each observer once, in order, exactly the
    nodes that it takes out of the document, parents first; unless it goes astray. To
    remove the document node tells that all have left, and none has; an append that takes
    a subtree out of the document tells nobody. -/
theorem session_removals (depth : Nat) (as : List Action) (url : String) (globals : Globals) (scopes : List Value)
    (m : Moment) (hm : m ∈ (play depth as (.new url globals scopes) []).2) (e : PageEdit) :
    let t := m.host.page.tree
    let t' := e.after t
    ((∀ n, t.has n = true → t.subtree n = n :: (t.children n).flatMap t.subtree) ∧ (t.left t').Nodup ∧
      ∀ n, n ∈ t.left t' ↔ t.isConnected n = true ∧ t'.isConnected n = false) ∧
    (∀ cs a h', (perform e.action).Gives m.host cs a h' →
      (¬e.Strays t → Tells (t.left t') (m.host.setTree t') cs h') ∧
      (e = .removeNode root → t.left t' = [] ∧ Tells (t.subtree root) (m.host.setTree t') cs h') ∧
      (∀ p n, e = .appendChild p n → e.Strays t → t.left t' = t.subtree n ∧ cs = [] ∧ h' = m.host.setTree t')) ∧
    ∀ d a h', (perform e.action).run d m.host = some (a, h') →
      ∃ cs, (perform e.action).Gives m.host cs a h' ∧
        ∀ c ∈ cs, Task.run d c.kind c.task c.before = some (c.result, c.after) := by
  have hs : m.host.page.tree.Sound := ((session_tended depth as url globals scopes).kempt hm).1
  refine ⟨⟨fun n hn => hs.subtree_eq hn, hs.nodup_left _, fun n => hs.mem_left⟩,
    fun cs a h' hg => ⟨fun hno => tells_edit hs hno hg, fun he => ?_, fun p n he hstray => ?_⟩,
    fun d a h' hrun => gives_of_run hrun⟩
  · subst he
    have hafter : PageEdit.after m.host.page.tree (.removeNode root) = m.host.page.tree.detach root := by
      show (m.host.page.tree.removeChild root).toOption.getD m.host.page.tree = _
      unfold Tree.removeChild
      rw [hs.document.1]
      rfl
    have hconnected : m.host.page.tree.isConnected root = true :=
      Tree.isConnected_iff_under.mpr ⟨hs.document.1, Tree.under_self _ _⟩
    have htells := (gives_removeNode hs.document.1 hg).2
    rw [if_pos hconnected, hs.subtree_detach hs.document.1] at htells
    rw [hafter]
    exact ⟨hs.left_detach_root, htells⟩
  · subst he
    obtain ⟨hn, hp, t', ht⟩ := hstray
    obtain ⟨rfl, rfl⟩ := gives_appendChild hg
    have hafter : PageEdit.after m.host.page.tree (.appendChild p n) = t' := by
      show (m.host.page.tree.appendChild p n).toOption.getD m.host.page.tree = _
      rw [ht]
      rfl
    refine ⟨?_, rfl, rfl⟩
    rw [hafter, hs.left_appendChild ht, hn, hp]
    rfl

/-- A list with an item, which two observers look after, and an element outside of the
    document. -/
def watchedList : List Action :=
  [.appendElement 3 "ul", .appendElement 4 "li", .observe (.mk "first" []), .observe (.mk "second" []),
    .createElement "div"]

/-- The host that it stands in. -/
def watchedHost : Host := (play 1 watchedList (.new "" .browser []) []).1.getD (.new "" .browser [])

theorem watchedList_removals : ∃ cs h', (perform (.removeNode 4)).Gives watchedHost cs .done h' ∧ cs.length = 2 ∧
    Tells [4, 5] (watchedHost.setTree (watchedHost.page.tree.detach 4)) cs h' := by
  obtain ⟨-, hgives, hrun⟩ := session_removals 1 watchedList "" .browser [] (.ends (.act _) _ watchedHost)
    (List.mem_of_getElem? (i := 0) rfl) (.removeNode 4)
  obtain ⟨cs, hg, -⟩ := hrun 2 .done _ rfl
  have htells : Tells [4, 5] (watchedHost.setTree (watchedHost.page.tree.detach 4)) cs _ :=
    (hgives cs _ _ hg).1 (show ¬(4 = root) by decide)
  refine ⟨cs, _, hg, ?_, htells⟩
  rcases htells with ⟨hnil, -⟩ | ⟨-, hinforms⟩
  · cases hnil
  · exact hinforms.length

/-- The body goes under the element outside, and the document node is removed: of the one
    nobody is told, and of the other everybody. -/
theorem watchedList_misled : (play 1 watchedList (.new "" .browser []) []).1 = some watchedHost ∧
    (∃ cs h', (perform (.appendChild 6 3)).Gives watchedHost cs .done h' ∧
      watchedHost.page.tree.left (PageEdit.after watchedHost.page.tree (.appendChild 6 3)) = [3, 4, 5] ∧
      ¬Tells [3, 4, 5] (watchedHost.setTree (PageEdit.after watchedHost.page.tree (.appendChild 6 3))) cs h') ∧
    ∃ cs h', (perform (.removeNode 0)).Gives watchedHost cs .done h' ∧
      (∀ c ∈ cs, Task.run 2 c.kind c.task c.before = some (c.result, c.after)) ∧
      watchedHost.page.tree.left (PageEdit.after watchedHost.page.tree (.removeNode 0)) = [] ∧
      ¬Tells [] (watchedHost.setTree (PageEdit.after watchedHost.page.tree (.removeNode 0))) cs h' := by
  refine ⟨rfl, ⟨[], _, ⟨rfl, rfl, rfl⟩, rfl, ?_⟩, ?_⟩
  · rintro (⟨hnil, -⟩ | ⟨-, hinforms⟩)
    · cases hnil
    · cases hinforms.length
  · obtain ⟨h', hrun⟩ : ∃ h', (perform (.removeNode 0)).run 2 watchedHost = some (.done, h') := ⟨_, rfl⟩
    obtain ⟨cs, hg, hran⟩ := gives_of_run hrun
    refine ⟨cs, h', hg, hran, rfl, ?_⟩
    have htells := (gives_removeNode (by decide) hg).2
    rw [if_pos (by decide), show (watchedHost.page.tree.detach 0).subtree 0 = [0, 1, 2, 3, 4, 5] by decide] at htells
    rintro (⟨-, rfl, -⟩ | ⟨hne, -⟩)
    · rcases htells with ⟨hnil, -⟩ | ⟨-, hinforms⟩
      · cases hnil
      · cases hinforms.length
    · exact hne rfl

end Eventful.Host
