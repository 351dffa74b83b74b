import Eventful.Proofs.Host.Removals
import Eventful.Proofs.Host.Runs
import Eventful.Proofs.Host.Tearing
import Eventful.Proofs.Host.Watching

/-
  Eventful.Proofs.Host.Teardown — a subtree goes, and its bindings with it.

  A node that is removed takes its subtree out of the document, and every runtime unbinds
  what is bound to the nodes that it is told of. The other observers are `Quiet` here:
  they may watch, but do nothing about it.

  - `session_teardown`: the removals of a session, wherever they happen, take exactly the
    bindings of the subtree. What was registered for these is gone, and they are not
    evaluated again; the other bindings and their registrations stay. Only an entry of a
    tracker that runtimes share may go with another runtime's binding of the same id.
  - `neighbours_robbed`: so it happens to a binding outside of the subtree.
-/

namespace Eventful.Host

open Page Binding

variable {F : Nat → Prop} {h h' : Host} {cs : List Call} {ns : List NodeId} {a : Answer} {n : NodeId} {o : Observer}

/-! ## Observers that are told -/

/-- A runtime's observer, or one that does nothing about removals. -/
def Observer.Quiet : Observer → Prop
  | .script s => s.actions = []
  | .runtime _ => True

/-- The host when a quiet observer was told. -/
def informed (ns : List NodeId) (h : Host) : Observer → Host
  | .script s => h.note (.removed s.label ns)
  | .runtime rt => if (h.alive? rt).isSome then (h.unbindElements rt ns).2 else h

theorem run_observe (hq : o.Quiet) (depth : Nat) (h : Host) :
    Task.run (depth + 1) _ (.observe o ns) h = some ((), h.informed ns o) := by
  cases o with
  | script s =>
    show (do modify (·.note (.removed s.label ns)); runScript s : Proc Unit).runWith _ h = _
    have hnone : s.actions = [] := hq
    unfold runScript
    rw [hnone]
    rfl
  | runtime rt =>
    show Proc.runWith (Task.run depth) (if (h.alive? rt).isSome then _ else _) h =
      some ((), if (h.alive? rt).isSome then (h.unbindElements rt ns).2 else h)
    split <;> rfl

/-- Quiet observers are told one after the other. -/
theorem Informs.informed {os : List (Nat × Observer)} (hi : Informs ns os h cs h') (hq : ∀ o ∈ os, o.2.Quiet)
    {depth : Nat} (hran : ∀ c ∈ cs, Task.run depth c.kind c.task c.before = some (c.result, c.after)) :
    h' = os.foldl (fun h o => h.informed ns o.2) h := by
  induction hi with
  | nil => rfl
  | @cons o os h h₁ h' cs hi ih =>
    have hcall := hran _ List.mem_cons_self
    cases depth with
    | zero => cases hcall
    | succ depth =>
      have htold := (run_observe (hq o List.mem_cons_self) depth h).symm.trans hcall
      cases htold
      exact ih (fun o ho => hq o (List.mem_cons_of_mem _ ho)) fun c hc => hran c (List.mem_cons_of_mem _ hc)

/-! ## What they take -/

/-- A runtime that ended has no bindings. -/
theorem Books.working (hb : Books F h) {rt : Nat} {b : Bound} (hbound : Binds h.runtimes rt b) :
    ∃ r, h.runtimes[rt]? = some r ∧ r.status ≠ .ended := by
  obtain ⟨r, hr, hbr⟩ := hbound
  refine ⟨r, hr, fun he => ?_⟩
  rw [((hb.runtimes hr).ended he).1] at hbr
  cases hbr

theorem torn_informed (hb : Books F h) (ns : List NodeId) (o : Observer) :
    Torn (fun rt b => o = .runtime rt ∧ b.element ∈ ns) h (h.informed ns o) ∧ Books F (h.informed ns o) := by
  cases o with
  | script s =>
    refine ⟨?_, hb.frame rfl rfl rfl rfl rfl rfl rfl⟩
    obtain ⟨_, count, rows, listeners, issued, trackers, entries, clocks, timers⟩ :=
      torn_none (h := h) (Q := fun rt b => Observer.script s = .runtime rt ∧ b.element ∈ ns) fun _ hq => nomatch hq.1
    exact ⟨⟨_, _, _, _, _, rfl⟩, count, rows, listeners, issued, trackers, entries, clocks, timers⟩
  | runtime rt =>
    show Torn _ h (if (h.alive? rt).isSome then (h.unbindElements rt ns).2 else h) ∧
      Books F (if (h.alive? rt).isSome then (h.unbindElements rt ns).2 else h)
    split
    · have hbooks := (goes_unbindElements hb rt ns).books
      refine ⟨(torn_unbindElements hb rt ns).congr fun _ => and_congr_left fun _ => ?_, hbooks⟩
      rw [Observer.runtime.injEq]
      exact eq_comm
    · rename_i hdead
      refine ⟨torn_none fun {rt' b} hbound hq => hdead ?_, hb⟩
      cases hq.1
      obtain ⟨r, hr, hne⟩ := hb.working hbound
      unfold alive? runtime?
      rw [hr]
      simp [hne]

theorem torn_informedAll (hb : Books F h) (ns : List NodeId) (os : List (Nat × Observer)) :
    Torn (fun rt b => (∃ id, (id, Observer.runtime rt) ∈ os) ∧ b.element ∈ ns) h
      (os.foldl (fun h o => h.informed ns o.2) h) := by
  induction os generalizing h with
  | nil => exact torn_none fun _ ⟨⟨_, ho⟩, _⟩ => List.not_mem_nil ho
  | cons o os ih =>
    obtain ⟨ht, hb'⟩ := torn_informed hb ns o.2
    refine (ht.trans (ih hb')).congr fun {rt b} _ => ?_
    rw [← or_and_right]
    refine and_congr_left fun _ => ?_
    constructor
    · rintro (he | ⟨id, hid⟩)
      · exact ⟨o.1, he ▸ List.mem_cons_self⟩
      · exact ⟨id, List.mem_cons_of_mem _ hid⟩
    · rintro ⟨id, hid⟩
      rcases List.mem_cons.mp hid with he | hid
      · exact .inl (congrArg Prod.snd he).symm
      · exact .inr ⟨id, hid⟩

/-- A removal takes what is bound in the subtree. -/
theorem torn_removal (hb : Books F h) (hw : Watched h) (hs : h.page.tree.Sound) (hn : h.page.tree.isConnected n = true)
    (hq : ∀ o ∈ h.page.observers, o.2.Quiet) {depth : Nat}
    (hrun : Task.run depth _ (.act (.removeNode n)) h = some (a, h')) :
    a = .done ∧ Torn (fun _ b => h.page.tree.contains n b.element = true) (h.setTree (h.page.tree.detach n)) h' := by
  have hhas : h.page.tree.has n = true := (Tree.isConnected_iff_under.mp hn).1
  cases depth with
  | zero => cases hrun
  | succ depth =>
    obtain ⟨cs, hg, hran⟩ := gives_of_run (p := perform (.removeNode n)) hrun
    obtain ⟨rfl, htells⟩ := gives_removeNode hhas hg
    refine ⟨rfl, ?_⟩
    rw [if_pos hn, hs.subtree_detach hhas] at htells
    rcases htells with ⟨hnone, -⟩ | ⟨-, hinforms⟩
    · have hself : n ∈ h.page.tree.subtree n := (hs.mem_subtree hhas).mpr (Tree.under_self _ n)
      rw [hnone] at hself
      cases hself
    · rw [hinforms.informed hq hran]
      have hbooks : Books F (h.setTree (h.page.tree.detach n)) := hb.frame rfl rfl rfl rfl rfl rfl rfl
      refine (torn_informedAll hbooks _ _).congr fun {rt b} hbound => ?_
      rw [hs.mem_subtree hhas, ← Tree.contains_iff]
      refine and_iff_right ?_
      obtain ⟨r, hr, hne⟩ := hb.working hbound
      exact ⟨_, hw.told hr hne⟩

/-! ## Sessions -/

/-- What is not bound is forgotten for good, if nobody else touches what the runtime registers. -/
theorem session_forgotten (depth : Nat) (as : List Action) (url : String) (globals : Globals) (scopes : List Value)
    (rt : Nat) (hf : ∀ m ∈ (play depth as (.new url globals scopes) []).2, Fair (· = rt) m) (later earlier : History)
    (m : Moment) (hs : (play depth as (.new url globals scopes) []).2 = later ++ m :: earlier) (r : Runtime Script)
    (hr : m.host.runtimes[rt]? = some r) (ho : r.ownsTracker = true) (id : Nat) (hid : id ≤ r.lastId)
    (hn : ∀ b ∈ r.bindings, b.id ≠ id) : ∀ m' ∈ later, Forgotten m'.host rt id ∧ ¬m'.Evaluates rt id := by
  intro m' hm'
  have htold := session_told depth as url globals scopes hf
  rw [hs] at htold
  refine ⟨?_, over_of_told htold hr ho hid hn m' hm'⟩
  have honward := htold.split.2.1 m' hm'
  obtain ⟨r', hr', hlater⟩ := honward.runtimes rt r hr
  obtain ⟨_, hfit⟩ := htold.mem (List.mem_append_left _ hm')
  have hc := consistent_of_fit hfit hr' (hlater.owns.trans ho)
  refine forgotten_of_consistent hc hr' fun b hb e => ?_
  obtain ⟨b₀, hb₀, e₀⟩ := hlater.bound hb (e ▸ hid)
  exact hn b₀ hb₀ (e₀.trans e)

/-- Every removal of a connected node in a session, if the other observers only watch, takes
    exactly the bindings of the subtree with it, and what is registered for them. They are
    forgotten, and if the runtime has a tracker of its own and nobody else touches what it
    registers, for good; no evaluation of them begins any more. The other bindings are
    untouched. -/
theorem session_teardown (depth : Nat) (as : List Action) (url : String) (globals : Globals) (scopes : List Value)
    (later earlier : History) (n : NodeId) (a : Answer) (h' : Host)
    (hs : (play depth as (.new url globals scopes) []).2 = later ++ .ends (.act (.removeNode n)) a h' :: earlier) :
    ∃ h inner before, earlier = inner ++ .begins (.act (.removeNode n)) h :: before ∧
      (Task.act (.removeNode n)).Came h a h'
        (.ends (.act (.removeNode n)) a h' :: (inner ++ [.begins (.act (.removeNode n)) h])) ∧
      (h.page.tree.isConnected n = true → (∀ o ∈ h.page.observers, o.2.Quiet) →
        a = .done ∧
        Torn (fun _ b => h.page.tree.contains n b.element = true) (h.setTree (h.page.tree.detach n)) h' ∧
        ∀ rt b, Binds h.runtimes rt b →
          (h.page.tree.contains n b.element = false → Untouched h h' rt b) ∧
          (h.page.tree.contains n b.element = true → Forgotten h' rt b.id ∧
            ∀ k, Owns h.runtimes rt k → (∀ m ∈ (play depth as (.new url globals scopes) []).2, Fair (· = rt) m) →
              ∀ m ∈ later, Forgotten m.host rt b.id ∧ ¬m.Evaluates rt b.id)) := by
  obtain ⟨h, inner, before, rfl, hcame⟩ := session_whole depth as (.new url globals scopes) _ _ _ _ later earlier hs
  refine ⟨h, inner, before, rfl, hcame, fun hn hq => ?_⟩
  have hmem : .begins (.act (.removeNode n)) h ∈ (play depth as (.new url globals scopes) []).2 :=
    hs ▸ List.mem_append_right _ (List.mem_cons_of_mem _ (List.mem_append_right _ List.mem_cons_self))
  have htold := session_told (F := fun _ => False) depth as url globals scopes fun m _ => fair_nobody m
  obtain ⟨_, hfit⟩ := htold.mem hmem
  have hb : Books (fun _ => False) h := Kept.books hfit
  have hsound := ((session_tended depth as url globals scopes).kempt hmem).1
  obtain ⟨depth', hrun⟩ := hcame.run
  obtain ⟨hdone, ht⟩ := torn_removal hb (session_watched depth as url globals scopes _ hmem) hsound hn hq hrun
  have hb' : Books (fun _ => False) (h.setTree (h.page.tree.detach n)) := hb.frame rfl rfl rfl rfl rfl rfl rfl
  refine ⟨hdone, ht, fun rt b hbound => ⟨fun hout => ?_, fun hin => ?_⟩⟩
  · obtain ⟨binds, listeners, entries, timers⟩ := ht.untouched hb' hbound (Bool.eq_false_iff.mp hout)
    exact ⟨binds, listeners, entries, timers⟩
  · have hgone := ht.forgotten hb' hbound hin
    refine ⟨hgone, fun k ⟨r, hr, ho, _⟩ hf => ?_⟩
    obtain ⟨bs, leaving, hr', -⟩ := ht.rows hr
    refine session_forgotten depth as url globals scopes rt hf later _ _ hs _ hr' ho b.id ?_ fun b' hb' => ?_
    · obtain ⟨r₀, hr₀, hbr⟩ := hbound
      cases hr.symm.trans hr₀
      exact (hb.runtimes hr).issued (.inl hbr)
    · exact hgone.bindings ⟨_, hr', hb'⟩

/-- A list whose item is clicked: the effect writes to the scope, and a subscriber there
    removes the list. A debounced binding of the item waits meanwhile. -/
def emptiedList : List Action :=
  [.appendElement 3 "ul", .appendElement 4 "li",
    .newRuntime ⟨none, false, none, .custom fun _ _ => .tell ["empty"] (.boolean true) fun _ => .done (.ok .undefined)⟩,
    .bindDirective 0 5 ⟨"x-on:click.debounce", "click", [.debounce none], "saved = true"⟩ 0,
    .bindDirective 0 5 ⟨"x-on:click", "click", [], "empty = true"⟩ 0,
    .bindDirective 0 3 ⟨"x-on:click.outside", "click", [.outside], "open = false"⟩ 0,
    .subscribe 0 none (.mk "list" [.removeNode 4]), .click 5, .advance none 1000]

def emptied : History := (play 9 emptiedList (.new "" .browser [.empty]) []).2

/-- The list is in the document and nobody but runtimes watches it; a binding that waits
    belongs to it, and the third one does not. -/
def listStands (h : Host) : Bool :=
  h.page.tree.isConnected 4 &&
    h.page.observers.all (fun o => match o.2 with | .script _ => false | .runtime _ => true) &&
    h.runtimes[0]?.any fun r => r.ownsTracker &&
      r.bindings.any (fun b => b.id == 1 && b.waiting.isSome && h.page.tree.contains 4 b.element) &&
      r.bindings.any fun b => b.id == 3 && !h.page.tree.contains 4 b.element

/-- What there is to see of a moment: a removal begins while the list stands, and no action
    takes back anything by its id. -/
def Moment.asSeen : Moment → Bool
  | .begins (.act (.removeNode _)) h => listStands h
  | .begins (.act (.unlisten _)) _ | .begins (.act (.clear ..)) _ | .begins (.act (.registerOutside ..)) _
  | .begins (.act (.unregisterOutside ..)) _ | .begins (.act (.resetTracker _)) _ => false
  | _ => true

def Moment.isRemoved : Moment → Bool
  | .ends (.act (.removeNode 4)) _ _ => true
  | _ => false

theorem fair_of_asSeen {m : Moment} (hm : m.asSeen = true) : Fair F m := by
  cases m with
  | ends t r h => trivial
  | begins t h =>
    cases t with
    | act a => cases a <;> first | exact trivial | cases hm
    | _ => trivial

theorem emptiedList_teardown : ∃ later a h' earlier h b b',
    emptied = later ++ .ends (.act (.removeNode 4)) a h' :: earlier ∧ .begins (.act (.removeNode 4)) h ∈ earlier ∧
      (Binds h.runtimes 0 b ∧ b.waiting.isSome = true ∧ Forgotten h' 0 b.id ∧ ∀ m ∈ later, ¬m.Evaluates 0 b.id) ∧
      Binds h.runtimes 0 b' ∧ Untouched h h' 0 b' := by
  have hseen : ∀ m ∈ emptied, m.asSeen = true := List.all_eq_true.mp (by decide +kernel)
  obtain ⟨m, hm, hremoved⟩ : ∃ m ∈ emptied, m.isRemoved = true := List.any_eq_true.mp (by decide +kernel)
  obtain ⟨a, h', rfl⟩ : ∃ a h', m = .ends (.act (.removeNode 4)) a h' := by
    unfold Moment.isRemoved at hremoved
    split at hremoved
    · exact ⟨_, _, rfl⟩
    · cases hremoved
  obtain ⟨later, earlier, hs⟩ := List.append_of_mem hm
  obtain ⟨h, inner, before, rfl, -, hremoval⟩ :=
    session_teardown 9 emptiedList "" .browser [.empty] later earlier 4 a h' hs
  have hbegun : .begins (.act (.removeNode 4)) h ∈ inner ++ .begins (.act (.removeNode 4)) h :: before :=
    List.mem_append_right _ List.mem_cons_self
  have hstands : listStands h = true := hseen (.begins (.act (.removeNode 4)) h)
    (hs ▸ List.mem_append_right _ (List.mem_cons_of_mem _ hbegun))
  simp only [listStands, Bool.and_eq_true, List.all_eq_true, Option.any_eq_true, List.any_eq_true, beq_iff_eq,
    Bool.not_eq_true'] at hstands
  obtain ⟨⟨hn, hquiet⟩, r, hr, ⟨ho, b, hb, ⟨-, hwait⟩, hin⟩, b', hb', -, hout⟩ := hstands
  obtain ⟨-, -, hbindings⟩ := hremoval hn fun o hq => by
    have := hquiet o hq
    cases h : o.2 with
    | script s => rw [h] at this; cases this
    | runtime rt => trivial
  obtain ⟨hforgotten, hover⟩ := (hbindings 0 b ⟨r, hr, hb⟩).2 hin
  refine ⟨later, a, h', _, h, b, b', hs, hbegun, ⟨⟨r, hr, hb⟩, hwait, hforgotten, fun m hm => ?_⟩, ⟨r, hr, hb'⟩,
    (hbindings 0 b' ⟨r, hr, hb'⟩).1 hout⟩
  exact (hover _ ⟨r, hr, ho, rfl⟩ (fun m hm => fair_of_asSeen (hseen m hm)) m hm).2

/-- Two runtimes with one tracker, and an `.outside` binding of each: on the body and on the
    head. -/
def neighbours : List Action :=
  [.newTracker, .newRuntime ⟨none, false, some 0, .custom fun _ _ => .done (.ok .undefined)⟩,
    .newRuntime ⟨none, false, some 0, .custom fun _ _ => .done (.ok .undefined)⟩,
    .bindDirective 0 3 ⟨"x-on:click.outside", "click", [.outside], "open = false"⟩ 0,
    .bindDirective 1 2 ⟨"x-on:click.outside", "click", [.outside], "open = false"⟩ 0]

/-- When the body is removed, the binding on the head is still bound but waits no longer. -/
theorem neighbours_robbed : ∃ h h' b, (play 3 neighbours (.new "" .browser []) []).1 = some h ∧
    (play 3 (neighbours ++ [.removeNode 3]) (.new "" .browser []) []).1 = some h' ∧
    h.page.tree.isConnected 3 = true ∧ (∀ o ∈ h.page.observers, o.2.Quiet) ∧ Binds h.runtimes 1 b ∧
    b.plan.isOutside = true ∧ h.page.tree.contains 3 b.element = false ∧ entryOf 1 b ∈ (h.tracker 0).entries ∧
    Binds h'.runtimes 1 b ∧ entryOf 1 b ∉ (h'.tracker 0).entries := by
  refine ⟨_, _, _, rfl, rfl, rfl, ?_, ⟨_, rfl, List.mem_of_getElem? (i := 0) rfl⟩, rfl, rfl,
    List.mem_of_getElem? (i := 1) rfl, ⟨_, rfl, List.mem_of_getElem? (i := 0) rfl⟩, ?_⟩
  · exact List.forall_mem_cons.mpr ⟨trivial, List.forall_mem_cons.mpr ⟨trivial, List.forall_mem_nil _⟩⟩
  · exact List.not_mem_nil

end Eventful.Host
