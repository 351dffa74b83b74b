import Eventful.Proofs.Host.Pipeline
import Eventful.Proofs.Page.Way

/-
  Eventful.Proofs.Host.Outside — which entries a tracker calls for an event.

  A walk goes through the entries that stood there for the event when it began. Callbacks
  may register and unregister entries meanwhile, and move elements about; so each entry is
  looked at when its turn comes (`Visited`), and if callbacks leave all that as it is, the
  entries that wait for the event then are called, in order (`Walked`).

  - `session_outside`: so are all walks of a session, and all calls of entries are part of
    one. Events that start in a detached part of the page are not walked for.
-/

namespace Eventful.Binding

open Page

/-- The element waits for an event that starts there: it is in the document, has a box, and
    the event does not start in it. The window and the document are in no element. -/
structure Awaits (t : Tree) (element : NodeId) (target : Target) : Prop where
  connected : t.isConnected element = true
  box : ∃ e, t.element? element = some e ∧ (1 ≤ e.box.width ∨ 1 ≤ e.box.height)
  outside : ∀ n, target = .node n → t.contains element n = false

theorem isOutside_iff {t : Tree} {element : NodeId} {target : Target} :
    isOutside t element target = true ↔ ∀ n, target = .node n → t.contains element n = false := by
  unfold isOutside
  cases target with
  | node n => simp
  | window => simp
  | document => simp

theorem isInteractable_iff {t : Tree} {element : NodeId} :
    isInteractable t element = true ↔
      t.isConnected element = true ∧ ∃ e, t.element? element = some e ∧ (1 ≤ e.box.width ∨ 1 ≤ e.box.height) := by
  simp [isInteractable, Option.any_eq_true, Box.isVisible]

theorem acceptsOutside_iff {t : Tree} {element : NodeId} {target : Target} :
    acceptsOutside t element target = true ↔ Awaits t element target := by
  unfold acceptsOutside
  rw [Bool.and_eq_true, isOutside_iff, isInteractable_iff]
  constructor
  · intro ⟨ho, hc, hb⟩
    exact ⟨hc, hb, ho⟩
  · intro h
    exact ⟨h.outside, h.connected, h.box⟩

instance (t : Tree) (element : NodeId) (target : Target) : Decidable (Awaits t element target) :=
  decidable_of_iff _ acceptsOutside_iff

end Eventful.Binding

namespace Eventful.Host

open Page Binding Directive

variable {h h' : Host} {tr earlier : History} {rt k : Nat} {e e' : Event} {w : Entry Waiter} {ws ws₁ ws₂ : List (Entry Waiter)}
  {vs : List Visit} {κ : Kind}

/-! ## Turns -/

/-- An entry that stood in the tracker is to be called for the event: its id is still
    registered, and its element waits. -/
def Awaited (h : Host) (k : Nat) (w : Entry Waiter) (target : Target) : Prop :=
  (h.tracker k).isRegistered w.binding = true ∧ Awaits h.page.tree w.element target

theorem accepts_iff : h.accepts k w e = true ↔ h.Awaited k w e.target := by
  unfold accepts Awaited
  rw [Bool.and_eq_true, acceptsOutside_iff]

theorem registered_congr {t t' : Tracker Waiter} (he : t'.entries = t.entries) (id : Nat) :
    t'.isRegistered id = t.isRegistered id := by
  unfold Tracker.isRegistered
  rw [he]

theorem registered_of_mem {t : Tracker Waiter} (hw : w ∈ t.entries) : t.isRegistered w.binding = true :=
  List.any_eq_true.mpr ⟨w, hw, beq_self_eq_true _⟩

/-- A walk begins with the entries as they are. -/
theorem entries_beginWalk (h : Host) (k : Nat) :
    ((h.setTracker k (h.tracker k).beginWalk).tracker k).entries = (h.tracker k).entries := by
  show (trackerAt (h.trackers.set k (h.tracker k).beginWalk) k).entries = _
  by_cases hk : k < h.trackers.length
  · rw [trackerAt_set _ _ hk, if_pos rfl]
    rfl
  · rw [List.set_eq_of_length_le (Nat.le_of_not_lt hk)]
    rfl

theorem select_beginWalk (h : Host) (k : Nat) (event : String) :
    ((h.setTracker k (h.tracker k).beginWalk).tracker k).select event = (h.tracker k).select event := by
  unfold Tracker.select
  rw [entries_beginWalk]

theorem awaited_beginWalk {target : Target} :
    (h.setTracker k (h.tracker k).beginWalk).Awaited k w target ↔ h.Awaited k w target := by
  unfold Awaited
  rw [registered_congr (entries_beginWalk h k)]
  rfl

/-- The host in which the next turn comes, after these calls. -/
def turnHost (h : Host) (vs : List Visit) : Host := (vs.getLast?.map Visit.after).getD h

theorem Walk.host (hw : Walk k ws e h vs e' h') : h' = turnHost h vs := by
  induction hw with
  | nil => rfl
  | passed _ _ ih => exact ih
  | @called _ _ _ _ r h h₁ h' vs _ _ ih =>
    rw [ih]
    cases vs with
    | nil => rfl
    | cons v vs => simp [turnHost, List.getLast?_cons]

theorem Walk.kept (hw : Walk k ws e h vs e' h') (hv : ∀ v ∈ vs, v.event.Handled v.back) : e.Handled e' := by
  induction hw with
  | nil => exact .untouched
  | passed _ _ ih => exact ih hv
  | called _ _ ih =>
    obtain ⟨hback, hv⟩ := List.forall_mem_cons.mp hv
    exact hback.trans (ih hv)

/-- The turns of some entries come, and then those of the others. -/
theorem Walk.split (hw : Walk k (ws₁ ++ ws₂) e h vs e' h') :
    ∃ vs₁ vs₂ e₁ h₁, vs = vs₁ ++ vs₂ ∧ Walk k ws₁ e h vs₁ e₁ h₁ ∧ Walk k ws₂ e₁ h₁ vs₂ e' h' := by
  induction ws₁ generalizing e h vs with
  | nil => exact ⟨[], vs, e, h, rfl, .nil, hw⟩
  | cons w ws₁ ih =>
    cases hw with
    | passed ha hw =>
      obtain ⟨vs₁, vs₂, e₁, h₁, rfl, hw₁, hw₂⟩ := ih hw
      exact ⟨vs₁, vs₂, e₁, h₁, rfl, .passed ha hw₁, hw₂⟩
    | called ha hw =>
      obtain ⟨vs₁, vs₂, e₁, h₁, rfl, hw₁, hw₂⟩ := ih hw
      exact ⟨_ :: vs₁, vs₂, e₁, h₁, rfl, .called ha hw₁, hw₂⟩

/-- If tree and entries stay as they are, so does which entries are to be called. -/
theorem Walk.calm (hw : Walk k ws e h vs e' h') (hv : ∀ v ∈ vs, v.event.Handled v.back)
    (hc : ∀ v ∈ vs, v.after.page.tree = v.before.page.tree ∧ (v.after.tracker k).entries = (v.before.tracker k).entries) :
    vs.map Visit.entry = ws.filter fun w => h.accepts k w e := by
  induction hw with
  | nil => rfl
  | @passed _ _ e _ h _ _ ha _ ih =>
    rw [List.filter_cons_of_neg (p := fun w => h.accepts k w e) ((Bool.not_eq_true _).mpr ha)]
    exact ih hv hc
  | @called w _ e _ r h h₁ _ _ ha _ ih =>
    obtain ⟨hback, hv⟩ := List.forall_mem_cons.mp hv
    obtain ⟨⟨htree, hentries⟩, hc⟩ := List.forall_mem_cons.mp hc
    rw [List.filter_cons_of_pos (p := fun w => h.accepts k w e) ha, List.map_cons, ih hv hc]
    refine congrArg (w :: ·) (List.filter_congr fun w' _ => ?_)
    unfold accepts
    rw [registered_congr hentries, htree, hback.same.2.1]

/-! ## Walks through entries -/

/-- The entries that a walk has called so far; `h` is the host in which it began. -/
structure Visited (k : Nat) (e : Event) (h : Host) (vs : List Visit) : Prop where
  /-- They stood there as it began. They are called in the order in which they were
      registered, none of them twice. -/
  order : (vs.map Visit.entry).Sublist ((h.tracker k).select e.name)
  /-- Each was to be called when its turn came. -/
  awaited : ∀ v ∈ vs, v.before.Awaited k v.entry e.target

/-- The entries that a walk has called, to its end. -/
structure Walked (k : Nat) (e : Event) (h : Host) (vs : List Visit) : Prop extends Visited k e h vs where
  /-- The turn of every entry comes, and it is called if it is to be called then. -/
  turns : ∀ ws₁ w ws₂, (h.tracker k).select e.name = ws₁ ++ w :: ws₂ →
    ∃ vs₁ vs₂, vs = vs₁ ++ vs₂ ∧ (vs₁.map Visit.entry).Sublist ws₁ ∧
      ((turnHost h vs₁).Awaited k w e.target → ∃ v vs₃, vs₂ = v :: vs₃ ∧ v.entry = w) ∧
      (¬(turnHost h vs₁).Awaited k w e.target → (vs₂.map Visit.entry).Sublist ws₂)
  /-- If what is called leaves tree and entries as they are, those are called that wait. -/
  calm : (∀ v ∈ vs, v.after.page.tree = v.before.page.tree ∧ (v.after.tracker k).entries = (v.before.tracker k).entries) →
    vs.map Visit.entry = ((h.tracker k).select e.name).filter fun w => Awaits h.page.tree w.element e.target

theorem visited_of_walk {rest : List Visit} (hh : ∀ v ∈ vs, e.Handled v.event)
    (hw : Walk k (((h.setTracker k (h.tracker k).beginWalk).tracker k).select e.name) e
      (h.setTracker k (h.tracker k).beginWalk) (vs ++ rest) e' h') : Visited k e h vs where
  order := by
    have hall := hw.sublist
    rw [List.map_append, select_beginWalk] at hall
    exact (List.sublist_append_left _ _).trans hall
  awaited v hv := by
    have ha := accepts_iff.mp (hw.accepted v (List.mem_append_left _ hv))
    rw [(hh v hv).same.2.1] at ha
    exact ha

theorem awaited_turnHost {vs₁ : List Visit} {target : Target} :
    (turnHost (h.setTracker k (h.tracker k).beginWalk) vs₁).Awaited k w target ↔ (turnHost h vs₁).Awaited k w target := by
  unfold turnHost
  cases vs₁.getLast? with
  | none => exact awaited_beginWalk
  | some v => exact Iff.rfl

theorem walked_of_walk (hv : ∀ v ∈ vs, v.event.Handled v.back)
    (hw : Walk k (((h.setTracker k (h.tracker k).beginWalk).tracker k).select e.name) e
      (h.setTracker k (h.tracker k).beginWalk) vs e' h') : Walked k e h vs where
  toVisited := by
    have hall := hw
    rw [← List.append_nil vs] at hall
    refine visited_of_walk (fun v hmem => ?_) hall
    obtain ⟨vs₁, vs₂, rfl⟩ := List.append_of_mem hmem
    exact hw.handled rfl fun v' hv' => hv v' (List.mem_append_left _ hv')
  turns ws₁ w ws₂ hws := by
    rw [select_beginWalk, hws] at hw
    obtain ⟨vs₁, vs₂, e₁, h₁, rfl, hw₁, hw₂⟩ := hw.split
    obtain ⟨hv₁, -⟩ := List.forall_mem_append.mp hv
    refine ⟨vs₁, vs₂, rfl, hw₁.sublist, fun hx => ?_, fun hx => ?_⟩
    · rw [← awaited_turnHost, ← hw₁.host, ← (hw₁.kept hv₁).same.2.1, ← accepts_iff] at hx
      cases hw₂ with
      | passed ha _ => rw [ha] at hx; cases hx
      | called => exact ⟨_, _, rfl, rfl⟩
    · rw [← awaited_turnHost, ← hw₁.host, ← (hw₁.kept hv₁).same.2.1, ← accepts_iff] at hx
      cases hw₂ with
      | passed _ hw₂ => exact hw₂.sublist
      | called ha _ => exact absurd ha hx
  calm hc := by
    rw [hw.calm hv hc, select_beginWalk]
    refine List.filter_congr fun w hmem => ?_
    rw [Bool.eq_iff_iff, accepts_iff, awaited_beginWalk, decide_eq_true_iff]
    exact ⟨And.right, fun ha => ⟨registered_of_mem (List.mem_filter.mp hmem).1, ha⟩⟩

/-! ## The tracker of one runtime -/

/-- The tracker is the runtime's own: what it calls are bindings that are bound and waiting
    at that moment, each at most once. -/
structure OwnVisits (rt k : Nat) (vs : List Visit) : Prop where
  distinct : (vs.map (·.entry.binding)).Nodup
  bound : ∀ v ∈ vs, v.entry ∈ (v.before.tracker k).entries ∧
    ∃ b, Binds v.before.runtimes rt b ∧ b.plan.isOutside = true ∧ v.entry = entryOf rt b

/-- In a runtime's own tracker no entry takes the place of another. -/
theorem entered_of_registered {F : Nat → Prop} (hb : Books F h) (hb' : Books F h') (ho : Onward h h') (hF : F rt)
    (hown : Owns h.runtimes rt k) (hw : w ∈ (h.tracker k).entries) (hreg : (h'.tracker k).isRegistered w.binding = true) :
    w ∈ (h'.tracker k).entries ∧ ∃ b, Binds h'.runtimes rt b ∧ b.plan.isOutside = true ∧ w = entryOf rt b := by
  obtain ⟨_, ha⟩ := (hb.entries.own hF hown).mine hw
  obtain ⟨b, ⟨r, hr, hmem⟩, -, -, rfl⟩ := hb.entries.backed hw ha
  obtain ⟨w', hw', hsame⟩ := List.any_eq_true.mp hreg
  obtain ⟨_, ha'⟩ := (hb'.entries.own hF (ho.owns hown)).mine hw'
  obtain ⟨b', hbinds', -, hout, rfl⟩ := hb'.entries.backed hw' ha'
  obtain ⟨r', hr', hmem'⟩ := id hbinds'
  -- The ids are the same, so the bindings are.
  have hids : b'.id = b.id := beq_iff_eq.mp hsame
  have hsound := hb.runtimes hr
  obtain ⟨b₀, ⟨r₀, hr₀, hreach⟩, halike, -⟩ :=
    ho.reached hr ⟨r', hr', .inl hmem'⟩ (hids ▸ hsound.issued (.inl hmem))
  cases hr.symm.trans hr₀
  cases hsound.unique hreach (.inl hmem) (halike.id.symm.trans hids)
  rw [← entryOf_congr halike]
  exact ⟨hw', b', hbinds', hout, rfl⟩

theorem ownVisits_of_visited {F : Nat → Prop} (hF : F rt) (hb : Books F h) (hown : Owns h.runtimes rt k)
    (hlater : ∀ v ∈ vs, Books F v.before ∧ Onward h v.before) (hv : Visited k e h vs) : OwnVisits rt k vs where
  distinct := by
    have hselect := ((hv.order.trans List.filter_sublist).map (·.binding)).nodup (hb.entries.own hF hown).distinct
    rwa [List.map_map] at hselect
  bound v hmem := by
    have hstood := (hv.order.trans List.filter_sublist).subset (List.mem_map_of_mem hmem)
    obtain ⟨hbooks, honward⟩ := hlater v hmem
    exact entered_of_registered hb hbooks honward hF hown hstood (hv.awaited v hmem).1

/-! ## Sessions -/

/-- A task that began in a history in which all tasks came back is one of these. -/
theorem Nested.ended {later : History} {t : Task κ} (hn : Nested tr) (htr : tr = later ++ .begins t h :: earlier) :
    ∃ r h' during after, later = after ++ .ends t r h' :: during ∧ Nested during := by
  induction hn generalizing later earlier with
  | nil => simp at htr
  | @task _ t₁ r₁ h₁ h₂ inner before hinner _ ih ih' =>
    cases later with
    | nil => cases htr
    | cons m later =>
      obtain ⟨rfl, hsplit⟩ := List.cons.inj htr
      rcases split_append hsplit with ⟨rest, rfl⟩ | ⟨rest, rfl, hbefore⟩
      · obtain ⟨r, h', during, after, rfl, hd⟩ := ih rfl
        exact ⟨r, h', during, _ :: after, rfl, hd⟩
      · cases rest with
        | nil =>
          cases hbefore
          exact ⟨r₁, h₂, inner, [], by rw [List.append_nil]; rfl, hinner⟩
        | cons m' rest =>
          obtain ⟨rfl, rfl⟩ := List.cons.inj hbefore
          obtain ⟨r, h', during, after, rfl, hd⟩ := ih' rfl
          exact ⟨r, h', during, .ends t₁ r₁ h₂ :: (inner ++ .begins t₁ h₁ :: after), by simp, hd⟩

/-- A tracker's listener is called in dispatches that come to the document. -/
theorem connected_of_listen {F : Nat → Prop} {l : Listener Reaction} (hp : (Moment.begins (.listen l e) h).Placed tr)
    (ht : Tended tr) (htold : Told F tr) (ha : l.action = .tracker k) :
    ∃ a h₀, a.target? = some e.target ∧ CalledBy (.act a) h₀ (.listen l e) h tr ∧
      ∀ n, e.target = .node n → h₀.page.tree.isConnected n = true := by
  obtain ⟨-, a, h₀, htarget, hcalled, r, hr, m, hm, hstands⟩ := summoned_of_listen hp ht
  refine ⟨a, h₀, htarget, hcalled, fun n hn => ?_⟩
  obtain ⟨_, hfit⟩ := htold.mem hm
  obtain ⟨_, _, _, htr, -, -⟩ := hcalled
  have hbegan : .begins (.act a) h₀ ∈ tr := htr ▸ List.mem_append_right _ List.mem_cons_self
  rw [hn] at hr
  exact connected_of_round (ht.kempt hbegan).1 hr ((listenerBooks_of_fit hfit).serves hstands ha).1

/-- What is known of the calls of a walk from the history in which they were made. -/
theorem onward_of_spans {F : Nat → Prop} {l : Listener Reaction} {inner before : History}
    (ht : Told F (inner ++ .begins (.listen l e) h :: before))
    (hv : ∀ v ∈ vs, .begins (.outside v.entry v.event) v.before ∈ inner) :
    Books F h ∧ ∀ v ∈ vs, Books F v.before ∧ Onward h v.before := by
  obtain ⟨htold, honward, hfits⟩ := ht.split
  refine ⟨htold.1.1.books, fun v hmem => ⟨?_, honward _ (hv v hmem)⟩⟩
  obtain ⟨_, hfit⟩ := hfits _ (hv v hmem)
  exact hfit.1.books

/-- The call of an entry, in the walk that it is part of. -/
theorem visited_of_outside {w : Entry Waiter} {e₁ : Event} (hp : (Moment.begins (.outside w e₁) h₁).Placed tr) (ht : Tended tr) :
    ∃ l e h k vs inner before, tr = inner ++ .begins (.listen l e) h :: before ∧ l.action = .tracker k ∧
      Spans (vs.map Visit.call) inner ∧ ∀ r h₂, Visited k e h (vs ++ [⟨w, e₁, h₁, r, h₂⟩]) ∧
        ∀ rt, Told (· = rt) (.begins (.outside w e₁) h₁ :: tr) → Owns h.runtimes rt k →
          OwnVisits rt k (vs ++ [⟨w, e₁, h₁, r, h₂⟩]) := by
  obtain ⟨l, e, h, k, vs, inner, before, rfl, ha, hspans, hhandled, he₁, hwalk⟩ := walk_of_outside hp ht
  refine ⟨l, e, h, k, vs, inner, before, rfl, ha, hspans, fun r h₂ => ?_⟩
  have hall : ∀ v ∈ vs ++ [⟨w, e₁, h₁, r, h₂⟩], e.Handled v.event :=
    List.forall_mem_append.mpr ⟨hhandled, List.forall_mem_singleton.mpr he₁⟩
  obtain ⟨rest, e', h', hw⟩ := hwalk r h₂
  rw [List.append_cons] at hw
  have hvisited := visited_of_walk hall hw
  refine ⟨hvisited, fun rt htold hk => ?_⟩
  have hbegan : ∀ v ∈ vs ++ [⟨w, e₁, h₁, r, h₂⟩],
      .begins (.outside v.entry v.event) v.before ∈ .begins (.outside w e₁) h₁ :: inner := by
    intro v hv
    rcases List.mem_append.mp hv with hv | hv
    · exact List.mem_cons_of_mem _ (hspans.mem (List.mem_map_of_mem hv)).1
    · rw [List.mem_singleton.mp hv]
      exact List.mem_cons_self
  obtain ⟨hbooks, hlater⟩ := onward_of_spans htold hbegan
  exact ownVisits_of_visited (F := (· = rt)) rfl hbooks hk hlater hvisited

/-- A walk that came to its end. -/
theorem walked_of_listen {l : Listener Reaction} {r : Event} (hp : (Moment.ends (.listen l e) r h').Placed tr) (ht : Tended tr)
    (ha : l.action = .tracker k) :
    ∃ h vs inner before, tr = inner ++ .begins (.listen l e) h :: before ∧ Spans (vs.map Visit.call) inner ∧
      Walked k e h vs ∧ ∀ rt, Told (· = rt) tr → Owns h.runtimes rt k → OwnVisits rt k vs := by
  obtain ⟨h, cs, inner, before, rfl, hspans, hg⟩ := hp
  obtain ⟨vs, h₂, rfl, -, hw⟩ := walk_of_listen ha hg
  have hback : ∀ v ∈ vs, v.event.Handled v.back := fun v hv =>
    ht.handed (t := .outside v.entry v.event) (List.mem_append_left _ (hspans.mem (List.mem_map_of_mem hv)).2)
  have hwalked := walked_of_walk hback hw
  refine ⟨h, vs, inner, before, rfl, hspans, hwalked, fun rt htold hk => ?_⟩
  obtain ⟨hbooks, hlater⟩ := onward_of_spans htold fun v hv => (hspans.mem (List.mem_map_of_mem hv)).1
  exact ownVisits_of_visited (F := (· = rt)) rfl hbooks hk hlater hwalked.toVisited

/-- In a session every call of an entry is part of a walk of its tracker, which has called
    entries before as they were to be called (`Visited`), and every walk that comes to its
    end has called all that were (`Walked`). Whoever has a tracker to itself finds each
    binding called at most once, while it is bound. Walks are for events that start at the
    window, at the document or in the document, and end if the session comes back. -/
theorem session_outside (depth : Nat) (as : List Action) (url : String) (globals : Globals) (scopes : List Value)
    (later earlier : History) (m : Moment)
    (hs : (play depth as (.new url globals scopes) []).2 = later ++ m :: earlier) :
    (∀ w e₁ h₁, m = .begins (.outside w e₁) h₁ →
      ∃ l e h k vs inner before, earlier = inner ++ .begins (.listen l e) h :: before ∧ l.action = .tracker k ∧
        Spans (vs.map Visit.call) inner ∧ ∀ r h₂, Visited k e h (vs ++ [⟨w, e₁, h₁, r, h₂⟩]) ∧
          ∀ rt, (∀ m' ∈ (play depth as (.new url globals scopes) []).2, Fair (· = rt) m') → Owns h.runtimes rt k →
            OwnVisits rt k (vs ++ [⟨w, e₁, h₁, r, h₂⟩])) ∧
    (∀ l e r h' k, m = .ends (.listen l e) r h' → l.action = .tracker k →
      ∃ h vs inner before, earlier = inner ++ .begins (.listen l e) h :: before ∧ Spans (vs.map Visit.call) inner ∧
        Walked k e h vs ∧
          ∀ rt, (∀ m' ∈ (play depth as (.new url globals scopes) []).2, Fair (· = rt) m') → Owns h.runtimes rt k →
            OwnVisits rt k vs) ∧
    ∀ l e h k, m = .begins (.listen l e) h → l.action = .tracker k →
      (∃ a h₀, a.target? = some e.target ∧ CalledBy (.act a) h₀ (.listen l e) h earlier ∧
        ∀ n, e.target = .node n → h₀.page.tree.isConnected n = true) ∧
      ((play depth as (.new url globals scopes) []).1.isSome = true →
        ∃ r h' during after, later = after ++ .ends (.listen l e) r h' :: during ∧ Nested during) := by
  have htold := session_told (F := fun _ => False) depth as url globals scopes fun m _ => fair_nobody m
  have htended := session_tended depth as url globals scopes
  have hplaced := session_placed depth as (.new url globals scopes)
  have hown := fun rt => session_told (F := (· = rt)) depth as url globals scopes
  rw [hs] at htold htended hplaced hown
  obtain ⟨htold, -, -⟩ := htold.split
  have htended := htended.drop
  have hplaced := hplaced.drop
  refine ⟨fun w e₁ h₁ hm => ?_, fun l e r h' k hm ha => ?_, fun l e h k hm ha => ⟨?_, fun hback => ?_⟩⟩
  · subst hm
    obtain ⟨l, e, h, k, vs, inner, before, he, ha, hspans, hv⟩ := visited_of_outside hplaced.1 htended.2.2
    refine ⟨l, e, h, k, vs, inner, before, he, ha, hspans, fun r h₂ => ⟨(hv r h₂).1, fun rt hf => ?_⟩⟩
    exact (hv r h₂).2 rt (hown rt (hs ▸ hf)).split.1
  · subst hm
    obtain ⟨h, vs, inner, before, he, hspans, hwalked, hv⟩ := walked_of_listen hplaced.1 htended.2.2 ha
    exact ⟨h, vs, inner, before, he, hspans, hwalked, fun rt hf => hv rt (hown rt (hs ▸ hf)).split.1.2.2.2⟩
  · subst hm
    exact connected_of_listen hplaced.1 htended.2.2 htold.2.2.2 ha
  · subst hm
    obtain ⟨h', hplay⟩ := Option.isSome_iff_exists.mp hback
    obtain ⟨inner, hnested, he⟩ := nested_play depth as (.new url globals scopes) [] hplay
    rw [List.append_nil] at he
    exact hnested.ended (he.symm.trans hs)

/-- A binding that waits for clicks outside of its element. -/
def closing : Directive := ⟨"x-on:click.outside", "click", [.outside], "open = false"⟩

/-- Three such bindings of one element, a click beside it, and an error hook that unbinds
    the second of them. -/
def clickedBeside : List Action :=
  [.appendElement 3 "div", .setSize 4 100 20,
    .newRuntime ⟨none, false, none, .custom fun _ _ => .done (.error .notATarget)⟩,
    .onError 0 (.mk "closed" [.unbind 0 2]),
    .bindDirective 0 4 closing 0, .bindDirective 0 4 closing 0, .bindDirective 0 4 closing 0,
    .click 3]

/-- The turn of the third entry comes after that of the second, which is passed over. -/
theorem clickedBeside_outside : ∃ later earlier w e₁ h₁,
    (play 6 clickedBeside (.new "" .browser []) []).2 = later ++ .begins (.outside w e₁) h₁ :: earlier ∧
      w.binding = 3 ∧ later.length = 9 ∧
      ∃ l e h k vs inner before, earlier = inner ++ .begins (.listen l e) h :: before ∧ l.action = .tracker k ∧
        Spans (vs.map Visit.call) inner ∧ ∀ r h₂, Visited k e h (vs ++ [⟨w, e₁, h₁, r, h₂⟩]) ∧
          (Owns h.runtimes 0 k → OwnVisits 0 k (vs ++ [⟨w, e₁, h₁, r, h₂⟩])) := by
  have hf : ∀ m ∈ (play 6 clickedBeside (.new "" .browser []) []).2, Fair (· = 0) m := by
    repeat' first | exact List.forall_mem_nil _ | refine List.forall_mem_cons.mpr ⟨trivial, ?_⟩
  have ho := (session_outside 6 clickedBeside "" .browser [] _ _ (.begins (.outside _ _) _) (List.take_append_drop 9 _).symm).1
    _ _ _ rfl
  obtain ⟨l, e, h, k, vs, inner, before, he, ha, hspans, hv⟩ := ho
  refine ⟨_, _, _, _, _, (List.take_append_drop 9 _).symm, rfl, rfl, l, e, h, k, vs, inner, before, he, ha, hspans, fun r h₂ => ?_⟩
  exact ⟨(hv r h₂).1, (hv r h₂).2 0 hf⟩

end Eventful.Host
