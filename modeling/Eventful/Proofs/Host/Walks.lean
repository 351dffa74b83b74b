import Eventful.Proofs.Host.Doings
import Eventful.Proofs.Host.Rounds

/-
  Eventful.Proofs.Host.Walks — who calls listeners and entries.

  A tracker's listener walks through the entries that stood there for the event when the
  walk began (`Walk`): each is called when its turn comes, if its id is still registered
  and its element waits outside of the event's target.

  Listeners are called by actions that dispatch an event (`called_of_listen`), entries by
  trackers' listeners (`called_of_outside`), and nobody else calls either. A listener that
  is called stood at the target of a round of that dispatch (`summoned_of_listen`).
-/

namespace Eventful.Host

open Page Binding

variable {κ : Kind} {t : Task κ} {h h' h₀ h₁ : Host} {tr : History} {k : Nat} {e e' : Event} {calls : List Call}

/-! ## Walks -/

/-- A call of an entry: the event that it is given, and as it comes back. -/
structure Visit where
  entry : Entry Waiter
  event : Event
  before : Host
  back : Event
  after : Host

def Visit.call (v : Visit) : Call := ⟨.outside v.entry v.event, v.before, v.back, v.after⟩

theorem Visit.call_injective : Function.Injective Visit.call := by
  rintro ⟨w, e, h, r, h'⟩ ⟨w₁, e₁, h₁, r₁, h₁'⟩ he
  cases he
  rfl

theorem split_visits {rest : List Call} {c : Call} {vs : List Visit} (h : vs.map Visit.call = calls ++ c :: rest) :
    ∃ vs₁ v vs₂, vs = vs₁ ++ v :: vs₂ ∧ vs₁.map Visit.call = calls ∧ v.call = c := by
  obtain ⟨vs₁, vs', rfl, hvs, hrest⟩ := List.map_eq_append_iff.mp h
  obtain ⟨v, vs₂, rfl, hv, -⟩ := List.map_eq_cons_iff.mp hrest
  exact ⟨vs₁, v, vs₂, rfl, hvs, hv⟩

/-- The turn of the entry comes: it is called. -/
def accepts (h : Host) (k : Nat) (w : Entry Waiter) (e : Event) : Bool :=
  (h.tracker k).isRegistered w.binding && acceptsOutside h.page.tree w.element e.target

/-- The turns of the entries come in order; each is called or passed over. -/
inductive Walk (k : Nat) : List (Entry Waiter) → Event → Host → List Visit → Event → Host → Prop
  | nil {e : Event} {h : Host} : Walk k [] e h [] e h
  | passed {w : Entry Waiter} {rest : List (Entry Waiter)} {e e' : Event} {h h' : Host} {vs : List Visit} :
    h.accepts k w e = false → Walk k rest e h vs e' h' → Walk k (w :: rest) e h vs e' h'
  | called {w : Entry Waiter} {rest : List (Entry Waiter)} {e e' r : Event} {h h₁ h' : Host} {vs : List Visit} :
    h.accepts k w e = true → Walk k rest r h₁ vs e' h' → Walk k (w :: rest) e h (⟨w, e, h, r, h₁⟩ :: vs) e' h'

theorem walk_of_gives {ws : List (Entry Waiter)} (hg : (callEntries k e ws).Gives h calls e' h') :
    ∃ vs, calls = vs.map Visit.call ∧ Walk k ws e h vs e' h' := by
  induction ws generalizing e h calls with
  | nil =>
    obtain ⟨rfl, rfl, rfl⟩ := hg
    exact ⟨[], rfl, .nil⟩
  | cons w rest ih =>
    unfold callEntries at hg
    rw [gives_get] at hg
    split at hg
    · rename_i ha
      obtain ⟨r, h₁, calls', rfl, hrest⟩ := gives_call.mp hg
      obtain ⟨vs, rfl, hw⟩ := ih hrest
      exact ⟨⟨w, e, h, r, h₁⟩ :: vs, rfl, .called ha hw⟩
    · rename_i ha
      obtain ⟨vs, rfl, hw⟩ := ih hg
      exact ⟨vs, rfl, .passed ((Bool.not_eq_true _).mp ha) hw⟩

/-- None but the entries are called, in their order and each at most once. -/
theorem Walk.sublist {ws : List (Entry Waiter)} {vs : List Visit} (hw : Walk k ws e h vs e' h') :
    (vs.map Visit.entry).Sublist ws := by
  induction hw with
  | nil => exact List.Sublist.refl _
  | passed _ _ ih => exact ih.cons _
  | called _ _ ih => exact ih.cons_cons _

/-- An entry that is called was accepted just then. -/
theorem Walk.accepted {ws : List (Entry Waiter)} {vs : List Visit} (hw : Walk k ws e h vs e' h') :
    ∀ v ∈ vs, v.before.accepts k v.entry v.event = true := by
  induction hw with
  | nil => exact fun _ hv => by cases hv
  | passed _ _ ih => exact ih
  | called ha _ ih => exact List.forall_mem_cons.mpr ⟨ha, ih⟩

/-- The entries are called with the event as those before them left it. -/
theorem Walk.handled {ws : List (Entry Waiter)} {vs vs₁ vs₂ : List Visit} {v : Visit} (hw : Walk k ws e h vs e' h')
    (hv : vs = vs₁ ++ v :: vs₂) (hb : ∀ v ∈ vs₁, v.event.Handled v.back) : e.Handled v.event := by
  induction hw generalizing vs₁ with
  | nil => simp at hv
  | passed _ _ ih => exact ih hv hb
  | called _ _ ih =>
    cases vs₁ with
    | nil =>
      cases hv
      exact .untouched
    | cons v₁ vs₁ =>
      cases hv
      obtain ⟨hback, hb⟩ := List.forall_mem_cons.mp hb
      exact hback.trans (ih rfl hb)

/-- A tracker's listener walks through the entries for the event. -/
theorem walk_of_listen {l : Listener Reaction} (ha : l.action = .tracker k)
    (hg : (Task.listen l e).body.Gives h calls e' h') :
    ∃ vs h₂, calls = vs.map Visit.call ∧ h' = h₂.setTracker k (h₂.tracker k).endWalk ∧
      Walk k (((h.setTracker k (h.tracker k).beginWalk).tracker k).select e.name) e
        (h.setTracker k (h.tracker k).beginWalk) vs e' h₂ := by
  unfold Task.body at hg
  simp only [ha] at hg
  obtain ⟨e₁, h₂, calls₁, calls₂, rfl, hwalk, rfl, rfl, rfl⟩ := gives_bind.mp (show Proc.Gives (callEntries k e _ >>= _)
    (h.setTracker k (h.tracker k).beginWalk) _ _ _ from hg)
  obtain ⟨vs, rfl, hw⟩ := walk_of_gives hwalk
  exact ⟨vs, h₂, List.append_nil _, rfl, hw⟩

/-! ## Dispatches -/

theorem gives_back {r : Answer} (hg : (back e).Gives h calls r h') : calls = [] ∧ r = .event e := ⟨hg.1, hg.2.1⟩

theorem delivers_then {α : Type} {f : Event → Proc α} {g : Event → α} {target : Target} {a : α}
    (hf : ∀ {e h cs a h'}, (f e).Gives h cs a h' → cs = [] ∧ a = g e) (hg : (deliver target e >>= f).Gives h calls a h') :
    ∃ cs e' h₂, calls = cs.map Hearing.call ∧ a = g e' ∧ Delivers target e h cs e' h₂ := by
  obtain ⟨e', h₂, calls₁, calls₂, rfl, hd, hrest⟩ := gives_bind.mp hg
  obtain ⟨cs, rfl, hdel⟩ := delivers_of_gives hd
  obtain ⟨rfl, rfl⟩ := hf hrest
  exact ⟨cs, e', h₂, List.append_nil _, rfl, hdel⟩

theorem gives_eventOf {source : Source} {o : Option Event} (hg : (eventOf source).Gives h calls o h') : calls = [] ∧ h' = h := by
  cases source with
  | event e => exact ⟨hg.1, hg.2.2⟩
  | last => exact ⟨hg.1, hg.2.2⟩

/-- A click may check a box before its dispatch, and uncheck it after. -/
theorem delivers_of_click {n : NodeId} (hg : (click n).Gives h calls e' h') :
    ∃ e h₁ cs h₂, h₁.page.listeners = h.page.listeners ∧ h₁.page.way (.node n) = h.page.way (.node n) ∧
      calls = cs.map Hearing.call ∧ Delivers (.node n) e h₁ cs e' h₂ := by
  unfold click at hg
  rw [gives_get] at hg
  dsimp only at hg
  generalize ((h.page.tree.element? n).bind fun e => if e.isCheckbox then some e.checked else none) = before at hg
  cases before with
  | none =>
    dsimp only at hg
    obtain ⟨cs, e', h₂, rfl, rfl, hd⟩ := delivers_then (f := fun e => pure e) (g := id) (fun hg => ⟨hg.1, hg.2.1⟩) hg
    exact ⟨_, h, cs, h₂, rfl, rfl, rfl, hd⟩
  | some b =>
    have hrest : ∀ {e : Event} {h cs a h'}, Proc.Gives (do
        if e.prevented then
          modify fun h => h.setTree (h.page.tree.mapElement n fun e => { e with checked := b })
        return e : Proc Event) h cs a h' → cs = [] ∧ a = e := by
      intro e h cs a h' hg
      split at hg
      · exact ⟨hg.1, hg.2.1⟩
      · exact ⟨hg.1, hg.2.1⟩
    dsimp only at hg
    rw [gives_first] at hg
    obtain ⟨cs, e', h₂, rfl, rfl, hd⟩ := delivers_then (g := id) hrest hg
    refine ⟨_, _, cs, h₂, ?_, ?_, rfl, hd⟩
    · rfl
    · exact congrFun (way_mapElement h.page n _) _

/-- An action that dispatches an event may set what an element holds before, and calls
    nobody but listeners on the event's way. It answers with the event as that comes back. -/
theorem delivers_of_dispatch {a : Action} {target : Target} {r : Answer} (ha : a.target? = some target)
    (hg : (perform a).Gives h calls r h') :
    calls = [] ∨ ∃ e h₁ cs e' h₂, h₁.page.listeners = h.page.listeners ∧ h₁.page.way target = h.page.way target ∧
      calls = cs.map Hearing.call ∧ r = .event e' ∧ Delivers target e h₁ cs e' h₂ := by
  cases a with
  | dispatch t s =>
    cases ha
    obtain ⟨o, h₁, calls₁, calls₂, rfl, hsource, hrest⟩ := gives_bind.mp hg
    obtain ⟨rfl, rfl⟩ := gives_eventOf hsource
    cases o with
    | none => exact .inl hrest.1
    | some e =>
      obtain ⟨cs, e', h₂, rfl, rfl, hd⟩ := delivers_then gives_back hrest
      exact .inr ⟨e, _, cs, e', h₂, rfl, rfl, rfl, rfl, hd⟩
  | click n =>
    cases ha
    obtain ⟨e', h₃, calls₁, calls₂, rfl, hclick, hback⟩ := gives_bind.mp hg
    obtain ⟨rfl, rfl⟩ := gives_back hback
    obtain ⟨e, h₁, cs, h₂, hl, hw, rfl, hd⟩ := delivers_of_click hclick
    exact .inr ⟨e, h₁, cs, e', h₂, hl, hw, List.append_nil _, rfl, hd⟩
  | keyDown n k | keyUp n k =>
    cases ha
    obtain ⟨cs, e', h₂, rfl, rfl, hd⟩ := delivers_then gives_back hg
    exact .inr ⟨_, h, cs, e', h₂, rfl, rfl, rfl, rfl, hd⟩
  | input n v =>
    cases ha
    obtain ⟨e', h₃, calls₁, calls₂, rfl, hinput, hback⟩ := gives_bind.mp hg
    obtain ⟨rfl, rfl⟩ := gives_back hback
    unfold input at hinput
    rw [gives_first] at hinput
    obtain ⟨cs, rfl, hd⟩ := delivers_of_gives hinput
    refine .inr ⟨_, _, cs, e', h₃, ?_, ?_, List.append_nil _, rfl, hd⟩
    · rfl
    · exact congrFun (way_mapElement h.page n _) _
  | _ => cases ha

/-- A call in a dispatch, after others: the listener stood at the target of one of the rounds
    when that round began, and that was at the beginning or as another call came back. -/
structure Summoned (rs : List Round) (h : Host) (before : List Hearing) (c : Hearing) : Prop where
  passive : c.event.passive = c.listener.options.passive
  round : ∃ r ∈ rs, ∃ h₁ name, (h₁ = h ∨ ∃ c' ∈ before, h₁ = c'.after) ∧ c.listener ∈ h₁.snapshot r name

theorem Turns.host {ls : List (Listener Reaction)} {cs : List Hearing} (ht : Turns ls e h cs e' h') :
    h' = h ∨ ∃ c ∈ cs, h' = c.after := by
  induction ht with
  | nil => exact .inl rfl
  | passed _ _ ih => exact ih
  | called _ _ _ ih =>
    rcases ih with rfl | ⟨c, hc, rfl⟩
    · exact .inr ⟨_, List.mem_cons_self, rfl⟩
    · exact .inr ⟨c, List.mem_cons_of_mem _ hc, rfl⟩
  | stopped => exact .inr ⟨_, List.mem_cons_self, rfl⟩

theorem Turns.passive {ls : List (Listener Reaction)} {cs : List Hearing} (ht : Turns ls e h cs e' h') :
    ∀ c ∈ cs, c.event.passive = c.listener.options.passive := by
  induction ht with
  | nil => exact List.forall_mem_nil _
  | passed _ _ ih => exact ih
  | called _ _ _ ih => exact List.forall_mem_cons.mpr ⟨rfl, ih⟩
  | stopped => exact List.forall_mem_singleton.mpr rfl

theorem Rounds.host {rs : List Round} {cs : List Hearing} (hr : Rounds rs e h cs e' h') :
    h' = h ∨ ∃ c ∈ cs, h' = c.after := by
  induction hr with
  | nil => exact .inl rfl
  | stopped ht _ => exact ht.host
  | next ht _ _ ih =>
    rcases ih with rfl | ⟨c, hc, rfl⟩
    · rcases ht.host with rfl | ⟨c, hc, rfl⟩
      · exact .inl rfl
      · exact .inr ⟨c, List.mem_append_left _ hc, rfl⟩
    · exact .inr ⟨c, List.mem_append_right _ hc, rfl⟩

theorem Summoned.mono {rs rs' : List Round} {cs : List Hearing} {c : Hearing} (hs : Summoned rs h cs c) (hsub : rs ⊆ rs') :
    Summoned rs' h cs c := by
  obtain ⟨hp, r, hr, hs⟩ := hs
  exact ⟨hp, r, hsub hr, hs⟩

theorem Summoned.later {rs rs' : List Round} {cs₁ cs₂ : List Hearing} {c : Hearing} (hs : Summoned rs h₁ cs₂ c)
    (hsub : rs ⊆ rs') (hh : h₁ = h ∨ ∃ c' ∈ cs₁, h₁ = c'.after) : Summoned rs' h (cs₁ ++ cs₂) c := by
  obtain ⟨hp, r, hr, h₂, name, hh₂, hmem⟩ := hs
  refine ⟨hp, r, hsub hr, h₂, name, ?_, hmem⟩
  rcases hh₂ with rfl | ⟨c', hc', rfl⟩
  · exact hh.imp_right fun ⟨c', hc', he⟩ => ⟨c', List.mem_append_left _ hc', he⟩
  · exact .inr ⟨c', List.mem_append_right _ hc', rfl⟩

/-- A call among those of two parts is in the first, or after all of that in the second. -/
theorem Turns.summoned {r : Round} {name : String} {cs cs₁ cs₂ : List Hearing} {c : Hearing} {rs : List Round}
    (ht : Turns (h.snapshot r name) e h cs e' h') (hr : r ∈ rs) (hc : cs = cs₁ ++ c :: cs₂) : Summoned rs h cs₁ c := by
  have hmem : c ∈ cs := hc ▸ List.mem_append_right _ List.mem_cons_self
  exact ⟨ht.passive c hmem, r, hr, h, name, .inl rfl, ht.sublist.subset (List.mem_map_of_mem hmem)⟩

theorem Rounds.summoned {rs : List Round} {cs cs₁ cs₂ : List Hearing} {c : Hearing} (hr : Rounds rs e h cs e' h')
    (hc : cs = cs₁ ++ c :: cs₂) : Summoned rs h cs₁ c := by
  induction hr generalizing cs₁ cs₂ with
  | nil => simp at hc
  | stopped ht _ => exact ht.summoned List.mem_cons_self hc
  | next ht _ _ ih =>
    rcases split_append hc with ⟨cs₃, rfl⟩ | ⟨cs₃, rfl, rfl⟩
    · exact ht.summoned List.mem_cons_self rfl
    · exact (ih rfl).later (List.subset_cons_self _ _) ht.host

theorem Delivers.summoned {target : Target} {cs cs₁ cs₂ : List Hearing} {c : Hearing} (hd : Delivers target e h cs e' h')
    (hc : cs = cs₁ ++ c :: cs₂) :
    Summoned (roundsDown (h.page.way target) target ++ roundsUp (h.page.way target)) h cs₁ c := by
  cases hd with
  | down hr _ => exact (hr.summoned hc).mono (List.subset_append_left _ _)
  | up hr _ hr' =>
    rcases split_append hc with ⟨cs₃, rfl⟩ | ⟨cs₃, rfl, rfl⟩
    · exact (hr.summoned rfl).mono (List.subset_append_left _ _)
    · exact (hr'.summoned rfl).later (List.subset_append_right _ _) hr.host

/-- Where an event started stays so while listeners hand it on. -/
theorem Turns.target {ls : List (Listener Reaction)} {cs : List Hearing} (ht : Turns ls e h cs e' h')
    (hk : ∀ c ∈ cs, c.event.Handled c.back) : e'.target = e.target := by
  induction ht with
  | nil => rfl
  | passed _ _ ih => exact ih hk
  | called _ _ _ ih =>
    obtain ⟨hback, hk⟩ := List.forall_mem_cons.mp hk
    exact (ih hk).trans hback.same.2.1
  | stopped => exact (List.forall_mem_singleton.mp hk).same.2.1

theorem Turns.aimed {ls : List (Listener Reaction)} {cs cs₁ cs₂ : List Hearing} {c : Hearing} (ht : Turns ls e h cs e' h')
    (hc : cs = cs₁ ++ c :: cs₂) (hk : ∀ c ∈ cs₁, c.event.Handled c.back) : c.event.target = e.target := by
  induction ht generalizing cs₁ with
  | nil => simp at hc
  | passed _ _ ih => exact ih hc hk
  | called _ _ _ ih =>
    cases cs₁ with
    | nil =>
      cases hc
      rfl
    | cons c₁ cs₁ =>
      cases hc
      obtain ⟨hback, hk⟩ := List.forall_mem_cons.mp hk
      exact (ih rfl hk).trans hback.same.2.1
  | stopped =>
    cases cs₁ with
    | nil =>
      cases hc
      rfl
    | cons c₁ cs₁ => simp at hc

theorem Rounds.target {rs : List Round} {cs : List Hearing} (hr : Rounds rs e h cs e' h')
    (hk : ∀ c ∈ cs, c.event.Handled c.back) : e'.target = e.target := by
  induction hr with
  | nil => rfl
  | stopped ht _ => exact ht.target hk
  | next ht _ _ ih =>
    obtain ⟨hk, hk'⟩ := List.forall_mem_append.mp hk
    exact (ih hk').trans (ht.target hk)

theorem Rounds.aimed {rs : List Round} {cs cs₁ cs₂ : List Hearing} {c : Hearing} (hr : Rounds rs e h cs e' h')
    (hc : cs = cs₁ ++ c :: cs₂) (hk : ∀ c ∈ cs₁, c.event.Handled c.back) : c.event.target = e.target := by
  induction hr generalizing cs₁ cs₂ with
  | nil => simp at hc
  | stopped ht _ => exact ht.aimed hc hk
  | next ht _ _ ih =>
    rcases split_append hc with ⟨cs₃, rfl⟩ | ⟨cs₃, rfl, rfl⟩
    · exact ht.aimed rfl hk
    · obtain ⟨hk, hk'⟩ := List.forall_mem_append.mp hk
      exact (ih rfl hk').trans (ht.target hk)

/-- Listeners are called with the target of the dispatch. -/
theorem Delivers.aimed {target : Target} {cs cs₁ cs₂ : List Hearing} {c : Hearing} (hd : Delivers target e h cs e' h')
    (hc : cs = cs₁ ++ c :: cs₂) (hk : ∀ c ∈ cs₁, c.event.Handled c.back) : c.event.target = target := by
  cases hd with
  | down hr _ => exact hr.aimed hc hk
  | up hr _ hr' =>
    rcases split_append hc with ⟨cs₃, rfl⟩ | ⟨cs₃, rfl, rfl⟩
    · exact hr.aimed rfl hk
    · obtain ⟨hk, hk'⟩ := List.forall_mem_append.mp hk
      exact (hr'.aimed rfl hk').trans (hr.target hk)

/-! ## Callers -/

/-- What is called neither alone nor in a round is called on the way of an event. -/
theorem tracker_or_dispatch (hp : (Moment.begins t h).Placed tr) (hn : ¬t.IsAct) (hs : ¬t.Single) (hr : ¬t.Rounded) :
    ∃ (κ₀ : Kind) (t₀ : Task κ₀) (h₀ : Host), CalledBy t₀ h₀ t h tr ∧ (t₀.Walks ∨ t₀.Dispatches) := by
  obtain ⟨κ₀, t₀, h₀, hc⟩ := hp.resolve_left hn
  refine ⟨κ₀, t₀, h₀, hc, ?_⟩
  obtain ⟨cs, inner, before, -, -, hmakes⟩ := hc
  have hdoes : Does (fun c => c.task.Single ∨ t₀.Walks ∨ t₀.Dispatches) t₀.body :=
    does_body t₀ (fun _ => .inl) fun hall _ _ => .inr hall
  obtain ⟨r⟩ : Nonempty κ.Carrier := inferInstance
  obtain ⟨rest, a, h', hg⟩ := hmakes r h
  have hmem : ⟨t, h, r, h⟩ ∈ cs ++ ⟨t, h, r, h⟩ :: rest := List.mem_append_right _ List.mem_cons_self
  exact ((hdoes _ _ _ _ hg).single _ hmem hr).resolve_left hs

/-- The walk in which an entry is called, up to that call. -/
theorem walk_of_makes {l : Listener Reaction} {w : Entry Waiter} {e₁ : Event} (ha : l.action = .tracker k)
    (hm : (Task.listen l e).body.Makes h calls (.outside w e₁) h₁) :
    ∃ vs, calls = vs.map Visit.call ∧
      ∀ r h₂, ∃ rest e' h', Walk k (((h.setTracker k (h.tracker k).beginWalk).tracker k).select e.name) e
        (h.setTracker k (h.tracker k).beginWalk) (vs ++ ⟨w, e₁, h₁, r, h₂⟩ :: rest) e' h' := by
  have hwalk : ∀ r h₂, ∃ vs rest e' h', calls = vs.map Visit.call ∧
      Walk k (((h.setTracker k (h.tracker k).beginWalk).tracker k).select e.name) e
        (h.setTracker k (h.tracker k).beginWalk) (vs ++ ⟨w, e₁, h₁, r, h₂⟩ :: rest) e' h' := by
    intro r h₂
    obtain ⟨rest, e', h', hg⟩ := hm r h₂
    obtain ⟨vs, h₃, hcalls, -, hw⟩ := walk_of_listen ha hg
    obtain ⟨vs₁, v, vs₂, rfl, hvs, hv⟩ := split_visits hcalls.symm
    obtain rfl : v = ⟨w, e₁, h₁, r, h₂⟩ := Visit.call_injective hv
    exact ⟨vs₁, vs₂, e', h₃, hvs.symm, hw⟩
  obtain ⟨vs, -, -, -, rfl, -⟩ := hwalk e h₁
  refine ⟨vs, rfl, fun r h₂ => ?_⟩
  obtain ⟨vs', rest, e', h', he, hw⟩ := hwalk r h₂
  cases List.map_injective_iff.mpr Visit.call_injective he
  exact ⟨rest, e', h', hw⟩

/-- Entries are called by trackers' listeners. -/
theorem called_of_outside {w : Entry Waiter} {e₁ : Event} (hp : (Moment.begins (.outside w e₁) h₁).Placed tr) :
    ∃ l e h k, l.action = .tracker k ∧ CalledBy (.listen l e) h (.outside w e₁) h₁ tr := by
  obtain ⟨κ₀, t₀, h₀, hc, hw | hd⟩ := tracker_or_dispatch hp id id id
  · cases t₀ with
    | listen l e =>
      obtain ⟨k, ha⟩ := hw
      exact ⟨l, e, h₀, k, ha, hc⟩
    | _ => exact hw.elim
  · cases t₀ with
    | act a =>
      obtain ⟨target, ha⟩ := Option.isSome_iff_exists.mp hd
      obtain ⟨calls, inner, before, -, -, hmakes⟩ := hc
      obtain ⟨rest, r, h', hg⟩ := hmakes e₁ h₁
      rcases delivers_of_dispatch ha hg with hnil | ⟨e, h₂, cs, e', h₃, -, -, hcs, -, -⟩
      · simp at hnil
      · obtain ⟨_, c, _, -, -, hcall⟩ := split_calls hcs.symm
        cases hcall
    | _ => exact hd.elim

/-- Listeners are called by actions that dispatch an event. -/
theorem called_of_listen {l : Listener Reaction} (hp : (Moment.begins (.listen l e) h₁).Placed tr) :
    ∃ a target h, a.target? = some target ∧ CalledBy (.act a) h (.listen l e) h₁ tr := by
  obtain ⟨κ₀, t₀, h₀, hc, hw | hd⟩ := tracker_or_dispatch hp id id id
  · cases t₀ with
    | listen l₀ e₀ =>
      obtain ⟨k, ha⟩ := hw
      obtain ⟨calls, inner, before, -, -, hmakes⟩ := hc
      obtain ⟨rest, r, h', hg⟩ := hmakes e h₁
      obtain ⟨vs, h₂, hcalls, -, -⟩ := walk_of_listen ha hg
      obtain ⟨_, v, _, -, -, hcall⟩ := split_visits hcalls.symm
      cases hcall
    | _ => exact hw.elim
  · cases t₀ with
    | act a =>
      obtain ⟨target, ha⟩ := Option.isSome_iff_exists.mp hd
      exact ⟨a, target, h₀, ha, hc⟩
    | _ => exact hd.elim

/-- An entry is called in a walk, after other entries, with the walk's event as they left it. -/
theorem walk_of_outside {w : Entry Waiter} {e₁ : Event} (hp : (Moment.begins (.outside w e₁) h₁).Placed tr)
    (ht : Tended tr) :
    ∃ l e h k vs inner before, tr = inner ++ .begins (.listen l e) h :: before ∧ l.action = .tracker k ∧
      Spans (vs.map Visit.call) inner ∧ (∀ v ∈ vs, e.Handled v.event) ∧ e.Handled e₁ ∧
      ∀ r h₂, ∃ rest e' h', Walk k (((h.setTracker k (h.tracker k).beginWalk).tracker k).select e.name) e
        (h.setTracker k (h.tracker k).beginWalk) (vs ++ ⟨w, e₁, h₁, r, h₂⟩ :: rest) e' h' := by
  obtain ⟨l, e, h, k, ha, calls, inner, before, rfl, hs, hmakes⟩ := called_of_outside hp
  obtain ⟨vs, rfl, hwalk⟩ := walk_of_makes ha hmakes
  have hback : ∀ v ∈ vs, v.event.Handled v.back := fun v hv =>
    ht.handed (t := .outside v.entry v.event) (List.mem_append_left _ (hs.mem (List.mem_map_of_mem hv)).2)
  obtain ⟨rest, e', h', hw⟩ := hwalk e₁ h₁
  refine ⟨l, e, h, k, vs, inner, before, rfl, ha, hs, fun v hv => ?_, hw.handled rfl hback, hwalk⟩
  obtain ⟨vs₁, vs₂, rfl⟩ := List.append_of_mem hv
  refine hw.handled (show vs₁ ++ v :: vs₂ ++ _ = vs₁ ++ v :: (vs₂ ++ _) by rw [List.append_assoc, List.cons_append]) fun v' hv' => ?_
  exact hback v' (List.mem_append_left _ hv')

/-- A listener that is called stood, at some moment of the dispatch, at the target of one of
    its rounds. It is told where the event started, and whether it is passive. -/
theorem summoned_of_listen {l : Listener Reaction} (hp : (Moment.begins (.listen l e) h₁).Placed tr) (ht : Tended tr) :
    e.passive = l.options.passive ∧ ∃ a h, a.target? = some e.target ∧ CalledBy (.act a) h (.listen l e) h₁ tr ∧
      ∃ r ∈ roundsDown (h.page.way e.target) e.target ++ roundsUp (h.page.way e.target),
        ∃ m ∈ tr, m.host.page.listeners.Stands r.target l := by
  obtain ⟨a, target, h, ha, hc⟩ := called_of_listen hp
  obtain ⟨calls, inner, before, rfl, hs, hmakes⟩ := id hc
  obtain ⟨rest, r, h', hg⟩ := hmakes e h₁
  rcases delivers_of_dispatch ha hg with hnil | ⟨e₀, h₀, cs, e', h₂, hl, hway, hcs, -, hd⟩
  · simp at hnil
  · obtain ⟨cs₁, c, cs₂, rfl, rfl, hcall⟩ := split_calls hcs.symm
    obtain rfl : c = ⟨l, e, h₁, e, h₁⟩ := Hearing.call_injective hcall
    obtain ⟨hpassive, r, hr, h₃, name, hh, hmem⟩ := hd.summoned rfl
    obtain rfl : e.target = target := hd.aimed rfl fun c' hc' =>
      ht.handed (t := .listen c'.listener c'.event) (List.mem_append_left _ (hs.mem (List.mem_map_of_mem hc')).2)
    refine ⟨hpassive, a, h, ha, hc, r, hway ▸ hr, ?_⟩
    have hstands : h₃.page.listeners.Stands r.target l := (List.mem_filter.mp hmem).1
    rcases hh with rfl | ⟨c', hc', rfl⟩
    · exact ⟨_, List.mem_append_right _ List.mem_cons_self, hl ▸ hstands⟩
    · exact ⟨_, List.mem_append_left _ (hs.mem (List.mem_map_of_mem hc')).2, hstands⟩

end Eventful.Host
