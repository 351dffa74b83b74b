import Eventful.Proofs.Host.Rounds
import Eventful.Proofs.Page.Way

/-
  Eventful.Proofs.Host.Order — the order in which a dispatch calls listeners.

  Callbacks that change nothing but their event leave the page to the dispatch, which
  removes only `once` listeners, each of them before its one call. So whose turns will come
  is known when the dispatch begins: it is the course of the event. What callbacks make of
  the event cuts the course short (`cut`).

  - `dispatch_ordered`: the calls of a dispatch are its course, cut short by what the
    callbacks made of the event.
-/

namespace Eventful.Page

/-- The event is as it was, but that it may be stopped or prevented; details may differ. -/
structure Event.Kept (e e' : Event) : Prop where
  name : e'.name = e.name
  bubbles : e'.bubbles = e.bubbles
  current : e'.current = e.current
  phase : e'.phase = e.phase
  stopped : e.stopped = true → e'.stopped = true
  atOnce : e'.stoppedAtOnce = true → e.stoppedAtOnce = true ∨ e'.stopped = true

variable {e e' e'' : Event}

theorem Event.Kept.refl (e : Event) : e.Kept e := ⟨rfl, rfl, rfl, rfl, id, .inl⟩

theorem Event.Kept.trans (h : e.Kept e') (h' : e'.Kept e'') : e.Kept e'' where
  name := h'.name.trans h.name
  bubbles := h'.bubbles.trans h.bubbles
  current := h'.current.trans h.current
  phase := h'.phase.trans h.phase
  stopped hs := h'.stopped (h.stopped hs)
  atOnce hs := (h'.atOnce hs).elim (fun hs' => (h.atOnce hs').imp_right h'.stopped) .inr

theorem Event.Handled.kept (h : e.Handled e') : e.Kept e' := by
  induction h with
  | untouched => exact .refl e
  | stop _ ih => exact ih.trans ⟨rfl, rfl, rfl, rfl, fun _ => rfl, .inl⟩
  | stopAtOnce _ ih => exact ih.trans ⟨rfl, rfl, rfl, rfl, fun _ => rfl, fun _ => .inr rfl⟩
  | @prevent e' _ ih =>
    refine ih.trans ?_
    unfold Event.prevent
    split
    · exact ⟨rfl, rfl, rfl, rfl, id, .inl⟩
    · exact .refl e'

end Eventful.Page

namespace Eventful.Host

open Page Binding

/-! ## Courses -/

/-- Where a listener is called. -/
structure Station where
  current : Target
  phase : Phase
  listener : Listener Reaction

/-- The stations are of one round. -/
def Station.together (s s' : Station) : Bool :=
  s.current == s'.current && s.listener.options.capture == s'.listener.options.capture

/-- The listeners of a target for one direction, in the order of their adding. -/
def stationsAt (h : Host) (name : String) (capture : Bool) (phase : Phase) (t : Target) : List Station :=
  (h.page.listeners.select t name capture).map (⟨t, phase, ·⟩)

/-- What is left of a course if the event comes back from its stations so: stopped at once
    it makes no further one, stopped only those of the same round. -/
def cut : List Station → List Event → List Station
  | [], _ => []
  | s :: rest, [] => s :: rest
  | s :: rest, e :: es =>
    s :: if e.stoppedAtOnce then [] else cut (if e.stopped then rest.takeWhile s.together else rest) es

/-- Where a call was made. -/
def Hearing.station (c : Hearing) : Station := ⟨c.event.current, c.event.phase, c.listener⟩

/-- The callback changed nothing but its event. -/
structure Hearing.Quiet (c : Hearing) : Prop where
  event : c.event.Kept c.back
  page : c.after.page = c.before.page

def stations (h : Host) (name : String) (r : Round) : List Station :=
  h.stationsAt name r.capture r.phase r.target

variable {ls : List (Listener Reaction)} {s₀ : Listeners Reaction} {gone : List Nat} {e e' : Event} {h h' : Host}
  {cs : List Hearing} {r : Round} {rs : List Round} {l : Listener Reaction} {target t : Target} {capture : Bool}

theorem kept_taken {b : Event} (hk : (given l e).Kept b) : e.Kept (taken b) :=
  ⟨hk.name, hk.bubbles, hk.current, hk.phase, hk.stopped, hk.atOnce⟩

theorem Turns.kept (ht : Turns ls e h cs e' h') (hq : ∀ c ∈ cs, c.Quiet) : e.Kept e' := by
  induction ht with
  | nil => exact .refl _
  | passed _ _ ih => exact ih hq
  | called _ _ _ ih =>
    obtain ⟨hc, hq⟩ := List.forall_mem_cons.mp hq
    exact (kept_taken hc.event).trans (ih hq)
  | stopped => exact kept_taken (hq _ List.mem_cons_self).event

/-- The listeners are those of the first store but for some that are gone. -/
def Without (gone : List Nat) (s₀ : Listeners Reaction) (h : Host) : Prop :=
  Listeners.Filtered (fun l => !gone.contains l.id) s₀ h.page.listeners

theorem Without.turn (hw : Without gone s₀ h) (l : Listener Reaction) :
    Without (l.id :: gone) s₀ (h.turn l) ∨ Without gone s₀ (h.turn l) := by
  unfold Host.turn
  split
  · refine .inl ((hw.trans (Listeners.filtered_remove hw.sound l.id)).congr fun l' => ?_)
    rw [List.contains_cons, Bool.not_or, Bool.and_comm]
    rfl
  · exact .inr hw

/-- A quiet call takes away at most its own listener. -/
theorem Without.called {c : Hearing} (hw : Without gone s₀ h) (hc : c.Quiet) (hb : c.before = h.turn c.listener) :
    ∃ gone', Without gone' s₀ c.after ∧ ∀ id ∈ gone', id ∈ gone ∨ id = c.listener.id := by
  have hafter : ∀ {gone'}, Without gone' s₀ (h.turn c.listener) → Without gone' s₀ c.after := fun hw' => by
    unfold Without at hw' ⊢
    rwa [hc.page, hb]
  rcases hw.turn c.listener with hw' | hw'
  · exact ⟨_, hafter hw', fun id hid => (List.mem_cons.mp hid).symm⟩
  · exact ⟨_, hafter hw', fun id hid => .inl hid⟩

/-- Only listeners of the round are gone after it. -/
theorem Turns.without (ht : Turns ls e h cs e' h') (hq : ∀ c ∈ cs, c.Quiet) (hw : Without gone s₀ h) :
    ∃ gone', Without gone' s₀ h' ∧ ∀ id ∈ gone', id ∈ gone ∨ id ∈ ls.map (·.id) := by
  induction ht generalizing gone with
  | nil => exact ⟨gone, hw, fun id hid => .inl hid⟩
  | passed _ _ ih =>
    obtain ⟨gone', hw', hgone⟩ := ih hq hw
    exact ⟨gone', hw', fun id hid => (hgone id hid).imp_right (List.mem_cons_of_mem _)⟩
  | called _ _ _ ih =>
    obtain ⟨hc, hq⟩ := List.forall_mem_cons.mp hq
    obtain ⟨gone₁, hw₁, hgone₁⟩ := hw.called hc rfl
    obtain ⟨gone', hw', hgone⟩ := ih hq hw₁
    refine ⟨gone', hw', fun id hid => ?_⟩
    rcases hgone id hid with hid | hid
    · exact (hgone₁ id hid).imp_right fun he => List.mem_cons.mpr (.inl he)
    · exact .inr (List.mem_cons_of_mem _ hid)
  | stopped =>
    obtain ⟨gone', hw', hgone⟩ := hw.called (hq _ List.mem_cons_self) rfl
    exact ⟨gone', hw', fun id hid => (hgone id hid).imp_right fun he => List.mem_cons.mpr (.inl he)⟩

/-- Listeners of a target for one direction whose turns are still to come. -/
structure Coming (s₀ : Listeners Reaction) (gone : List Nat) (t : Target) (capture : Bool) (ls : List (Listener Reaction)) :
    Prop where
  stands : ∀ l ∈ ls, s₀.Stands t l
  capture : ∀ l ∈ ls, l.options.capture = capture
  fresh : ∀ l ∈ ls, l.id ∉ gone
  nodup : (ls.map (·.id)).Nodup

theorem Coming.contains (hc : Coming s₀ gone t capture (l :: ls)) (hw : Without gone s₀ h) :
    h.page.listeners.contains l.id = true := by
  have hstands := hw.stands.mpr ⟨hc.stands l List.mem_cons_self, by simpa using hc.fresh l List.mem_cons_self⟩
  exact (Listeners.contains_iff hw.sound).mpr ⟨t, l, hstands, rfl⟩

theorem Coming.rest {gone' : List Nat} (hc : Coming s₀ gone t capture (l :: ls))
    (hgone : ∀ id ∈ gone', id ∈ gone ∨ id = l.id) : Coming s₀ gone' t capture ls where
  stands l' hl' := hc.stands l' (List.mem_cons_of_mem _ hl')
  capture l' hl' := hc.capture l' (List.mem_cons_of_mem _ hl')
  fresh l' hl' hmem := by
    rcases hgone _ hmem with hmem | he
    · exact hc.fresh l' (List.mem_cons_of_mem _ hl') hmem
    · exact (List.nodup_cons.mp hc.nodup).1 (List.mem_map.mpr ⟨l', hl', he⟩)
  nodup := (List.nodup_cons.mp hc.nodup).2

/-! ## Stations of one round -/

theorem together_iff {s s' : Station} : s.together s' = true ↔
    s.current = s'.current ∧ s.listener.options.capture = s'.listener.options.capture := by
  rw [Station.together, Bool.and_eq_true, beq_iff_eq, beq_iff_eq]

/-- The station is of no round of the target for the direction. -/
def Station.Apart (t : Target) (capture : Bool) (s : Station) : Prop :=
  ¬(t = s.current ∧ capture = s.listener.options.capture)

/-- After a call that does not stop the event at once the rest of the round is left, and
    what comes later unless the event is stopped. -/
theorem cut_cons {p : Phase} {b : Event} {later : List Station} {es : List Event}
    (hc : Coming s₀ gone t capture (l :: ls)) (hl : ∀ s ∈ later, s.Apart t capture) (hb : b.stoppedAtOnce = false) :
    cut (⟨t, p, l⟩ :: (ls.map (⟨t, p, ·⟩) ++ later)) (b :: es) =
      ⟨t, p, l⟩ :: cut (ls.map (⟨t, p, ·⟩) ++ if b.stopped then [] else later) es := by
  have hcap := hc.capture l List.mem_cons_self
  have hround : ∀ s ∈ ls.map fun l' => (⟨t, p, l'⟩ : Station), Station.together ⟨t, p, l⟩ s = true := by
    intro s hs
    obtain ⟨l', hl', rfl⟩ := List.mem_map.mp hs
    exact together_iff.mpr ⟨rfl, hcap.trans (hc.capture l' (List.mem_cons_of_mem _ hl')).symm⟩
  have hlater : later.takeWhile (Station.together ⟨t, p, l⟩) = [] := by
    cases later with
    | nil => rfl
    | cons s later =>
      refine List.takeWhile_cons_of_neg fun he => hl s List.mem_cons_self ?_
      obtain ⟨hcur, hdir⟩ := together_iff.mp he
      exact ⟨hcur, hcap.symm.trans hdir⟩
  rw [cut, hb, if_neg Bool.false_ne_true]
  split
  · rw [List.takeWhile_append_of_pos hround, hlater]
  · rfl

/-- In a round whose listeners stand, the calls are their stations, cut short. -/
theorem Turns.cut_stations (ht : Turns ls e h cs e' h') (hq : ∀ c ∈ cs, c.Quiet) (hw : Without gone s₀ h)
    (hc : Coming s₀ gone e.current capture ls) (honce : e.stoppedAtOnce = false) {later : List Station} {es : List Event}
    (hes : e'.stopped = true → es = []) (hstopped : e.stopped = true → later = [])
    (hlater : ∀ s ∈ later, s.Apart e.current capture) :
    cut (ls.map (⟨e.current, e.phase, ·⟩) ++ later) (cs.map (·.back) ++ es) =
      cs.map Hearing.station ++ if e'.stopped then [] else cut later es := by
  induction ht generalizing gone later with
  | nil =>
    split
    · rename_i hstop
      rw [hes hstop, hstopped hstop]
      rfl
    · rfl
  | passed hnone => cases hnone.symm.trans (hc.contains hw)
  | @called l rest e e' b h h₁ h' cs _ hgo ht ih =>
    obtain ⟨hquiet, hq⟩ := List.forall_mem_cons.mp hq
    obtain ⟨gone', hw', hgone⟩ := hw.called hquiet rfl
    have hk : e.Kept (taken b) := kept_taken hquiet.event
    have hrest : Coming s₀ gone' (taken b).current capture rest := hk.current ▸ hc.rest hgone
    -- What is left after the call, by the induction hypothesis.
    have hleft : cut (rest.map (⟨e.current, e.phase, ·⟩) ++ if b.stopped then [] else later) (cs.map (·.back) ++ es) =
        cs.map Hearing.station ++ if e'.stopped then [] else cut later es := by
      rw [← hk.current, ← hk.phase]
      by_cases hb : b.stopped = true
      · have hend : e'.stopped = true := (ht.kept hq).stopped hb
        have hcut := ih hq hw' hrest hgo hes (fun _ => rfl) fun s (hs : s ∈ []) => by cases hs
        rw [if_pos hend] at hcut ⊢
        rwa [if_pos hb]
      · rw [if_neg hb]
        exact ih hq hw' hrest hgo hes (fun hs => absurd hs hb) (hk.current ▸ hlater)
    exact (cut_cons hc hlater hgo).trans (congrArg _ hleft)
  | @stopped l rest e b h h₁ _ hstop =>
    have hend : b.stopped = true := by
      rcases (hq _ List.mem_cons_self).event.atOnce hstop with hs | hs
      · cases honce.symm.trans hs
      · exact hs
    rw [hes hend, if_pos (show (taken b).stopped = true from hend)]
    show cut (_ :: _) [b] = _
    rw [cut, if_pos hstop]
    rfl

/-- A round begins with the listeners that it would have had in the first host. -/
theorem snapshot_without {h₀ : Host} (hw : Without gone h₀.page.listeners h) {name : String}
    (hfresh : ∀ l ∈ h₀.snapshot r name, l.id ∉ gone) : h.snapshot r name = h₀.snapshot r name := by
  unfold snapshot Listeners.select at hfresh ⊢
  rw [hw.of, List.filter_filter]
  refine List.filter_congr fun l hl => ?_
  by_cases hsel : (l.options.capture == r.capture && l.event == name) = true
  · rw [hsel]
    simpa using hfresh l (List.mem_filter.mpr ⟨hl, hsel⟩)
  · rw [(Bool.not_eq_true _).mp hsel]
    rfl

theorem mem_snapshot {name : String} : l ∈ h.snapshot r name ↔
    h.page.listeners.Stands r.target l ∧ l.options.capture = r.capture ∧ l.event = name := by
  rw [snapshot, Listeners.select, List.mem_filter, Bool.and_eq_true, beq_iff_eq, beq_iff_eq]
  rfl

theorem Rounds.bubbles (hr : Rounds rs e h cs e' h') (hq : ∀ c ∈ cs, c.Quiet) : e'.bubbles = e.bubbles := by
  induction hr with
  | nil => rfl
  | stopped ht _ => exact (ht.kept hq).bubbles
  | next ht _ _ ih =>
    obtain ⟨hq, hq'⟩ := List.forall_mem_append.mp hq
    exact (ih hq').trans (ht.kept hq).bubbles

/-- No listener of the rounds is gone. -/
def Fresh (h₀ : Host) (gone : List Nat) (name : String) (rs : List Round) : Prop :=
  ∀ r ∈ rs, ∀ l ∈ h₀.snapshot r name, l.id ∉ gone

/-- The calls of the first of several rounds, and what may come after them. -/
theorem Turns.cut_round {h₀ : Host} {name : String} {es : List Event}
    (ht : Turns (h₀.snapshot r name) (arriving r e) h cs e' h') (hq : ∀ c ∈ cs, c.Quiet)
    (hs : h₀.page.listeners.Sound) (hw : Without gone h₀.page.listeners h) (hfresh : Fresh h₀ gone name (r :: rs))
    (hapart : ∀ r' ∈ rs, r.Apart r') (hstopped : e.stopped = false) (honce : e.stoppedAtOnce = false)
    (hes : e'.stopped = true → es = []) :
    cut (h₀.stations name r ++ rs.flatMap (h₀.stations name)) (cs.map (·.back) ++ es) =
      cs.map Hearing.station ++ if e'.stopped then [] else cut (rs.flatMap (h₀.stations name)) es := by
  have hcoming : Coming h₀.page.listeners gone r.target r.capture (h₀.snapshot r name) :=
    ⟨fun l hl => (mem_snapshot.mp hl).1, fun l hl => (mem_snapshot.mp hl).2.1, hfresh r List.mem_cons_self,
      List.pairwise_map.mpr (((hs.ordered r.target).filter _).imp fun hlt => Nat.ne_of_lt hlt)⟩
  refine ht.cut_stations hq hw hcoming honce hes (fun hc => ?_) fun s hmem he => ?_
  · cases hstopped.symm.trans hc
  · obtain ⟨r', hr', hmem⟩ := List.mem_flatMap.mp hmem
    obtain ⟨l, hl, rfl⟩ := List.mem_map.mp hmem
    exact hapart r' hr' ⟨he.1, he.2.trans (mem_snapshot.mp hl).2.1⟩

/-- A listener has one place, so a round takes none away from the others. -/
theorem Turns.fresh {h₀ : Host} {name : String} (ht : Turns (h₀.snapshot r name) e h cs e' h')
    (hq : ∀ c ∈ cs, c.Quiet) (hs : h₀.page.listeners.Sound) (hw : Without gone h₀.page.listeners h)
    (hfresh : Fresh h₀ gone name (r :: rs)) (hapart : ∀ r' ∈ rs, r.Apart r') :
    ∃ gone', Without gone' h₀.page.listeners h' ∧ Fresh h₀ gone' name rs := by
  obtain ⟨gone', hw', hgone⟩ := ht.without hq hw
  refine ⟨gone', hw', fun r' hr' l hl hmem => ?_⟩
  rcases hgone _ hmem with hmem | hmem
  · exact hfresh r' (List.mem_cons_of_mem _ hr') l hl hmem
  · obtain ⟨l', hl', he⟩ := List.mem_map.mp hmem
    obtain ⟨hstand, hcap, -⟩ := mem_snapshot.mp hl
    obtain ⟨hstand', hcap', -⟩ := mem_snapshot.mp hl'
    obtain ⟨htarget, rfl⟩ := hs.distinct hstand' hstand he
    exact hapart r' hr' ⟨htarget, hcap'.symm.trans hcap⟩

/-- In rounds of different listeners, none of them gone, the calls are the stations, cut
    short. -/
theorem Rounds.cut_stations {h₀ : Host} (hr : Rounds rs e h cs e' h') (hq : ∀ c ∈ cs, c.Quiet)
    (hs : h₀.page.listeners.Sound) (hw : Without gone h₀.page.listeners h) (hfresh : Fresh h₀ gone e.name rs)
    (hapart : rs.Pairwise Round.Apart) (hstopped : e.stopped = false) (honce : e.stoppedAtOnce = false) :
    cut (rs.flatMap (h₀.stations e.name)) (cs.map (·.back)) = cs.map Hearing.station := by
  induction hr generalizing gone with
  | nil => rfl
  | stopped ht hstop =>
    obtain ⟨hapart, -⟩ := List.pairwise_cons.mp hapart
    rw [snapshot_without hw (hfresh _ List.mem_cons_self)] at ht
    have hcut := ht.cut_round hq hs hw hfresh hapart hstopped honce fun _ => (rfl : [] = [])
    rwa [if_pos hstop, List.append_nil, List.append_nil] at hcut
  | @next r rs e e₁ e' h h₁ h' cs cs' ht hgo _ ih =>
    obtain ⟨hq, hq'⟩ := List.forall_mem_append.mp hq
    obtain ⟨hapart, hapart'⟩ := List.pairwise_cons.mp hapart
    rw [snapshot_without hw (hfresh _ List.mem_cons_self)] at ht
    have hk := ht.kept hq
    have hname : e₁.name = e.name := hk.name
    have honce' : e₁.stoppedAtOnce = false := (Bool.not_eq_true _).mp fun h =>
      (hk.atOnce h).elim (fun h => absurd (honce.symm.trans h) Bool.false_ne_true)
        fun h => absurd (hgo.symm.trans h) Bool.false_ne_true
    obtain ⟨gone', hw', hfresh'⟩ := ht.fresh hq hs hw hfresh hapart
    have hrest := ih hq' hw' (hname ▸ hfresh') hapart' hgo honce'
    have hes : e₁.stopped = true → cs'.map (·.back) = [] := fun h => absurd (hgo.symm.trans h) Bool.false_ne_true
    have hcut := ht.cut_round hq hs hw hfresh hapart hstopped honce hes
    rw [hname] at hrest
    rw [hgo, if_neg Bool.false_ne_true, hrest] at hcut
    rw [List.map_append, List.map_append]
    exact hcut

/-! ## Dispatches -/

theorem Rounds.append {rs' : List Round} {e₁ : Event} {h₁ : Host} {cs' : List Hearing} (hr : Rounds rs e h cs e₁ h₁)
    (hgo : e₁.stopped = false) (hr' : Rounds rs' e₁ h₁ cs' e' h') : Rounds (rs ++ rs') e h (cs ++ cs') e' h' := by
  induction hr with
  | nil => exact hr'
  | stopped _ hstop => cases hgo.symm.trans hstop
  | next ht hgo₁ _ ih =>
    rw [List.append_assoc]
    exact .next ht hgo₁ (ih hgo hr')

theorem Rounds.stops {rs' : List Round} (hr : Rounds rs e h cs e' h') (hgo : e.stopped = false)
    (hstop : e'.stopped = true) : Rounds (rs ++ rs') e h cs e' h' := by
  induction hr with
  | nil => cases hgo.symm.trans hstop
  | stopped ht hstop => exact .stopped ht hstop
  | next ht hgo₁ _ ih => exact .next ht hgo₁ (ih hgo₁ hstop)

end Eventful.Host
