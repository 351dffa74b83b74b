import Eventful.Proofs.Host.Upkeep

/-
  Eventful.Proofs.Host.Withdrawing — bindings go, and everything of theirs with them.

  Taking back what bindings registered filters the listeners, the entries of one tracker
  and the timers of one clock, and touches nothing else (`Withdrawn`). An unbinding is
  that together with the runtime's own part (`unbind_eq_some`); the end of a runtime is
  the same for all its bindings at once.
-/

namespace Eventful.Host

open Page Binding

variable {F : Nat → Prop} {h h' h'' : Host} {rt : Nat} {r : Runtime Script}

/-! ## Taking back -/

/-- A timer that is cancelled: the clock without it. -/
structure Cancelled (c : Nat) (w : Option Nat) (h h' : Host) : Prop where
  shape : ∃ cs, h' = { h with clocks := cs }
  length : h'.clocks.length = h.clocks.length
  clock : ∀ c', clockAt h'.clocks c' = if c' = c then
    { clockAt h.clocks c' with timers := (clockAt h.clocks c').timers.filter fun t => !(w == some t.id) }
    else clockAt h.clocks c'
  written : ∀ k, h'.clocks.set c k = h.clocks.set c k

theorem cancelled (h : Host) (c : Nat) (w : Option Nat) : Cancelled c w h (h.cancelWaiting c w).2 := by
  cases w with
  | none =>
    refine ⟨⟨h.clocks, rfl⟩, rfl, fun c' => ?_, fun _ => rfl⟩
    have : ∀ ts : List (Timer Alarm), ts.filter (fun t => !((none : Option Nat) == some t.id)) = ts := by simp
    simp only [cancelWaiting, this, ite_self]
  | some id =>
    have hp : (fun t : Timer Alarm => !(some id == some t.id)) = (·.id != id) := by
      funext t
      simp [bne, Bool.beq_comm]
    refine ⟨⟨_, rfl⟩, List.length_set, fun c' => ?_, fun k => List.set_set ..⟩
    rw [hp]
    show clockAt (h.clocks.set c ((h.clock c).cancel id).2) c' = _
    by_cases hc : c < h.clocks.length
    · rw [clockAt_set _ c' hc]
      by_cases e : c = c'
      · subst e; simp only [if_true]; rfl
      · simp only [e, Ne.symm e, if_false]
    · rw [set_of_le _ (Nat.le_of_not_lt hc)]
      split
      · rename_i e; subst e; rw [clockAt_of_le (Nat.le_of_not_lt hc)]; rfl
      · rfl

/-- What bindings of the runtime had registered is gone, and nothing else. -/
structure Withdrawn (r : Runtime Script) (bs : List Bound) (h h' : Host) : Prop where
  shape : ∃ ls ts cs, h' = { h.setListeners ls with trackers := ts, clocks := cs }
  listeners : h.page.listeners.Sound →
    Listeners.Filtered (fun l => !bs.any (·.listener == some l.id)) h.page.listeners h'.page.listeners
  trackers : h'.trackers.length = h.trackers.length
  tracker : ∀ k, trackerAt h'.trackers k = if k = r.tracker then
    { trackerAt h.trackers k with
      entries := (trackerAt h.trackers k).entries.filter fun w => !bs.any fun b => b.plan.isOutside && b.id == w.binding }
    else trackerAt h.trackers k
  clocks : h'.clocks.length = h.clocks.length
  clock : ∀ c, clockAt h'.clocks c = if c = r.clock then
    { clockAt h.clocks c with timers := (clockAt h.clocks c).timers.filter fun t => !bs.any (·.waiting == some t.id) }
    else clockAt h.clocks c

theorem withdrawn_nil (r : Runtime Script) (h : Host) : Withdrawn r [] h h where
  shape := ⟨_, _, _, rfl⟩
  listeners hs := Listeners.filtered_all hs
  trackers := rfl
  tracker k := by simp
  clocks := rfl
  clock c := by simp

theorem Withdrawn.trans {bs bs' : List Bound} (w : Withdrawn r bs h h') (w' : Withdrawn r bs' h' h'') :
    Withdrawn r (bs ++ bs') h h'' where
  shape := by
    obtain ⟨ls, ts, cs, rfl⟩ := w.shape
    obtain ⟨ls', ts', cs', rfl⟩ := w'.shape
    exact ⟨ls', ts', cs', rfl⟩
  listeners hs := by
    have hf := w.listeners hs
    exact (hf.trans (w'.listeners hf.sound)).congr fun l => by rw [List.any_append, Bool.not_or]
  trackers := w'.trackers.trans w.trackers
  tracker k := by
    rw [w'.tracker, w.tracker]
    split
    · simp only [List.filter_filter, List.any_append, Bool.not_or, Bool.and_comm]
    · rfl
  clocks := w'.clocks.trans w.clocks
  clock c := by
    rw [w'.clock, w.clock]
    split
    · simp only [List.filter_filter, List.any_append, Bool.not_or, Bool.and_comm]
    · rfl

/-- The listener of a binding goes, if it has one. -/
theorem unheard (h : Host) (w : Option Nat) :
    ∃ ls, (w.elim h fun l => (h.unlisten l).2) = h.setListeners ls ∧
      (h.page.listeners.Sound → Listeners.Filtered (fun l => !(w == some l.id)) h.page.listeners ls) := by
  cases w with
  | none => exact ⟨_, rfl, fun hs => (Listeners.filtered_all hs).congr fun l => rfl⟩
  | some id =>
    refine ⟨_, rfl, fun hs => (Listeners.filtered_remove hs id).congr fun l => ?_⟩
    simp [bne, Bool.beq_comm]

/-- The entry of a binding goes, if it has one. -/
theorem unentered (h : Host) (k id : Nat) (outside : Bool) :
    ∃ ts, (if outside then h.setTracker k ((h.tracker k).unregister id).2 else h) = { h with trackers := ts } ∧
      ts.length = h.trackers.length ∧
      ∀ k', trackerAt ts k' = if k' = k then
        { trackerAt h.trackers k' with
          entries := (trackerAt h.trackers k').entries.filter fun w => !(outside && id == w.binding) }
        else trackerAt h.trackers k' := by
  cases outside with
  | false => exact ⟨h.trackers, rfl, rfl, fun k' => by simp⟩
  | true =>
    refine ⟨_, rfl, List.length_set, fun k' => ?_⟩
    have hp : (fun w : Entry Waiter => !(true && id == w.binding)) = (·.binding != id) := by
      funext w
      simp [bne, Bool.beq_comm]
    rw [hp]
    by_cases hk : k < h.trackers.length
    · rw [trackerAt_set _ k' hk]
      by_cases e : k = k'
      · subst e; simp only [if_true]; rfl
      · simp only [e, Ne.symm e, if_false]
    · rw [set_of_le _ (Nat.le_of_not_lt hk)]
      split
      · rename_i e; subst e; rw [trackerAt_of_le (Nat.le_of_not_lt hk)]; rfl
      · rfl

theorem withdrawn_one (r : Runtime Script) (b : Bound) (h : Host) : Withdrawn r [b] h (h.withdraw r b) := by
  obtain ⟨ls, e₁, hls⟩ := unheard h b.listener
  obtain ⟨ts, e₂, hlen, hts⟩ := unentered (h.setListeners ls) r.tracker b.id b.plan.isOutside
  have hc := cancelled { h.setListeners ls with trackers := ts } r.clock b.waiting
  obtain ⟨cs, e₃⟩ := hc.shape
  have e : h.withdraw r b = { h.setListeners ls with trackers := ts, clocks := cs } := by
    rw [← e₃, ← e₂, ← e₁]
    unfold withdraw
    cases b.listener <;> rfl
  have hlength := hc.length
  have hclock := hc.clock
  rw [e₃] at hlength hclock
  rw [e]
  refine ⟨⟨_, _, _, rfl⟩, fun hs => ?_, hlen, fun k => ?_, hlength, fun c => ?_⟩
  · exact (hls hs).congr fun l => by simp only [List.any_cons, List.any_nil, Bool.or_false]
  · simp only [List.any_cons, List.any_nil, Bool.or_false]
    exact hts k
  · simp only [List.any_cons, List.any_nil, Bool.or_false]
    exact hclock c

theorem withdrawn_foldl (r : Runtime Script) (bs : List Bound) (h : Host) :
    Withdrawn r bs h (bs.foldl (fun h b => h.withdraw r b) h) := by
  induction bs generalizing h with
  | nil => exact withdrawn_nil r h
  | cons b bs ih => exact (withdrawn_one r b h).trans (ih (h.withdraw r b))

/-! ## Unbinding -/

/-- Bindings of a runtime are gone from its table and what they had registered is gone. -/
theorem books_withdrawn {rs' : Runtimes} {bs : List Bound} (hb : Books F h) (hr : h.runtimes[rt]? = some r)
    (hsound : ∀ {rt : Nat} {r : Runtime Script}, rs'[rt]? = some r → r.Sound)
    (hparts : AlikeTables SameParts h.runtimes rs') (hbs : ∀ {b}, b ∈ bs → b ∈ r.bindings)
    (binds : ∀ {rt' b}, Binds rs' rt' b ↔ Binds h.runtimes rt' b ∧ ¬(rt' = rt ∧ b ∈ bs))
    (leaves : ∀ {rt' b}, Leaves rs' rt' b → Leaves h.runtimes rt' b ∨ b.waiting = none)
    (leaves_of : ∀ {rt' b}, Leaves h.runtimes rt' b → Leaves rs' rt' b) {h₁ h' : Host}
    (hw : Withdrawn r bs h₁ h') (e : h₁ = { h with runtimes := rs' }) : Books F h' := by
  subst e
  have hbinds : ∀ {b}, b ∈ bs → Binds h.runtimes rt b := fun hb => ⟨r, hr, hbs hb⟩
  have hid : ∀ {b b'}, Binds h.runtimes rt b → b ∈ bs → Binds h.runtimes rt b' → b'.id = b.id → b' ∈ bs := by
    intro b b' h₁ hb₁ h₂ e
    rw [keeps_unique hb.runtimes h₂.keeps h₁.keeps e]
    exact hb₁
  have er : h'.runtimes = rs' := by obtain ⟨ls, ts, cs, rfl⟩ := hw.shape; rfl
  have es : h'.sharedTrackers = h.sharedTrackers := by obtain ⟨ls, ts, cs, rfl⟩ := hw.shape; rfl
  have eg : h'.page.globals = h.page.globals := by obtain ⟨ls, ts, cs, rfl⟩ := hw.shape; rfl
  have ed : h'.debouncers = h.debouncers := by obtain ⟨ls, ts, cs, rfl⟩ := hw.shape; rfl
  refine ⟨?_, ?_, ?_, ?_⟩
  · rw [er]
    exact hsound
  · rw [er, eg]
    have hinst : ∀ k, (trackerAt h'.trackers k).installed = (trackerAt h.trackers k).installed := by
      intro k
      rw [hw.tracker]
      split <;> rfl
    refine (hb.listeners.unbind (· ∈ bs) (hw.listeners hb.listeners.sound) hparts binds hid ?_).trackers hinst
    intro l
    simp only [Bool.not_eq_false', List.any_eq_true, beq_iff_eq]
    exact ⟨fun ⟨b, hb₁, e⟩ => ⟨b, hbinds hb₁, hb₁, e⟩, fun ⟨b, _, hb₁, e⟩ => ⟨b, hb₁, e⟩⟩
  · rw [er, es]
    refine hb.entries.unbind (· ∈ bs) (p := fun w => !bs.any fun b => b.plan.isOutside && b.id == w.binding)
      hparts ⟨r, hr, rfl⟩ binds hid ?_ hw.trackers (fun hk => (hw.tracker _).trans (if_neg hk))
      ((hw.tracker _).trans (if_pos rfl))
    intro w
    simp only [Bool.not_eq_false', List.any_eq_true, Bool.and_eq_true, beq_iff_eq]
    exact ⟨fun ⟨b, hb₁, e⟩ => ⟨b, hbinds hb₁, hb₁, e⟩, fun ⟨b, _, hb₁, e⟩ => ⟨b, hb₁, e⟩⟩
  · rw [er, ed]
    refine hb.timers.unbind hb.runtimes (· ∈ bs) (p := fun t => !bs.any (·.waiting == some t.id))
      hparts ⟨r, hr, rfl⟩ binds leaves leaves_of ?_ hw.clocks (fun hc => (hw.clock _).trans (if_neg hc))
      ((hw.clock _).trans (if_pos rfl))
    intro t
    simp only [Bool.not_eq_false', List.any_eq_true, beq_iff_eq]
    exact ⟨fun ⟨b, hb₁, e⟩ => ⟨b, hbinds hb₁, hb₁, e⟩, fun ⟨b, _, hb₁, e⟩ => ⟨b, hb₁, e⟩⟩

theorem goes_withdrawn {rs' : Runtimes} {bs : List Bound} (hb : Books F h) (hr : h.runtimes[rt]? = some r)
    (hsound : ∀ {rt : Nat} {r : Runtime Script}, rs'[rt]? = some r → r.Sound)
    (hparts : AlikeTables SameParts h.runtimes rs') (hbs : ∀ {b}, b ∈ bs → b ∈ r.bindings)
    (binds : ∀ {rt' b}, Binds rs' rt' b ↔ Binds h.runtimes rt' b ∧ ¬(rt' = rt ∧ b ∈ bs))
    (leaves : ∀ {rt' b}, Leaves rs' rt' b → Leaves h.runtimes rt' b ∨ b.waiting = none)
    (leaves_of : ∀ {rt' b}, Leaves h.runtimes rt' b → Leaves rs' rt' b) (hlater : RuntimesLater h.runtimes rs')
    (hcalm : RuntimesCalm h.runtimes rs') {h₁ h' : Host} (hw : Withdrawn r bs h₁ h')
    (e : h₁ = { h with runtimes := rs' }) : Goes F h h' := by
  have hbooks := books_withdrawn hb hr hsound hparts hbs binds leaves leaves_of hw e
  subst e
  have hlisteners : ListenersLater h.page.listeners h'.page.listeners := later_filtered (hw.listeners hb.listeners.sound)
  have er : h'.runtimes = rs' := by obtain ⟨ls, ts, cs, rfl⟩ := hw.shape; rfl
  have htimers := hbooks.timers
  rw [er] at htimers
  refine ⟨⟨hbooks, ⟨er ▸ hlater, hlisteners⟩, er ▸ hcalm⟩, er ▸ still_of_waits hb.timers htimers hb.runtimes hlater ?_ ?_ ?_⟩
  · intro c t rt' id e ht _
    rw [hw.clock] at ht
    split at ht
    · exact (List.mem_filter.mp ht).1
    · exact ht
  · intro rt' b b' hkeeps hbinds hid
    rw [keeps_unique hb.runtimes (binds.mp hbinds).1.keeps hkeeps hid]
  · intro rt' b hleaves hne
    exact ⟨b, (leaves hleaves).resolve_right hne, rfl⟩

/-- What an unbinding comes to: the runtime's own part, and the rest taken back. -/
theorem unbind_eq_some (hs : r.Sound) (hr : h.runtimes[rt]? = some r) {b : Bound} (hb : b ∈ r.bindings) :
    h.unbind rt b.id = (true, (h.editRuntime rt (·.without b.id)).withdraw r b) := by
  have hfind : r.find? b.id = some b := hs.find?_eq_some.mpr ⟨hb, rfl⟩
  simp [unbind, runtime?, hr, hfind]

theorem unbind_cases (hs : ∀ {rt : Nat} {r : Runtime Script}, h.runtimes[rt]? = some r → r.Sound) (rt id : Nat) :
    (h.unbind rt id = (false, h) ∧ ∀ b, Binds h.runtimes rt b → b.id ≠ id) ∨
      ∃ r b, h.runtimes[rt]? = some r ∧ b ∈ r.bindings ∧ b.id = id ∧
        h.unbind rt id = (true, (h.editRuntime rt (·.without id)).withdraw r b) := by
  by_cases hb : ∃ r b, h.runtimes[rt]? = some r ∧ b ∈ r.bindings ∧ b.id = id
  · obtain ⟨r, b, hr, hb, rfl⟩ := hb
    exact .inr ⟨r, b, hr, hb, rfl, unbind_eq_some (hs hr) hr hb⟩
  · refine .inl ⟨?_, fun b ⟨r, hr, h₀⟩ e => hb ⟨r, b, hr, h₀, e⟩⟩
    unfold unbind runtime?
    cases hr : h.runtimes[rt]? with
    | none => rfl
    | some r =>
      have hfind : r.find? id = none := by
        refine List.find?_eq_none.mpr fun b h₀ => ?_
        simp only [beq_iff_eq]
        exact fun e => hb ⟨r, b, hr, h₀, e⟩
      simp [hfind]

theorem goes_unbind (hb : Books F h) (rt id : Nat) : Goes F h (h.unbind rt id).2 := by
  rcases unbind_cases hb.runtimes rt id with ⟨e, -⟩ | ⟨r, b, hr, hbr, rfl, e⟩
  · rw [e]
    exact .rfl hb
  · rw [e]
    have hw := withdrawn_one r b (h.editRuntime rt (·.without b.id))
    have hsound := fun {rt'} {r'} => @sound_modify _ hb.runtimes rt (·.without b.id)
      (fun r hr => (hb.runtimes hr).without b.id) rt' r'
    refine goes_withdrawn hb hr hsound (without_parts _ rt b.id) (fun h₀ => List.mem_singleton.mp h₀ ▸ hbr) ?_ ?_
      leaves_without_of (later_modify _ rt fun r _ => (r.later_without b.id).1)
      (calm_modify _ rt fun r _ => (r.later_without b.id).2) hw rfl
    · intro rt' b'
      rw [binds_without, List.mem_singleton]
      refine and_congr_right fun h₀ => not_congr (and_congr_right fun e => ⟨fun hid => ?_, fun hid => hid ▸ rfl⟩)
      subst e
      exact keeps_unique hb.runtimes h₀.keeps ⟨r, hr, .inl hbr⟩ hid
    · intro rt' b' h₀
      rcases leaves_without h₀ with h₀ | ⟨-, b₀, -, -, rfl⟩
      · exact .inl h₀
      · exact .inr rfl

theorem goes_unbindAll (hb : Books F h) (rt : Nat) (ids : List Nat) : Goes F h (h.unbindAll rt ids) := by
  induction ids generalizing h with
  | nil => exact .rfl hb
  | cons id ids ih =>
    have hg := goes_unbind hb rt id
    exact hg.trans (ih hg.books)

theorem goes_unbindElements (hb : Books F h) (rt : Nat) (ns : List NodeId) : Goes F h (h.unbindElements rt ns).2 :=
  goes_unbindAll hb rt _

/-- After an unbinding all other bindings are bound, and no more. -/
theorem binds_unbind_of_sound (hs : ∀ {rt : Nat} {r : Runtime Script}, h.runtimes[rt]? = some r → r.Sound)
    {rt id rt' : Nat} {b : Bound} :
    Binds (h.unbind rt id).2.runtimes rt' b ↔ Binds h.runtimes rt' b ∧ ¬(rt' = rt ∧ b.id = id) := by
  rcases unbind_cases hs rt id with ⟨e, hn⟩ | ⟨r, b', hr, hbr, rfl, e⟩
  · rw [e]
    refine (and_iff_left_of_imp fun h₀ hid => ?_).symm
    obtain ⟨rfl, hid⟩ := hid
    exact hn b h₀ hid
  · obtain ⟨ls, ts, cs, e'⟩ := (withdrawn_one r b' (h.editRuntime rt (·.without b'.id))).shape
    rw [e, e']
    exact binds_without

theorem binds_unbind (hb : Books F h) {rt id rt' : Nat} {b : Bound} :
    Binds (h.unbind rt id).2.runtimes rt' b ↔ Binds h.runtimes rt' b ∧ ¬(rt' = rt ∧ b.id = id) :=
  binds_unbind_of_sound hb.runtimes

theorem binds_unbindAll (hb : Books F h) {rt : Nat} {ids : List Nat} {rt' : Nat} {b : Bound} :
    Binds (h.unbindAll rt ids).runtimes rt' b ↔ Binds h.runtimes rt' b ∧ ¬(rt' = rt ∧ b.id ∈ ids) := by
  induction ids generalizing h with
  | nil => simp [unbindAll]
  | cons id ids ih =>
    rw [unbindAll, List.foldl_cons, ← unbindAll, ih (goes_unbind hb rt id).books, binds_unbind hb, List.mem_cons]
    constructor
    · intro ⟨⟨h₀, hne⟩, hnm⟩
      exact ⟨h₀, fun ⟨e, hid⟩ => hid.elim (fun hid => hne ⟨e, hid⟩) fun hid => hnm ⟨e, hid⟩⟩
    · intro ⟨h₀, hn⟩
      exact ⟨⟨h₀, fun ⟨e, hid⟩ => hn ⟨e, .inl hid⟩⟩, fun ⟨e, hid⟩ => hn ⟨e, .inr hid⟩⟩

/-! ## The end of an evaluation -/

theorem goes_endEvaluation (hb : Books F h) (rt id : Nat) : Goes F h (h.endEvaluation rt id) := by
  have hg : Goes F h (h.editRuntime rt (·.edit id fun b => { b with running := b.running - 1 })) :=
    goes_editBinding hb rt id fun b => ⟨⟨⟨rfl, rfl, rfl, rfl, rfl⟩, rfl⟩, rfl⟩
  unfold endEvaluation
  generalize h.editRuntime rt (·.edit id fun b => { b with running := b.running - 1 }) = h₁ at hg ⊢
  refine hg.trans ?_
  have hb := hg.books
  dsimp only
  split
  · exact .rfl hb
  · rename_i p r b hp
    simp only [Option.bind_eq_some_iff, Option.map_eq_some_iff, Prod.mk.injEq] at hp
    obtain ⟨r, hr, b, hgone, rfl, rfl⟩ := hp
    have hl : b ∈ r.leaving := List.mem_of_find?_eq_some hgone
    have hid : b.id = id := by
      have := List.find?_some hgone
      simp only [Bool.and_eq_true, beq_iff_eq] at this
      exact this.1
    subst hid
    have hc := cancelled h₁ r.clock b.waiting
    obtain ⟨cs, e⟩ := hc.shape
    have hlen := hc.length
    have hclock := hc.clock
    rw [e] at hlen hclock ⊢
    have hbound : AlikeTables (AlikeBound Same) h₁.runtimes (h₁.runtimes.modify rt (·.forget b.id)) :=
      alike_modify _ rt (fun _ => AlikeBound.rfl fun _ => Same.rfl) fun r _ => alike_forget r b.id fun _ => Same.rfl
    have hlater : RuntimesLater h₁.runtimes (h₁.runtimes.modify rt (·.forget b.id)) :=
      later_modify _ rt fun r _ => (r.later_forget b.id).1
    have htimers : TimerBooks F (h₁.runtimes.modify rt (·.forget b.id)) cs h₁.debouncers :=
      hb.timers.forget hb.runtimes ⟨r, hr, hl⟩ (p := fun t => !(b.waiting == some t.id)) ⟨r, hr, rfl⟩
        (fun {t} => by simp) hlen (fun hne => (hclock _).trans (if_neg hne)) ((hclock _).trans (if_pos rfl))
    refine ⟨⟨⟨sound_modify hb.runtimes rt fun r hr => (hb.runtimes hr).forget b.id, hb.listeners.alike hbound,
      hb.entries.alike hbound, htimers⟩, ⟨hlater, .rfl _⟩, calm_modify _ rt fun r _ => (r.later_forget b.id).2⟩,
      still_of_waits hb.timers htimers hb.runtimes hlater (fun {c t rt' id e} ht _ => ?_) (fun hkeeps hbinds hid => ?_)
        fun hleaves _ => ⟨_, (leaves_forget.mp hleaves).1, rfl⟩⟩
    · change t ∈ (clockAt cs c).timers at ht
      rw [show clockAt cs c = _ from hclock c] at ht
      split at ht
      · exact (List.mem_filter.mp ht).1
      · exact ht
    · have hbinds := (binds_modify_same (f := (·.forget b.id)) fun _ => .refl _).mp hbinds
      rw [keeps_unique hb.runtimes hbinds.keeps hkeeps hid]

/-! ## The end of a runtime -/

theorem Withdrawn.edit {bs : List Bound} (w : Withdrawn r bs h h') (rt : Nat) (f : Runtime Script → Runtime Script) :
    Withdrawn r bs (h.editRuntime rt f) (h'.editRuntime rt f) where
  shape := by
    obtain ⟨ls, ts, cs, rfl⟩ := w.shape
    exact ⟨ls, ts, cs, rfl⟩
  listeners := w.listeners
  trackers := w.trackers
  tracker := w.tracker
  clocks := w.clocks
  clock := w.clock

/-- All bindings of a runtime go at once. -/
theorem goes_close (hb : Books F h) (hr : h.runtimes[rt]? = some r) (hl : r.leaving = [])
    (hw : Withdrawn r r.bindings h h') : Goes F h (h'.editRuntime rt Runtime.close) := by
  have hsound := fun {rt'} {r'} => @sound_modify _ hb.runtimes rt Runtime.close
    (fun r' hr' => Runtime.sound_close r' (by cases hr.symm.trans hr'; exact hl)) rt' r'
  refine goes_withdrawn hb hr hsound (parts_modify _ rt fun _ => ⟨rfl, rfl, rfl, fun _ => rfl⟩) id ?_ ?_ ?_
    (later_modify _ rt fun r _ => r.later_close.1) (calm_modify _ rt fun r _ => r.later_close.2) (hw.edit rt Runtime.close)
    rfl
  · intro rt' b
    rw [binds_modify]
    constructor
    · intro ⟨r', hr', h₀⟩
      split at h₀
      · cases h₀
      · rename_i hne
        exact ⟨⟨r', hr', h₀⟩, fun e => hne e.1.symm⟩
    · intro ⟨⟨r', hr', h₀⟩, hne⟩
      refine ⟨r', hr', ?_⟩
      split
      · rename_i e
        subst e
        cases hr.symm.trans hr'
        exact absurd ⟨rfl, h₀⟩ hne
      · exact h₀
  · exact fun h₀ => .inl ((leaves_modify_same (f := Runtime.close) fun _ => rfl).mp h₀)
  · exact fun h₀ => (leaves_modify_same (f := Runtime.close) fun _ => rfl).mpr h₀

theorem goes_releaseTracker (hb : Books F h) {k : Nat} (hn : ∀ rt, ¬Needs h.runtimes rt k) :
    Goes F h (h.setTracker k (h.tracker k).release) := by
  by_cases hk : k < h.trackers.length
  · have hat : ∀ k', trackerAt (h.setTracker k (h.tracker k).release).trackers k' =
        if k = k' then (h.tracker k).release else trackerAt h.trackers k' := fun k' => trackerAt_set _ k' hk
    have hinst : ∀ k', (trackerAt (h.setTracker k (h.tracker k).release).trackers k').installed =
        (trackerAt h.trackers k').installed := by
      intro k'
      rw [hat]
      split
      · rename_i e
        subst e
        unfold Tracker.release Tracker.settle
        split <;> rfl
      · rfl
    refine ⟨⟨⟨hb.runtimes, hb.listeners.trackers hinst, ?_, hb.timers⟩, ⟨.rfl _, .rfl _⟩, .rfl _⟩, .rfl _ _⟩
    refine hb.entries.walk hb.runtimes (by simp [setTracker]) ?_ hinst ?_
    · intro k'
      rw [hat]
      split
      · rename_i e
        subst e
        unfold Tracker.release Tracker.settle
        split
        · exact .inl rfl
        · exact .inr ⟨rfl, hn⟩
      · exact .inl rfl
    · rintro k' ⟨rt, hneeds⟩
      rw [hat, if_neg]
      intro e
      subst e
      exact hn rt hneeds
  · have : h.setTracker k (h.tracker k).release = h := by
      unfold setTracker
      rw [set_of_le _ (Nat.le_of_not_lt hk)]
    rw [this]
    exact .rfl hb

theorem goes_endIfIdle (hb : Books F h) (rt : Nat) : Goes F h (h.endIfIdle rt) := by
  unfold endIfIdle runtime?
  split
  · exact .rfl hb
  · rename_i r hr
    split
    · rename_i hidle
      simp only [Bool.and_eq_true, Runtime.isIdle, List.isEmpty_iff] at hidle
      have hw := withdrawn_foldl r r.bindings h
      dsimp only
      generalize r.bindings.foldl (fun h b => h.withdraw r b) h = h₁ at hw ⊢
      have hg := goes_close hb hr hidle.2.1 hw
      -- The rest of the end is done to the host whose runtime is closed already.
      have hg' : Goes F (h₁.editRuntime rt Runtime.close)
          { h₁.editRuntime rt Runtime.close with page := (h₁.page.disconnect r.observer).2 } :=
        goes_frame hg.books rfl rfl rfl rfl rfl rfl rfl
      refine (hg.trans hg').trans ?_
      cases ho : r.ownsTracker with
      | false => exact .rfl hg'.books
      | true =>
        refine goes_releaseTracker hg'.books fun rt' hn => ?_
        have hparts : AlikeTables SameParts h.runtimes (h₁.editRuntime rt Runtime.close).runtimes := by
          obtain ⟨ls, ts, cs, rfl⟩ := hw.shape
          exact parts_modify _ rt fun _ => ⟨rfl, rfl, rfl, fun _ => rfl⟩
        cases hb.entries.places.alone ⟨r, hr, ho, rfl⟩ ((uses_iff hparts).mp hn.owns.uses)
        obtain ⟨r', hr', -, -, hs⟩ := hn
        obtain ⟨ls, ts, cs, rfl⟩ := hw.shape
        obtain ⟨r'', -, rfl⟩ := modify_eq_some.mp hr'
        rw [if_pos rfl] at hs
        exact hs rfl
    · exact .rfl hb

theorem goes_release (hb : Books F h) (rt : Nat) : Goes F h (h.release rt) := by
  have hg : Goes F h (h.editRuntime rt fun r => if r.status == .held then { r with status := .released } else r) := by
    refine goes_aside hb rt fun r => ?_
    split
    · rename_i hs
      simp only [beq_iff_eq] at hs
      exact ⟨rfl, rfl, rfl, rfl, rfl, by simp [hs], rfl, rfl⟩
    · exact ⟨rfl, rfl, rfl, rfl, rfl, Iff.rfl, rfl, rfl⟩
  exact hg.trans (goes_endIfIdle hg.books rt)

end Eventful.Host
