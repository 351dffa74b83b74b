import Eventful.Proofs.Host.Edits
import Eventful.Proofs.Host.EntryBooks
import Eventful.Proofs.Host.ListenerBooks

/-
  Eventful.Proofs.Host.Upkeep — single edits of a host keep its books.

  Edits of one runtime that its registrations do not depend on, of listeners that belong
  to scripts, of clocks, of trackers and of debouncers. An edit that could take away what
  a runtime of `F` needs asks that it does not: that is as far as the host's own hands go.
-/

namespace Eventful.Host

open Page Binding

variable {F : Nat → Prop} {h h' : Host} {rt k c : Nat}

/-! ## Runtimes -/

theorem sound_modify {rs : Runtimes} (hs : ∀ {rt : Nat} {r : Runtime Script}, rs[rt]? = some r → r.Sound) (rt : Nat)
    {f : Runtime Script → Runtime Script} (hf : ∀ r, rs[rt]? = some r → (f r).Sound) {rt' : Nat} {r' : Runtime Script}
    (hr : (rs.modify rt f)[rt']? = some r') : r'.Sound := by
  obtain ⟨r, h₀, rfl⟩ := modify_eq_some.mp hr
  split
  · rename_i e
    subst e
    exact hf r h₀
  · exact hs h₀

theorem editRuntime_congr {r : Runtime Script} (hr : h.runtimes[rt]? = some r)
    {f g : Runtime Script → Runtime Script} (e : f r = g r) : h.editRuntime rt f = h.editRuntime rt g := by
  unfold editRuntime
  rw [modify_congr hr e]

/-- A runtime changes, but neither what it registered nor what fired. -/
theorem goes_aside (hb : Books F h) (rt : Nat) {f : Runtime Script → Runtime Script} (hf : ∀ r, Runtime.Aside r (f r)) :
    Goes F h (h.editRuntime rt f) := by
  have hbound : AlikeTables (AlikeBound Same) h.runtimes (h.runtimes.modify rt f) :=
    alike_modify _ rt (fun _ => AlikeBound.rfl fun _ => Same.rfl)
      fun r _ => ((hf r).alike fun _ => Same.rfl).toAlikeBound
  have hwait : AlikeTables (Alike SameWait) h.runtimes (h.runtimes.modify rt f) :=
    alike_modify _ rt (fun _ => Alike.rfl fun _ => SameWait.rfl) fun r _ => (hf r).alike fun _ => SameWait.rfl
  have hlater : RuntimesLater h.runtimes (h.runtimes.modify rt f) := by
    refine later_modify _ rt fun r _ => ?_
    exact Runtime.Later.alike ((hf r).alike (R := Eq) fun _ => rfl) (fun _ _ e => e ▸ Same.rfl) fun _ _ e => e ▸ id
  refine ⟨⟨⟨sound_modify hb.runtimes rt fun r hr => (hf r).sound (hb.runtimes hr), hb.listeners.alike hbound,
    hb.entries.alike hbound, hb.timers.alike hwait⟩, ⟨hlater, .rfl _⟩, calm_modify _ rt fun r _ => ?_⟩,
    still_alike hb.timers hb.runtimes hwait hlater⟩
  exact Runtime.Calm.alike ((hf r).alike (R := Eq) fun _ => rfl) fun _ _ e => e ▸ ⟨rfl, rfl⟩

/-- One binding changes, but neither what it is waiting for nor whether it fired. -/
theorem goes_editBinding (hb : Books F h) (rt id : Nat) {f : Bound → Bound}
    (hf : ∀ b, SameWait b (f b) ∧ (f b).fired = b.fired) : Goes F h (h.editRuntime rt (·.edit id f)) := by
  have halike : ∀ r : Runtime Script, Alike (fun b b' => SameWait b b' ∧ b'.fired = b.fired) r (r.edit id f) :=
    fun r => alike_edit r id (fun _ => ⟨SameWait.rfl, .refl _⟩) hf
  have hbound : AlikeTables (AlikeBound Same) h.runtimes (h.runtimes.modify rt (·.edit id f)) :=
    alike_modify _ rt (fun _ => AlikeBound.rfl fun _ => Same.rfl)
      fun r _ => (halike r).toAlikeBound.mono fun _ _ e => e.1.1
  have hwait : AlikeTables (Alike SameWait) h.runtimes (h.runtimes.modify rt (·.edit id f)) :=
    alike_modify _ rt (fun _ => Alike.rfl fun _ => SameWait.rfl)
      fun r _ => alike_edit r id (fun _ => SameWait.rfl) fun b => (hf b).1
  have hlater : RuntimesLater h.runtimes (h.runtimes.modify rt (·.edit id f)) :=
    later_modify _ rt fun r _ => Runtime.Later.alike (halike r) (fun _ _ e => e.1.1) fun _ _ e ef => e.2.trans ef
  refine ⟨⟨⟨sound_modify hb.runtimes rt fun r hr => ?_, hb.listeners.alike hbound, hb.entries.alike hbound,
    hb.timers.alike hwait⟩, ⟨hlater, .rfl _⟩, calm_modify _ rt fun r _ => ?_⟩,
    still_alike hb.timers hb.runtimes hwait hlater⟩
  · exact (hb.runtimes hr).edit id (fun b => (hf b).1.1) fun b h₀ e => (hb.runtimes hr).firedOnce h₀ ((hf b).2 ▸ e)
  · exact Runtime.Calm.alike (halike r) fun _ _ e => ⟨e.1.1.id, e.2⟩

/-- The host in which a binding's expression is evaluated. -/
def begun (h : Host) (rt : Nat) (b : Bound) : Host :=
  h.editRuntime rt (·.edit b.id fun b' => { b' with fired := b.plan.isOnce, running := b'.running + 1 })

/-- An evaluation of a binding begins. -/
theorem books_begin (hb : Books F h) {b : Bound} (hk : Keeps h.runtimes rt b) :
    Books F (begun h rt b) ∧ Onward h (begun h rt b) ∧
      Still F h.runtimes (begun h rt b).runtimes h.clocks (begun h rt b).clocks := by
  obtain ⟨r₀, hr₀, hb₀⟩ := hk
  let f (b' : Bound) : Bound := { b' with fired := b'.fired || b'.plan.isOnce, running := b'.running + 1 }
  -- Whether it fired before makes no difference, since only `once` bindings fire.
  have hfired : (b.fired || b.plan.isOnce) = b.plan.isOnce := by
    cases hf : b.fired with
    | false => rfl
    | true => exact ((hb.runtimes hr₀).firedOnce hb₀ hf).symm ▸ rfl
  have hedit : begun h rt b = h.editRuntime rt (·.edit b.id f) :=
    editRuntime_congr hr₀ ((hb.runtimes hr₀).edit_congr hb₀ (by simp only [f, hfired]))
  rw [hedit]
  have hf : ∀ b', SameWait b' (f b') ∧ (b'.fired = true → (f b').fired = true) :=
    fun b' => ⟨⟨⟨rfl, rfl, rfl, rfl, rfl⟩, rfl⟩, fun e => by simp only [f, e, Bool.true_or]⟩
  have halike : ∀ r : Runtime Script,
      Alike (fun b b' => SameWait b b' ∧ (b.fired = true → b'.fired = true)) r (r.edit b.id f) :=
    fun r => alike_edit r b.id (fun _ => ⟨SameWait.rfl, id⟩) hf
  have hbound : AlikeTables (AlikeBound Same) h.runtimes (h.runtimes.modify rt (·.edit b.id f)) :=
    alike_modify _ rt (fun _ => AlikeBound.rfl fun _ => Same.rfl)
      fun r _ => (halike r).toAlikeBound.mono fun _ _ e => e.1.1
  have hwait : AlikeTables (Alike SameWait) h.runtimes (h.runtimes.modify rt (·.edit b.id f)) :=
    alike_modify _ rt (fun _ => Alike.rfl fun _ => SameWait.rfl)
      fun r _ => alike_edit r b.id (fun _ => SameWait.rfl) fun b' => (hf b').1
  have hlater : RuntimesLater h.runtimes (h.runtimes.modify rt (·.edit b.id f)) :=
    later_modify _ rt fun r _ => Runtime.Later.alike (halike r) (fun _ _ e => e.1.1) fun _ _ e => e.2
  refine ⟨⟨sound_modify hb.runtimes rt fun r hr => ?_, hb.listeners.alike hbound, hb.entries.alike hbound,
    hb.timers.alike hwait⟩, ⟨hlater, .rfl _⟩, still_alike hb.timers hb.runtimes hwait hlater⟩
  refine (hb.runtimes hr).edit b.id (fun b' => (hf b').1.1) fun b' h₀ e => ?_
  simp only [f, Bool.or_eq_true] at e
  exact e.elim ((hb.runtimes hr).firedOnce h₀) id

/-! ## Listeners -/

theorem goes_listen (hb : Books F h) (t : Target) (event : String) (o : Options) (s : Script) :
    Goes F h (h.listen t event o (.script s)).2 :=
  ⟨⟨⟨hb.runtimes, hb.listeners.addScript t event o s, hb.entries, hb.timers⟩, ⟨.rfl _, later_add _ _ _ _ _⟩, .rfl _⟩,
    .rfl _ _⟩

theorem goes_unlisten (hb : Books F h) {id : Nat}
    (hu : ∀ {t l}, h.page.listeners.Stands t l → l.id = id → ListenerBooks.Unneeded F h.runtimes l) :
    Goes F h (h.unlisten id).2 :=
  ⟨⟨⟨hb.runtimes, hb.listeners.removeUnneeded id hu, hb.entries, hb.timers⟩,
    ⟨.rfl _, later_filtered (Listeners.filtered_remove hb.listeners.sound id)⟩, .rfl _⟩, .rfl _ _⟩

/-! ## Clocks -/

theorem goes_clocks (hb : Books F h) {cs : List (Clock Alarm)} (ht : TimerBooks F h.runtimes cs h.debouncers)
    (hstill : Still F h.runtimes h.runtimes h.clocks cs) : Goes F h { h with clocks := cs } :=
  ⟨⟨⟨hb.runtimes, hb.listeners, hb.entries, ht⟩, ⟨.rfl _, .rfl _⟩, .rfl _⟩, hstill⟩

/-- A clock changes: timers start that are not bindings', and timers go that no binding of
    `F` waits for. -/
theorem goes_setClock (hb : Books F h) {k : Clock Alarm} (sound : k.Sound)
    (issued : (h.clock c).lastId ≤ k.lastId)
    (sub : ∀ {t}, t ∈ k.timers → t ∈ (h.clock c).timers ∨
      ((h.clock c).lastId < t.id ∧ ∀ rt id e, t.action ≠ .binding rt id e))
    (kept : ∀ {rt t id e}, F rt → t ∈ (h.clock c).timers → t.action = .binding rt id e → t ∈ k.timers) :
    Goes F h (h.setClock c k) := by
  by_cases hc : c < h.clocks.length
  · have hat : ∀ c', clockAt (h.clocks.set c k) c' = if c = c' then k else clockAt h.clocks c' :=
      fun c' => clockAt_set k c' hc
    have hsub : ∀ {c' t}, t ∈ (clockAt (h.clocks.set c k) c').timers → t ∈ (clockAt h.clocks c').timers ∨
        ((clockAt h.clocks c').lastId < t.id ∧ ∀ rt id e, t.action ≠ .binding rt id e) := by
      intro c' t ht
      rw [hat] at ht
      split at ht
      · rename_i e; exact e ▸ sub ht
      · exact .inl ht
    have hkept : ∀ {rt c' t id e}, F rt → t ∈ (clockAt h.clocks c').timers → t.action = .binding rt id e →
        t ∈ (clockAt (h.clocks.set c k) c').timers := by
      intro rt c' t id e hF ht ha
      rw [hat]
      split
      · rename_i ec; subst ec; exact kept hF ht ha
      · exact ht
    refine goes_clocks hb (hb.timers.clocks (by simp) ?_ ?_ hsub hkept) ⟨fun ht ha => ?_, fun hF ht ha => ?_⟩
    · intro c'
      rw [hat]
      split
      · exact sound
      · exact hb.timers.sound c'
    · intro c'
      rw [hat]
      split
      · rename_i e; exact e ▸ issued
      · exact Nat.le_refl _
    · rcases hsub ht with ht | ⟨-, hn⟩
      · exact ⟨ht, id⟩
      · exact absurd ha (hn _ _ _)
    · exact .inl (hkept hF ht ha)
  · have : h.setClock c k = h := by
      unfold setClock
      rw [set_of_le k (Nat.le_of_not_lt hc)]
    rw [this]
    exact .rfl hb

theorem startTimer_clock (hc : c < h.clocks.length) (delay : Nat) (a : Alarm) :
    (h.startTimer c delay a).2.clock c = ((h.clock c).start delay a).2 :=
  (clockAt_set _ c hc).trans (if_pos rfl)

theorem goes_startTimer (hb : Books F h) (c delay : Nat) {a : Alarm} (ha : ∀ rt id e, a ≠ .binding rt id e) :
    Goes F h (h.startTimer c delay a).2 := by
  refine goes_setClock hb (Clock.sound_start (hb.timers.sound c) delay a) (Nat.le_succ _) (fun {t} ht => ?_)
    fun _ ht _ => List.mem_append_left _ ht
  rcases List.mem_append.mp ht with ht | ht
  · exact .inl ht
  · rw [List.mem_singleton.mp ht]
    exact .inr ⟨Nat.lt_succ_self _, ha⟩

theorem goes_cancelTimer (hb : Books F h) (c id : Nat)
    (hu : ∀ {rt t id' e}, t ∈ (h.clock c).timers → t.id = id → t.action = .binding rt id' e → ¬F rt) :
    Goes F h (h.cancelTimer c id).2 := by
  refine goes_setClock hb (Clock.sound_cancel (hb.timers.sound c) id) (Nat.le_refl _)
    (fun ht => .inl (List.mem_filter.mp ht).1) fun hF ht ha => List.mem_filter.mpr ⟨ht, bne_iff_ne.mpr fun e => ?_⟩
  exact hu ht e ha hF

theorem goes_moveTo (hb : Books F h) {c instant : Nat} (hd : ∀ t ∈ (h.clock c).timers, instant ≤ t.due) :
    Goes F h (h.setClock c ((h.clock c).moveTo instant)) :=
  goes_setClock hb (Clock.sound_moveTo (hb.timers.sound c) hd) (Nat.le_refl _) .inl fun _ ht _ => ht

/-- A timer is taken that is not a binding's. -/
theorem goes_take (hb : Books F h) {t : Timer Alarm} {k : Clock Alarm} (ht : (h.clock c).takeFirst? = some (t, k))
    (ha : ∀ rt id e, t.action ≠ .binding rt id e) : Goes F h (h.setClock c k) := by
  obtain ⟨hm, -, hk⟩ := Clock.takeFirst?_eq_some ht
  have hs := Clock.sound_takeFirst (hb.timers.sound c) ht
  subst hk
  refine goes_setClock hb hs (Nat.le_refl _) (fun hu => .inl (List.mem_filter.mp hu).1) fun {rt u id e} _ hu hua => ?_
  refine List.mem_filter.mpr ⟨hu, bne_iff_ne.mpr fun e' => ha rt id e ?_⟩
  rw [← hua, Clock.sound_unique (hb.timers.sound c) hm hu e'.symm]

/-- What a binding waits for changes, with the clocks. -/
theorem steps_wait (hb : Books F h) (rt id : Nat) (w : Option Nat) {cs : List (Clock Alarm)}
    (ht : TimerBooks F (h.runtimes.modify rt (·.edit id fun b => { b with waiting := w })) cs h.debouncers) :
    Steps F h (({ h with clocks := cs } : Host).editRuntime rt (·.edit id fun b => { b with waiting := w })) := by
  have hf : ∀ b : Bound, Same b { b with waiting := w } ∧ b.fired = b.fired :=
    fun _ => ⟨⟨rfl, rfl, rfl, rfl, rfl⟩, rfl⟩
  have halike : ∀ r : Runtime Script,
      Alike (fun b b' => Same b b' ∧ b'.fired = b.fired) r (r.edit id fun b => { b with waiting := w }) :=
    fun r => alike_edit r id (fun _ => ⟨Same.rfl, rfl⟩) hf
  have hbound : AlikeTables (AlikeBound Same) h.runtimes
      (h.runtimes.modify rt (·.edit id fun b => { b with waiting := w })) :=
    alike_modify _ rt (fun _ => AlikeBound.rfl fun _ => Same.rfl)
      fun r _ => (halike r).toAlikeBound.mono fun _ _ e => e.1
  refine ⟨⟨sound_modify hb.runtimes rt fun r hr => ?_, hb.listeners.alike hbound, hb.entries.alike hbound, ht⟩,
    ⟨later_modify _ rt fun r _ => ?_, .rfl _⟩, calm_modify _ rt fun r _ => ?_⟩
  · exact (hb.runtimes hr).edit id (fun b => (hf b).1) fun b h₀ e => (hb.runtimes hr).firedOnce h₀ e
  · exact Runtime.Later.alike (halike r) (fun _ _ e => e.1) fun _ _ e ef => e.2.trans ef
  · exact Runtime.Calm.alike (halike r) fun _ _ e => ⟨e.1.id, e.2⟩

/-- The host in which a binding's wait is over. -/
def waited (h : Host) (rt id : Nat) : Host := h.editRuntime rt (·.edit id fun b => { b with waiting := none })

/-- A binding's timer is taken, and its wait is over. -/
theorem steps_ring (hb : Books F h) {t : Timer Alarm} {k : Clock Alarm} (ht : (h.clock c).takeFirst? = some (t, k))
    {id : Nat} {e : Page.Event} (ha : t.action = .binding rt id e) :
    Steps F h ((h.setClock c k).waited rt id) :=
  steps_wait hb rt id none (hb.timers.ring hb.runtimes ht ha)

/-! ## Trackers -/

/-- A walk through a tracker begins or ends: at most the entries go that nobody needs. -/
theorem goes_walk (hb : Books F h) {k : Nat} {t : Tracker Waiter}
    (entries : t.entries = (h.tracker k).entries ∨ (t.entries = [] ∧ (h.tracker k).held = false))
    (installed : t.installed = (h.tracker k).installed) (held : t.held = (h.tracker k).held) :
    Goes F h (h.setTracker k t) := by
  by_cases hk : k < h.trackers.length
  · have hat : ∀ k', trackerAt (h.setTracker k t).trackers k' = if k = k' then t else trackerAt h.trackers k' :=
      fun k' => trackerAt_set t k' hk
    have hinst : ∀ k', (trackerAt (h.setTracker k t).trackers k').installed = (trackerAt h.trackers k').installed := by
      intro k'
      rw [hat]
      split
      · rename_i e; exact e ▸ installed
      · rfl
    refine ⟨⟨⟨hb.runtimes, hb.listeners.trackers hinst, ?_, hb.timers⟩, ⟨.rfl _, .rfl _⟩, .rfl _⟩, .rfl _ _⟩
    refine hb.entries.walk hb.runtimes (by simp [setTracker]) ?_ hinst ?_
    · intro k'
      rw [hat]
      split
      · rename_i e
        subst e
        refine entries.imp_right fun he => ⟨he.1, fun rt hn => ?_⟩
        have hheld := hb.entries.held hn
        cases hheld.symm.trans he.2
      · exact .inl rfl
    · intro k' _
      rw [hat]
      split
      · rename_i e; exact e ▸ held
      · rfl
  · have : h.setTracker k t = h := by
      unfold setTracker
      rw [set_of_le t (Nat.le_of_not_lt hk)]
    rw [this]
    exact .rfl hb

theorem goes_beginWalk (hb : Books F h) (k : Nat) : Goes F h (h.setTracker k (h.tracker k).beginWalk) :=
  goes_walk hb (.inl rfl) rfl rfl

theorem goes_endWalk (hb : Books F h) (k : Nat) : Goes F h (h.setTracker k (h.tracker k).endWalk) := by
  unfold Tracker.endWalk Tracker.settle
  split
  · exact goes_walk hb (.inl rfl) rfl rfl
  · rename_i hn
    refine goes_walk hb (.inr ⟨rfl, ?_⟩) rfl rfl
    simp only [Bool.or_eq_true, not_or, Bool.not_eq_true] at hn
    exact hn.1

/-- No runtime of `F` owns the tracker. -/
def Foreign (F : Nat → Prop) (h : Host) (k : Nat) : Prop := ∀ rt, F rt → ¬Owns h.runtimes rt k

/-- A tracker loses entries that no runtime of `F` has there. -/
theorem goes_unregister (hb : Books F h) (hk : Foreign F h k) (id : Nat) :
    Goes F h (h.setTracker k ((h.tracker k).unregister id).2) := by
  have hat : ∀ k', trackerAt (h.setTracker k ((h.tracker k).unregister id).2).trackers k' = if k = k' then
      { trackerAt h.trackers k' with entries := (trackerAt h.trackers k').entries.filter (·.binding != id) }
      else trackerAt h.trackers k' := by
    intro k'
    unfold setTracker
    by_cases hlt : k < h.trackers.length
    · rw [trackerAt_set _ k' hlt]
      split
      · rename_i e; subst e; rfl
      · rfl
    · rw [set_of_le _ (Nat.le_of_not_lt hlt)]
      split
      · rename_i e; subst e; rw [trackerAt_of_le (Nat.le_of_not_lt hlt)]; rfl
      · rfl
  refine ⟨⟨⟨hb.runtimes, hb.listeners.trackers fun k' => ?_, hb.entries.foreign ?_ ?_ ?_ ?_, hb.timers⟩,
    ⟨.rfl _, .rfl _⟩, .rfl _⟩, .rfl _ _⟩
  · rw [hat]
    split <;> rfl
  · simp [setTracker]
  · intro rt k' hF ho
    have hne : k ≠ k' := by
      intro e
      exact hk rt hF (e ▸ ho)
    rw [hat, if_neg hne]
  · intro k' w rt id' hw _
    rw [hat] at hw
    split at hw
    · exact (List.mem_filter.mp hw).1
    · exact hw
  · intro k'
    rw [hat]
    split <;> rfl

theorem goes_newTracker (hb : Books F h) :
    Goes F h { h with
      trackers := h.trackers ++ [.empty]
      sharedTrackers := h.sharedTrackers ++ [h.trackers.length] } :=
  ⟨⟨⟨hb.runtimes, hb.listeners.trackers fun k => by rw [trackerAt_append], hb.entries.share, hb.timers⟩,
    ⟨.rfl _, .rfl _⟩, .rfl _⟩, .rfl _ _⟩

/-! ## Debouncers -/

theorem goes_debouncers (hb : Books F h) {ds : List Debouncer}
    (hd : ∀ {d : Nat} {k : Debouncer} {i : Nat}, ds[d]? = some k → k.waiting = some i →
      (∃ (d₀ : Nat) (k₀ : Debouncer), h.debouncers[d₀]? = some k₀ ∧ k₀.waiting = some i) ∨
      (i ≤ (h.clock 0).lastId ∧
        ∀ {t}, t ∈ (h.clock 0).timers → t.id = i → ∃ d e s, t.action = .debouncer d e s)) :
    Goes F h { h with debouncers := ds } :=
  ⟨⟨⟨hb.runtimes, hb.listeners, hb.entries, hb.timers.debouncers hd⟩, ⟨.rfl _, .rfl _⟩, .rfl _⟩, .rfl _ _⟩

/-- A debouncer changes, but does not start to wait. -/
theorem goes_editDebouncer (hb : Books F h) (d : Nat) {f : Debouncer → Debouncer}
    (hf : ∀ k, (f k).waiting = none ∨ (f k).waiting = k.waiting) : Goes F h (h.editDebouncer d f) := by
  refine goes_debouncers hb fun {d' k i} hk hw => ?_
  obtain ⟨k₀, h₀, rfl⟩ := modify_eq_some.mp hk
  refine .inl ⟨d', k₀, h₀, ?_⟩
  split at hw
  · rcases hf k₀ with e | e
    · rw [e] at hw; cases hw
    · exact e ▸ hw
  · exact hw

/-- A debouncer's own timer is nobody else's. -/
theorem goes_cancelOwn (hb : Books F h) {d : Nat} {k : Debouncer} (hk : h.debouncers[d]? = some k) :
    Goes F h (h.cancelWaiting 0 k.waiting).2 := by
  unfold cancelWaiting
  split
  · exact .rfl hb
  · rename_i i hw
    refine goes_cancelTimer hb 0 i fun {rt t id e} ht hid ha => ?_
    obtain ⟨_, _, _, ha'⟩ := (hb.timers.theirs hk hw).2 ht hid
    rw [ha] at ha'
    cases ha'

theorem goes_stopWaiting (hb : Books F h) (d : Nat) : Goes F h (h.stopWaiting d).2 := by
  unfold stopWaiting
  split
  · exact .rfl hb
  · rename_i k hk
    have hg := goes_cancelOwn hb hk
    exact hg.trans (goes_editDebouncer hg.books d fun _ => .inl rfl)

theorem goes_cancelDebouncer (hb : Books F h) (d : Nat) : Goes F h (h.cancelDebouncer d).2 := by
  unfold cancelDebouncer
  split
  · exact goes_stopWaiting hb d
  · exact .rfl hb

theorem goes_settleDebouncer (hb : Books F h) (d : Nat) : Goes F h (h.settleDebouncer d) := by
  unfold settleDebouncer
  split
  · exact goes_stopWaiting hb d
  · exact .rfl hb

theorem goes_dropDebouncer (hb : Books F h) (d : Nat) : Goes F h (h.dropDebouncer d) :=
  have hg := goes_editDebouncer hb d (f := fun k => { k with held := false }) fun _ => .inr rfl
  hg.trans (goes_settleDebouncer hg.books d)

theorem goes_newDebouncer (hb : Books F h) (wait : Nat) :
    Goes F h { h with debouncers := h.debouncers ++ [⟨wait, none, true, 0⟩] } := by
  refine goes_debouncers hb fun {d k i} hk hw => ?_
  rcases append_eq_some.mp hk with hk | ⟨-, rfl⟩
  · exact .inl ⟨d, k, hk, hw⟩
  · cases hw

theorem goes_schedule (hb : Books F h) (d : Nat) (e : Page.Event) (s : Script) : Goes F h (h.schedule d e s) := by
  unfold schedule
  split
  · exact .rfl hb
  · rename_i k hk
    obtain ⟨hk, -⟩ := Option.filter_eq_some_iff.mp hk
    have hg := goes_cancelOwn hb hk
    have hg' := goes_startTimer hg.books 0 k.wait (a := .debouncer d e s) (fun _ _ _ h => by cases h)
    refine (hg.trans hg').trans (goes_debouncers hg'.books fun {d' k' i} hk' hw => ?_)
    obtain ⟨k₀, h₀, rfl⟩ := modify_eq_some.mp hk'
    split at hw
    · -- The new timer is the debouncer's own.
      cases hw
      rw [startTimer_clock hg.books.timers.session]
      refine .inr ⟨Nat.le_refl _, fun {t} ht hid => ?_⟩
      rcases List.mem_append.mp ht with ht | ht
      · have := (hg.books.timers.sound 0).issued t ht
        change t.id = (clockAt _ 0).lastId + 1 at hid
        omega
      · rw [List.mem_singleton.mp ht]
        exact ⟨d, e, s, rfl⟩
    · exact .inl ⟨d', k₀, h₀, hw⟩

end Eventful.Host
