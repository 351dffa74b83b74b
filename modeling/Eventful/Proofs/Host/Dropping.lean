import Eventful.Proofs.Host.Conduct
import Eventful.Proofs.Host.Idle
import Eventful.Proofs.Host.Watching

/-
  Eventful.Proofs.Host.Dropping — a runtime goes, and what its bindings registered with it.

  Once the handle to a runtime is gone and the session has come back, nothing that it put
  somewhere for one of its bindings is left: no listener, no entry of a tracker, no timer,
  and its removal observer neither (`Cleared`). A handle that is dropped between two actions
  takes these and nothing else (`Drops`). Among what stays are the listeners of a tracker,
  also of one that is the runtime's own and that nobody can reset any more.

  - `session_dropped`: this is so in every session that comes back.
  - `ownTracker_left`: the listener of an own tracker outlasts the runtime.
-/

namespace Eventful.Host

open Page Binding

variable {F : Nat → Prop} {h h' : Host} {rt : Nat} {r : Runtime Script}

/-- It calls a binding of the runtime. -/
def Reaction.Of (rt : Nat) (a : Reaction) : Prop := ∃ id, a = .binding rt id

def Waiter.Of (rt : Nat) (a : Waiter) : Prop := ∃ id, a = .binding rt id

def Alarm.Of (rt : Nat) (a : Alarm) : Prop := ∃ id e, a = .binding rt id e

/-- Nothing is left that a runtime registered for its bindings, nor its observer. -/
structure Cleared (rt : Nat) (h : Host) : Prop where
  listeners : ∀ t l, h.page.listeners.Stands t l → ¬l.action.Of rt
  entries : ∀ k, ∀ w ∈ (h.tracker k).entries, ¬w.action.Of rt
  timers : ∀ c, ∀ t ∈ (h.clock c).timers, ¬t.action.Of rt
  observers : ∀ o ∈ h.page.observers, o.2 ≠ .runtime rt

/-- The listeners and timers of its bindings and its observer go, and no others. -/
structure Drops (rt : Nat) (h h' : Host) : Prop where
  listeners : ∀ t l, h'.page.listeners.Stands t l ↔ h.page.listeners.Stands t l ∧ ¬l.action.Of rt
  timers : ∀ c t, t ∈ (h'.clock c).timers ↔ t ∈ (h.clock c).timers ∧ ¬t.action.Of rt
  observers : ∀ o, o ∈ h'.page.observers ↔ o ∈ h.page.observers ∧ o.2 ≠ .runtime rt

/-! ## After the end -/

/-- What the books say of a runtime that has ended. -/
theorem cleared_of_ended (hb : Books F h) (hu : Unwatched h) (hr : h.runtimes[rt]? = some r) (hs : r.status = .ended) :
    Cleared rt h := by
  obtain ⟨hbindings, hleaving⟩ := (hb.runtimes hr).ended hs
  have hnone : ∀ b, ¬Keeps h.runtimes rt b := by
    rintro b ⟨r', hr', hb'⟩
    cases hr.symm.trans hr'
    unfold Runtime.Reaches at hb'
    simp [hbindings, hleaving] at hb'
  refine ⟨fun t l hl ⟨id, ha⟩ => ?_, fun k w hw ⟨id, ha⟩ => ?_, fun c t ht ⟨id, e, ha⟩ => ?_, fun o ho e => ?_⟩
  · obtain ⟨b, hbinds, -⟩ := hb.listeners.backed hl ha
    exact hnone b hbinds.keeps
  · obtain ⟨b, hbinds, -⟩ := hb.entries.backed hw ha
    exact hnone b hbinds.keeps
  · obtain ⟨b, hkeeps, -⟩ := hb.timers.backed ht ha
    exact hnone b hkeeps
  · obtain ⟨id, o⟩ := o
    cases e
    obtain ⟨r', hr', -, hne⟩ := hu id rt ho
    cases hr.symm.trans hr'
    exact hne hs

/-! ## The drop -/

/-- The end of a runtime that is due withdraws its bindings and disconnects it. -/
theorem endIfIdle_due (hr : h.runtimes[rt]? = some r) (hd : r.Due) :
    ∃ h₁, Withdrawn r r.bindings h h₁ ∧ (h.endIfIdle rt).page.listeners = h₁.page.listeners ∧
      (h.endIfIdle rt).clocks = h₁.clocks ∧
      (h.endIfIdle rt).page.observers = h.page.observers.filter (·.1 != r.observer) := by
  have hdue : (r.status == .released && r.isIdle) = true := by simpa [Runtime.Due] using hd
  have hw := withdrawn_foldl r r.bindings h
  refine ⟨_, hw, ?_⟩
  obtain ⟨ls, ts, cs, e⟩ := hw.shape
  unfold endIfIdle
  rw [show h.runtime? rt = some r from hr]
  dsimp only
  rw [if_pos hdue, e]
  split <;> exact ⟨rfl, rfl, rfl⟩

theorem registered_listener (hb : Books F h) (hr : h.runtimes[rt]? = some r) {t : Target} {l : Listener Reaction}
    (hl : h.page.listeners.Stands t l) : r.bindings.any (·.listener == some l.id) = true ↔ l.action.Of rt := by
  rw [List.any_eq_true]
  constructor
  · rintro ⟨b, hmem, e⟩
    exact ⟨b.id, (hb.listeners.mine ⟨r, hr, hmem⟩ (by simpa using e)).2 hl rfl⟩
  · rintro ⟨id, ha⟩
    obtain ⟨b, ⟨r', hr', hmem⟩, hfits⟩ := hb.listeners.backed hl ha
    cases hr.symm.trans hr'
    exact ⟨b, hmem, by simp [hfits.listener]⟩

theorem armed_timer (hb : Books F h) (hr : h.runtimes[rt]? = some r) (hleaving : r.leaving = []) {t : Timer Alarm}
    (ht : t ∈ (h.clock r.clock).timers) : r.bindings.any (·.waiting == some t.id) = true ↔ t.action.Of rt := by
  rw [List.any_eq_true]
  constructor
  · rintro ⟨b, hmem, e⟩
    obtain ⟨ev, ha⟩ := (hb.timers.mine ⟨r, hr, .inl hmem⟩ ⟨r, hr, rfl⟩ (by simpa using e)).2 ht rfl
    exact ⟨b.id, ev, ha⟩
  · rintro ⟨id, ev, ha⟩
    obtain ⟨b, ⟨r', hr', hmem⟩, -, -, hw⟩ := hb.timers.backed ht ha
    cases hr.symm.trans hr'
    rcases hmem with hmem | hmem
    · exact ⟨b, hmem, by simp [hw]⟩
    · rw [hleaving] at hmem
      cases hmem

/-- A handle is dropped while no expression of the runtime is being evaluated. -/
theorem drops_release (hb : Books F h) (hw : Watched h) (hu : Unwatched h) (hr : h.runtimes[rt]? = some r)
    (hs : r.status = .held) (hidle : r.isIdle = true) : Drops rt h (h.release rt) := by
  obtain ⟨hleaving, -⟩ := Runtime.isIdle_iff.mp hidle
  have hletGo : r.letGo = { r with status := .released } := if_pos (by simp [hs])
  have hr₀ : (h.editRuntime rt Runtime.letGo).runtimes[rt]? = some { r with status := .released } := by
    rw [← hletGo]
    exact modify_eq_some.mpr ⟨r, hr, (if_pos rfl).symm⟩
  obtain ⟨h₁, hwd, els, ecs, eos⟩ := endIfIdle_due hr₀ ⟨rfl, hidle⟩
  refine ⟨fun t l => ?_, fun c t => ?_, fun o => ?_⟩
  · show ((h.editRuntime rt Runtime.letGo).endIfIdle rt).page.listeners.Stands t l ↔ _
    rw [els, (hwd.listeners hb.listeners.sound).stands, Bool.not_eq_true', ← Bool.not_eq_true]
    exact and_congr_right fun hl => not_congr (registered_listener hb hr hl)
  · show t ∈ (clockAt ((h.editRuntime rt Runtime.letGo).endIfIdle rt).clocks c).timers ↔ _
    rw [ecs, hwd.clock]
    split
    · rename_i hc
      subst hc
      rw [List.mem_filter, Bool.not_eq_true', ← Bool.not_eq_true]
      exact and_congr_right fun ht => not_congr (armed_timer hb hr hleaving ht)
    · rename_i hc
      refine (and_iff_left_of_imp fun ht ⟨id, e, ha⟩ => hc ?_).symm
      obtain ⟨b, -, ⟨r', hr', hclock⟩, -⟩ := hb.timers.backed ht ha
      cases hr.symm.trans hr'
      exact hclock.symm
  · show o ∈ ((h.editRuntime rt Runtime.letGo).endIfIdle rt).page.observers ↔ _
    rw [eos, List.mem_filter, bne_iff_ne]
    refine and_congr_right fun ho => not_congr ⟨fun e => ?_, fun e => ?_⟩
    · exact hw.unique (e ▸ ho) (hw.told hr (by rw [hs]; decide))
    · obtain ⟨id, o⟩ := o
      cases e
      obtain ⟨r', hr', he, -⟩ := hu id rt ho
      cases hr.symm.trans hr'
      exact he.symm

/-- After a session that comes back, nothing of what a runtime registered for its bindings is
    left if its handle is gone. If it is held, dropping the handle takes just that. -/
theorem session_dropped (depth : Nat) (as : List Action) (url : String) (globals : Globals) (scopes : List Value)
    (h : Host) (e : (play depth as (.new url globals scopes) []).1 = some h) (rt : Nat) (r : Runtime Script)
    (hr : h.runtimes[rt]? = some r) :
    (r.status ≠ .held → Cleared rt h) ∧ (r.status = .held → Cleared rt (h.release rt) ∧ Drops rt h (h.release rt)) := by
  have hb : Books (fun _ => False) h := session_books (fun m _ => fair_nobody m) e
  have hw : Watched h := session_lasts lasts_watched (watched_new url globals scopes) e
  have hu : Unwatched h := session_unwatched e
  obtain ⟨hbindings, hleaving, hstatus⟩ := session_idle e hr
  have hidle : r.isIdle = true := Runtime.isIdle_iff.mpr ⟨hleaving, hbindings⟩
  refine ⟨fun hs => cleared_of_ended hb hu hr (hstatus.resolve_left hs),
    fun hs => ⟨?_, drops_release hb hw hu hr hs hidle⟩⟩
  have hu' : Unwatched (h.release rt) := (lasts_unwatched []).strokes (strokes_release h rt) hu
  have hgone : r.letGo.settled.status = .ended := by
    have hdue : r.letGo.Due := by
      rw [Runtime.letGo, if_pos (by simp [hs])]
      exact ⟨rfl, hidle⟩
    rcases r.letGo.settled_cases with ⟨-, e⟩ | ⟨hn, -⟩
    · rw [e]
    · exact absurd hdue hn
  refine cleared_of_ended (goes_release hb rt).books hu' ?_ hgone
  rw [(release_row h rt).2]
  exact modify_eq_some.mpr ⟨r, hr, (if_pos rfl).symm⟩

/-- A runtime with a tracker of its own and one `.outside` binding. -/
def boundOutside : List Action :=
  [.newRuntime ⟨none, false, none, .custom fun _ _ => .done (.ok .undefined)⟩,
    .bindDirective 0 3 ⟨"x-on:click.outside", "click", [.outside], "open = false"⟩ 0]

/-- The handle may be dropped; and when it was, nothing of the binding is left. -/
theorem boundOutside_dropped :
    (∃ h r, (play 3 boundOutside (.new "" .browser []) []).1 = some h ∧ h.runtimes[0]? = some r ∧ r.status = .held ∧
      Drops 0 h (h.release 0)) ∧
    ∃ h r, (play 3 (boundOutside ++ [.dropRuntime 0]) (.new "" .browser []) []).1 = some h ∧ h.runtimes[0]? = some r ∧
      r.status ≠ .held ∧ Cleared 0 h := by
  constructor
  · refine ⟨_, _, rfl, rfl, rfl, ?_⟩
    exact ((session_dropped 3 boundOutside "" .browser [] _ rfl 0 _ rfl).2 rfl).2
  · refine ⟨_, _, rfl, rfl, by decide, ?_⟩
    exact (session_dropped 3 (boundOutside ++ [.dropRuntime 0]) "" .browser [] _ rfl 0 _ rfl).1 (by decide)

/-- The tracker was the runtime's own, and still listens. -/
theorem ownTracker_left : ∃ h r t l, (play 3 (boundOutside ++ [.dropRuntime 0]) (.new "" .browser []) []).1 = some h ∧
    h.runtimes[0]? = some r ∧ r.ownsTracker = true ∧ r.status = .ended ∧ h.page.listeners.Stands t l ∧
    l.action = .tracker r.tracker :=
  ⟨_, _, .document, _, rfl, rfl, rfl, rfl, List.mem_of_getElem? (i := 0) rfl, rfl⟩

end Eventful.Host
