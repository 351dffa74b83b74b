import Eventful.Host.Run
import Eventful.Proofs.Host.Withdrawing
import Mathlib.Logic.Relation

/-
  Eventful.Proofs.Host.Strokes — how the clocks and the observers of a host are changed.

  Whatever a host does to itself between two callbacks, it does to its clocks, its removal
  observers and its runtimes in a few ways (`Stroke`). Every edit is a course of strokes,
  so what all strokes keep is kept by every edit.
-/

namespace Eventful.Host

open Page Binding

variable {α : Type} {h h' h'' : Host} {rt : Nat}

/-- The clocks, the observers and the runtimes stay as they are. -/
structure Aside (h h' : Host) : Prop where
  clocks : h'.clocks = h.clocks
  observers : h'.page.observers = h.page.observers
  lastObserver : h'.page.lastObserver = h.page.lastObserver
  scripts : h'.observers = h.observers
  runtimes : h'.runtimes = h.runtimes

/-- An edit that ends no runtime, starts none anew, and leaves it its observer. -/
def Mild (f : Runtime Script → Runtime Script) : Prop :=
  ∀ r, (f r).observer = r.observer ∧ ((f r).status = .ended ↔ r.status = .ended)

/-- A runtime is made: it is told of removals from the start. -/
def enrol (h : Host) (r : Runtime Script) : Host :=
  { h with page := (h.page.observe (.runtime h.runtimes.length)).2, runtimes := h.runtimes ++ [r] }

/-- A runtime ends: it is told of removals no longer. -/
def conclude (h : Host) (rt : Nat) (r : Runtime Script) : Host :=
  { h with page := (h.page.disconnect r.observer).2 }.editRuntime rt fun r =>
    { r with status := .ended, bindings := [], hooks := [] }

inductive Stroke : Host → Host → Prop
  | aside {h h' : Host} : Aside h h' → Stroke h h'
  | start (h : Host) (c delay : Nat) (a : Alarm) : Stroke h (h.startTimer c delay a).2
  | cancel (h : Host) (c id : Nat) : Stroke h (h.cancelTimer c id).2
  | clock (h : Host) : Stroke h { h with clocks := h.clocks ++ [.new] }
  | observe (h : Host) (s : Script) :
    Stroke h { h with
      page := (h.page.observe (.script s)).2, observers := h.observers ++ [(h.page.observe (.script s)).1] }
  | disconnect {h : Host} {id : Nat} : id ∈ h.observers → Stroke h { h with page := (h.page.disconnect id).2 }
  | runtime (h : Host) (rt : Nat) {f : Runtime Script → Runtime Script} : Mild f → Stroke h (h.editRuntime rt f)
  | enrol (h : Host) {r : Runtime Script} : r.observer = (h.page.observe (.runtime h.runtimes.length)).1 →
    r.status = .held → Stroke h (h.enrol r)
  | conclude {h : Host} {rt : Nat} {r : Runtime Script} : h.runtimes[rt]? = some r → r.status ≠ .ended →
    Stroke h (h.conclude rt r)

/-- A course of strokes. -/
abbrev Strokes : Host → Host → Prop := Relation.ReflTransGen Stroke

theorem Strokes.rfl (h : Host) : Strokes h h := .refl

theorem Stroke.one (hs : Stroke h h') : Strokes h h' := .single hs

theorem strokes_aside (clocks : h'.clocks = h.clocks) (observers : h'.page.observers = h.page.observers)
    (lastObserver : h'.page.lastObserver = h.page.lastObserver) (scripts : h'.observers = h.observers)
    (runtimes : h'.runtimes = h.runtimes) : Strokes h h' :=
  (Stroke.aside ⟨clocks, observers, lastObserver, scripts, runtimes⟩).one

theorem strokes_foldl {f : Host → α → Host} (hf : ∀ h a, Strokes h (f h a)) (as : List α) (h : Host) :
    Strokes h (as.foldl f h) := by
  induction as generalizing h with
  | nil => exact .rfl h
  | cons a as ih => exact (hf h a).trans (ih (f h a))

/-! ## Listeners, timers and trackers -/

theorem strokes_unlisten (h : Host) (id : Nat) : Strokes h (h.unlisten id).2 := strokes_aside rfl rfl rfl rfl rfl

theorem strokes_setTracker (h : Host) (k : Nat) (t : Tracker Waiter) : Strokes h (h.setTracker k t) :=
  strokes_aside rfl rfl rfl rfl rfl

theorem strokes_cancelWaiting (h : Host) (c : Nat) (w : Option Nat) : Strokes h (h.cancelWaiting c w).2 := by
  cases w with
  | none => exact .rfl h
  | some id => exact (Stroke.cancel h c id).one

theorem strokes_register (h : Host) (k : Nat) (w : Entry Waiter) : Strokes h (h.register k w) := by
  unfold register
  dsimp only
  split <;> exact strokes_aside rfl rfl rfl rfl rfl

theorem strokes_resetTracker (h : Host) (k : Nat) : Strokes h (h.resetTracker k) := by
  have hfold := strokes_foldl (fun h (e : String × Nat) => strokes_unlisten h e.2) (h.tracker k).installed h
  exact hfold.trans (strokes_setTracker _ _ _)

/-! ## Runtimes -/

theorem strokes_editRuntime (h : Host) (rt : Nat) {f : Runtime Script → Runtime Script} (hf : Mild f) :
    Strokes h (h.editRuntime rt f) := (Stroke.runtime h rt hf).one

theorem mild_edit (id : Nat) (f : Bound → Bound) : Mild (·.edit id f) := fun _ => ⟨rfl, Iff.rfl⟩

theorem mild_without (id : Nat) : Mild (·.without id) := fun _ => ⟨rfl, Iff.rfl⟩

theorem mild_forget (id : Nat) : Mild (·.forget id) := fun _ => ⟨rfl, Iff.rfl⟩

theorem mild_release : Mild fun r => if r.status == .held then { r with status := .released } else r := by
  intro r
  by_cases hs : r.status = .held
  · simp [hs]
  · simp [hs]

theorem strokes_withdraw (h : Host) (r : Runtime Script) (b : Bound) : Strokes h (h.withdraw r b) := by
  have hentry : ∀ h₁ : Host, Strokes h₁
      (if b.plan.isOutside then h₁.setTracker r.tracker ((h₁.tracker r.tracker).unregister b.id).2 else h₁) := by
    intro h₁
    split
    · exact strokes_setTracker _ _ _
    · exact .rfl h₁
  unfold withdraw
  cases b.listener with
  | none => exact (hentry h).trans (strokes_cancelWaiting _ _ _)
  | some l => exact ((strokes_unlisten h l).trans (hentry _)).trans (strokes_cancelWaiting _ _ _)

theorem strokes_unbind (h : Host) (rt id : Nat) : Strokes h (h.unbind rt id).2 := by
  unfold unbind
  split
  · exact .rfl h
  · exact (strokes_editRuntime h rt (mild_without id)).trans (strokes_withdraw _ _ _)

theorem strokes_unbindAll (h : Host) (rt : Nat) (ids : List Nat) : Strokes h (h.unbindAll rt ids) :=
  strokes_foldl (fun h id => strokes_unbind h rt id) ids h

theorem strokes_endEvaluation (h : Host) (rt id : Nat) : Strokes h (h.endEvaluation rt id) := by
  have hcount := strokes_editRuntime h rt (mild_edit id fun b => { b with running := b.running - 1 })
  unfold endEvaluation
  dsimp only
  split
  · exact hcount
  · exact (hcount.trans (strokes_cancelWaiting _ _ _)).trans (strokes_editRuntime _ rt (mild_forget id))

theorem strokes_endIfIdle (h : Host) (rt : Nat) : Strokes h (h.endIfIdle rt) := by
  unfold endIfIdle
  split
  · exact .rfl h
  · rename_i r hr
    split
    · rename_i hidle
      have hreleased : r.status = .released := by
        have := Bool.and_eq_true _ _ |>.mp hidle
        exact beq_iff_eq.mp this.1
      -- Taking back what the bindings registered leaves the runtime in its row.
      have hw := withdrawn_foldl r r.bindings h
      obtain ⟨ls, ts, cs, e⟩ := hw.shape
      refine (strokes_foldl (fun h b => strokes_withdraw h r b) r.bindings h).trans ?_
      generalize r.bindings.foldl (fun h b => h.withdraw r b) h = h₁ at e ⊢
      have hr₁ : h₁.runtimes[rt]? = some r := by rw [e]; exact hr
      have hend := (Stroke.conclude hr₁ (by rw [hreleased]; decide)).one
      dsimp only
      split
      · exact hend.trans (strokes_aside rfl rfl rfl rfl rfl)
      · exact hend
    · exact .rfl h

theorem strokes_release (h : Host) (rt : Nat) : Strokes h (h.release rt) :=
  (strokes_editRuntime h rt mild_release).trans (strokes_endIfIdle _ rt)

theorem strokes_addRuntime (h : Host) (config : Directive.Config) (s : Setup) : Strokes h (h.addRuntime config s).2 := by
  -- A clock first, if the runtime has its own; then a tracker; then the runtime.
  have htracker : ∀ h₁ : Host, Strokes h₁ { h₁ with trackers := h₁.trackers ++ [.empty] } := fun _ =>
    strokes_aside rfl rfl rfl rfl rfl
  unfold addRuntime
  dsimp only
  split <;> split
  · exact (Stroke.clock h).one.trans (Stroke.enrol _ rfl rfl).one
  · exact (Stroke.enrol h rfl rfl).one
  · exact ((Stroke.clock h).one.trans (htracker _)).trans (Stroke.enrol _ rfl rfl).one
  · exact (htracker h).trans (Stroke.enrol _ rfl rfl).one

theorem strokes_bind {n : NodeId} {d : Directive} {scope id : Nat} (e : h.bind rt n d scope = .ok (id, h')) :
    Strokes h h' := by
  have hmild : ∀ b : Bound, Mild fun r => { r with bindings := r.bindings ++ [b], lastId := b.id } := fun _ _ =>
    ⟨rfl, Iff.rfl⟩
  unfold Host.bind at e
  split at e
  · cases e
  · split at e
    · cases e
    · split at e
      · cases e
      · dsimp only at e
        split at e
        · cases e
        · split at e <;> cases e
          · exact (strokes_register _ _ _).trans (strokes_editRuntime _ _ (hmild _))
          · exact (strokes_aside rfl rfl rfl rfl rfl : Strokes h (h.listen _ _ _ _).2).trans
              (strokes_editRuntime _ _ (hmild _))

theorem strokes_bindAttr {n : NodeId} {attr expression : String} {scope id : Nat}
    (e : h.bindAttr rt n attr expression scope = .ok (id, h')) : Strokes h h' := by
  unfold bindAttr at e
  split at e
  · cases e
  · split at e
    · cases e
    · exact strokes_bind e

theorem strokes_bindEach (rt : Nat) (n : NodeId) (scope : Nat) (bound : List Nat) (as : List (String × String))
    (h : Host) : Strokes h (h.bindEach rt n scope bound as).2 := by
  induction as generalizing bound h with
  | nil => exact .rfl h
  | cons a as ih =>
    unfold bindEach
    split
    · rename_i e
      exact (strokes_bindAttr e).trans (ih _ _)
    · exact strokes_unbindAll h rt bound

theorem strokes_bindAttrs (h : Host) (rt : Nat) (n : NodeId) (scope : Nat) : Strokes h (h.bindAttrs rt n scope).2 := by
  unfold bindAttrs
  split
  · exact strokes_bindEach _ _ _ _ _ _
  · exact .rfl h

theorem strokes_resetOutside (h : Host) (rt : Nat) : Strokes h (h.resetOutside rt) := by
  unfold resetOutside
  split
  · exact .rfl h
  · exact (strokes_unbindAll _ _ _).trans (strokes_resetTracker _ _)

/-- A timer starts for a binding that waits. -/
theorem strokes_arm (h : Host) (rt id wait : Nat) (e : Event) : Strokes h (h.arm rt id wait e) := by
  unfold arm
  split
  · exact .rfl h
  · exact ((strokes_cancelWaiting _ _ _).trans (Stroke.start _ _ _ _).one).trans
      (strokes_editRuntime _ rt (mild_edit id _))

/-! ## Debouncers -/

theorem strokes_editDebouncer (h : Host) (d : Nat) (f : Debouncer → Debouncer) : Strokes h (h.editDebouncer d f) :=
  strokes_aside rfl rfl rfl rfl rfl

theorem strokes_schedule (h : Host) (d : Nat) (e : Event) (s : Script) : Strokes h (h.schedule d e s) := by
  unfold schedule
  split
  · exact .rfl h
  · exact ((strokes_cancelWaiting _ _ _).trans (Stroke.start _ _ _ _).one).trans (strokes_editDebouncer _ d _)

theorem strokes_stopWaiting (h : Host) (d : Nat) : Strokes h (h.stopWaiting d).2 := by
  unfold stopWaiting
  split
  · exact .rfl h
  · exact (strokes_cancelWaiting _ _ _).trans (strokes_editDebouncer _ d _)

theorem strokes_cancelDebouncer (h : Host) (d : Nat) : Strokes h (h.cancelDebouncer d).2 := by
  unfold cancelDebouncer
  split
  · exact strokes_stopWaiting h d
  · exact .rfl h

theorem strokes_settleDebouncer (h : Host) (d : Nat) : Strokes h (h.settleDebouncer d) := by
  unfold settleDebouncer
  split
  · exact strokes_stopWaiting h d
  · exact .rfl h

theorem strokes_settleEdited (h : Host) (d : Nat) (f : Debouncer → Debouncer) :
    Strokes h ((h.editDebouncer d f).settleDebouncer d) :=
  (strokes_editDebouncer h d f).trans (strokes_settleDebouncer _ d)

end Eventful.Host
