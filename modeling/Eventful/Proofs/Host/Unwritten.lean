import Eventful.Host.Run
import Eventful.Proofs.Host.Withdrawing

/-
  Eventful.Proofs.Host.Unwritten — what leaves the scopes and the tree of a host as they are.

  Scopes are changed by writes and by subscriptions, the tree by edits of its nodes.
  Listeners, timers, trackers, runtimes and debouncers are changed beside them (`Beside`).
-/

namespace Eventful.Host

open Page Binding

variable {h h' h'' : Host} {rt : Nat}

/-- Neither a scope nor the tree is changed. -/
structure Beside (h h' : Host) : Prop where
  scopes : h'.scopes = h.scopes
  tree : h'.page.tree = h.page.tree

theorem Beside.rfl (h : Host) : Beside h h := ⟨Eq.refl _, Eq.refl _⟩

theorem Beside.trans (hb : Beside h h') (hb' : Beside h' h'') : Beside h h'' :=
  ⟨hb'.scopes.trans hb.scopes, hb'.tree.trans hb.tree⟩

theorem beside_cancelWaiting (h : Host) (c : Nat) (w : Option Nat) : Beside h (h.cancelWaiting c w).2 := by
  cases w <;> exact ⟨rfl, rfl⟩

theorem beside_register (h : Host) (k : Nat) (w : Entry Waiter) : Beside h (h.register k w) := by
  unfold register
  dsimp only
  split <;> exact ⟨rfl, rfl⟩

theorem beside_resetTracker (h : Host) (k : Nat) : Beside h (h.resetTracker k) := by
  have hfold : ∀ (es : List (String × Nat)) (h : Host), Beside h (es.foldl (fun h e => (h.unlisten e.2).2) h) := by
    intro es
    induction es with
    | nil => exact Beside.rfl
    | cons e es ih => exact fun h => (⟨rfl, rfl⟩ : Beside h (h.unlisten e.2).2).trans (ih _)
  exact (hfold _ h).trans ⟨rfl, rfl⟩

/-! ## Runtimes -/

theorem beside_withdrawn {r : Runtime Script} {bs : List Bound} (hw : Withdrawn r bs h h') : Beside h h' := by
  obtain ⟨ls, ts, cs, e⟩ := hw.shape
  rw [e]
  exact ⟨rfl, rfl⟩

theorem beside_unbind (h : Host) (rt id : Nat) : Beside h (h.unbind rt id).2 := by
  unfold unbind
  split
  · exact .rfl h
  · exact (⟨rfl, rfl⟩ : Beside h (h.editRuntime rt _)).trans (beside_withdrawn (withdrawn_one _ _ _))

theorem beside_unbindAll (h : Host) (rt : Nat) (ids : List Nat) : Beside h (h.unbindAll rt ids) := by
  induction ids generalizing h with
  | nil => exact .rfl h
  | cons id ids ih => exact (beside_unbind h rt id).trans (ih _)

theorem beside_endEvaluation (h : Host) (rt id : Nat) : Beside h (h.endEvaluation rt id) := by
  have hcount : Beside h (h.editRuntime rt (·.edit id fun b => { b with running := b.running - 1 })) := ⟨rfl, rfl⟩
  unfold endEvaluation
  dsimp only
  split
  · exact hcount
  · exact (hcount.trans (beside_cancelWaiting _ _ _)).trans ⟨rfl, rfl⟩

theorem beside_endIfIdle (h : Host) (rt : Nat) : Beside h (h.endIfIdle rt) := by
  unfold endIfIdle
  split
  · exact .rfl h
  · rename_i r _
    split
    · refine (beside_withdrawn (withdrawn_foldl r r.bindings h)).trans ?_
      dsimp only
      split <;> exact ⟨rfl, rfl⟩
    · exact .rfl h

theorem beside_release (h : Host) (rt : Nat) : Beside h (h.release rt) :=
  (⟨rfl, rfl⟩ : Beside h (h.editRuntime rt _)).trans (beside_endIfIdle _ rt)

theorem beside_addRuntime (h : Host) (config : Directive.Config) (s : Setup) : Beside h (h.addRuntime config s).2 := by
  unfold addRuntime
  dsimp only
  split <;> split <;> exact ⟨rfl, rfl⟩

theorem beside_bind {n : NodeId} {d : Directive} {scope id : Nat} (e : h.bind rt n d scope = .ok (id, h')) :
    Beside h h' := by
  unfold Host.bind at e
  split at e
  · cases e
  · split at e
    · cases e
    · split at e
      · cases e
      · dsimp only at e
        split at e
        · cases e
        · split at e <;> cases e
          · exact (beside_register _ _ _).trans ⟨rfl, rfl⟩
          · exact ⟨rfl, rfl⟩

theorem beside_bindAttr {n : NodeId} {attr expression : String} {scope id : Nat}
    (e : h.bindAttr rt n attr expression scope = .ok (id, h')) : Beside h h' := by
  unfold bindAttr at e
  split at e
  · cases e
  · split at e
    · cases e
    · exact beside_bind e

theorem beside_bindEach (rt : Nat) (n : NodeId) (scope : Nat) (bound : List Nat) (as : List (String × String))
    (h : Host) : Beside h (h.bindEach rt n scope bound as).2 := by
  induction as generalizing bound h with
  | nil => exact .rfl h
  | cons a as ih =>
    unfold bindEach
    split
    · rename_i e
      exact (beside_bindAttr e).trans (ih _ _)
    · exact beside_unbindAll h rt bound

theorem beside_bindAttrs (h : Host) (rt : Nat) (n : NodeId) (scope : Nat) : Beside h (h.bindAttrs rt n scope).2 := by
  unfold bindAttrs
  split
  · exact beside_bindEach _ _ _ _ _ _
  · exact .rfl h

theorem beside_resetOutside (h : Host) (rt : Nat) : Beside h (h.resetOutside rt) := by
  unfold resetOutside
  split
  · exact .rfl h
  · exact (beside_unbindAll _ _ _).trans (beside_resetTracker _ _)

theorem beside_arm (h : Host) (rt id wait : Nat) (e : Event) : Beside h (h.arm rt id wait e) := by
  unfold arm
  split
  · exact .rfl h
  · exact (beside_cancelWaiting _ _ _).trans ⟨rfl, rfl⟩

/-! ## Debouncers -/

theorem beside_schedule (h : Host) (d : Nat) (e : Event) (s : Script) : Beside h (h.schedule d e s) := by
  unfold schedule
  split
  · exact .rfl h
  · exact (beside_cancelWaiting _ _ _).trans ⟨rfl, rfl⟩

theorem beside_stopWaiting (h : Host) (d : Nat) : Beside h (h.stopWaiting d).2 := by
  unfold stopWaiting
  split
  · exact .rfl h
  · exact (beside_cancelWaiting _ _ _).trans ⟨rfl, rfl⟩

theorem beside_cancelDebouncer (h : Host) (d : Nat) : Beside h (h.cancelDebouncer d).2 := by
  unfold cancelDebouncer
  split
  · exact beside_stopWaiting h d
  · exact .rfl h

theorem beside_settleDebouncer (h : Host) (d : Nat) : Beside h (h.settleDebouncer d) := by
  unfold settleDebouncer
  split
  · exact beside_stopWaiting h d
  · exact .rfl h

end Eventful.Host
