import Eventful.Proofs.Host.Onward
import Eventful.Proofs.Page.Reached

/-
  Eventful.Proofs.Host.Tidy — edits of a host that leave its page in order.

  A page is in order if its tree is one that edits come to and its listeners are sound.
  Every edit of a host keeps it so, and gives no listener an id that another one had. That
  holds edit by edit, whatever else the host keeps.
-/

namespace Eventful.Host

open Page Binding

variable {α : Type} {h h' h'' : Host} {rt : Nat}

structure Tidy (h h' : Host) : Prop where
  tree : h.page.tree.Reached → h'.page.tree.Reached
  listeners : h.page.listeners.Sound → h'.page.listeners.Sound
  later : h.page.listeners.Sound → ListenersLater h.page.listeners h'.page.listeners

theorem Tidy.rfl (h : Host) : Tidy h h := ⟨id, id, fun _ => .rfl _⟩

theorem Tidy.trans (h₁ : Tidy h h') (h₂ : Tidy h' h'') : Tidy h h'' where
  tree ht := h₂.tree (h₁.tree ht)
  listeners hl := h₂.listeners (h₁.listeners hl)
  later hl := (h₁.later hl).trans (h₂.later (h₁.listeners hl))

/-- An edit beside the page. -/
theorem tidy_frame (tree : h'.page.tree = h.page.tree) (listeners : h'.page.listeners = h.page.listeners) :
    Tidy h h' where
  tree ht := tree ▸ ht
  listeners hl := listeners ▸ hl
  later _ := listeners ▸ .rfl _

/-- An edit of the tree. -/
theorem tidy_setTree {t : Tree} (ht : h.page.tree.Reached → t.Reached) : Tidy h (h.setTree t) := ⟨ht, id, fun _ => .rfl _⟩

theorem tidy_listen (h : Host) (t : Target) (event : String) (o : Options) (r : Reaction) :
    Tidy h (h.listen t event o r).2 :=
  ⟨id, fun hl => Listeners.sound_add hl t event o r, fun _ => later_add _ t event o r⟩

theorem tidy_unlisten (h : Host) (id : Nat) : Tidy h (h.unlisten id).2 :=
  ⟨fun ht => ht, fun hl => Listeners.sound_remove hl id, fun hl => later_filtered (Listeners.filtered_remove hl id)⟩

/-- A fold of tidy steps. -/
theorem tidy_foldl {f : Host → α → Host} (hf : ∀ h a, Tidy h (f h a)) (as : List α) (h : Host) :
    Tidy h (as.foldl f h) := by
  induction as generalizing h with
  | nil => exact .rfl h
  | cons a as ih => exact (hf h a).trans (ih (f h a))

/-! ## Timers and trackers -/

theorem tidy_cancelWaiting (h : Host) (c : Nat) (id : Option Nat) : Tidy h (h.cancelWaiting c id).2 := by
  cases id <;> exact tidy_frame rfl rfl

theorem tidy_register (h : Host) (k : Nat) (w : Entry Waiter) : Tidy h (h.register k w) := by
  unfold register
  dsimp only
  split
  · exact tidy_frame rfl rfl
  · exact (tidy_listen h .document w.event ⟨true, false, false⟩ (.tracker k)).trans (tidy_frame rfl rfl)

theorem tidy_resetTracker (h : Host) (k : Nat) : Tidy h (h.resetTracker k) := by
  have hfold := tidy_foldl (fun h (e : String × Nat) => tidy_unlisten h e.2) (h.tracker k).installed h
  exact hfold.trans (tidy_frame rfl rfl)

/-! ## Runtimes -/

theorem tidy_withdraw (h : Host) (r : Runtime Script) (b : Bound) : Tidy h (h.withdraw r b) := by
  have hentry : ∀ h₁ : Host, Tidy h₁
      (if b.plan.isOutside then h₁.setTracker r.tracker ((h₁.tracker r.tracker).unregister b.id).2 else h₁) := by
    intro h₁
    split
    · exact tidy_frame rfl rfl
    · exact .rfl h₁
  unfold withdraw
  cases b.listener with
  | none => exact (hentry h).trans (tidy_cancelWaiting _ _ _)
  | some l => exact (tidy_unlisten h l).trans ((hentry _).trans (tidy_cancelWaiting _ _ _))

theorem tidy_unbind (h : Host) (rt id : Nat) : Tidy h (h.unbind rt id).2 := by
  unfold unbind
  split
  · exact .rfl h
  · exact (tidy_frame rfl rfl : Tidy h (h.editRuntime rt _)).trans (tidy_withdraw _ _ _)

theorem tidy_unbindAll (h : Host) (rt : Nat) (ids : List Nat) : Tidy h (h.unbindAll rt ids) :=
  tidy_foldl (fun h id => tidy_unbind h rt id) ids h

theorem tidy_endEvaluation (h : Host) (rt id : Nat) : Tidy h (h.endEvaluation rt id) := by
  have hcount : Tidy h (h.editRuntime rt (·.edit id fun b => { b with running := b.running - 1 })) :=
    tidy_frame rfl rfl
  unfold endEvaluation
  dsimp only
  split
  · exact hcount
  · exact (hcount.trans (tidy_cancelWaiting _ _ _)).trans (tidy_frame rfl rfl)

theorem tidy_endIfIdle (h : Host) (rt : Nat) : Tidy h (h.endIfIdle rt) := by
  unfold endIfIdle
  split
  · exact .rfl h
  · rename_i r _
    split
    · refine (tidy_foldl (fun h b => tidy_withdraw h r b) r.bindings h).trans ?_
      dsimp only
      split <;> exact tidy_frame rfl rfl
    · exact .rfl h

theorem tidy_release (h : Host) (rt : Nat) : Tidy h (h.release rt) :=
  (tidy_frame rfl rfl : Tidy h (h.editRuntime rt _)).trans (tidy_endIfIdle _ rt)

theorem tidy_addRuntime (h : Host) (config : Directive.Config) (s : Setup) : Tidy h (h.addRuntime config s).2 := by
  unfold addRuntime
  dsimp only
  split <;> split <;> exact tidy_frame rfl rfl

theorem tidy_bind {n : NodeId} {d : Directive} {scope id : Nat} (e : h.bind rt n d scope = .ok (id, h')) :
    Tidy h h' := by
  unfold Host.bind at e
  split at e
  · cases e
  · split at e
    · cases e
    · split at e
      · cases e
      · dsimp only at e
        split at e
        · cases e
        · split at e <;> cases e
          · exact (tidy_register _ _ _).trans (tidy_frame rfl rfl)
          · exact (tidy_listen _ _ _ _ _).trans (tidy_frame rfl rfl)

theorem tidy_bindAttr {n : NodeId} {attr expression : String} {scope id : Nat}
    (e : h.bindAttr rt n attr expression scope = .ok (id, h')) : Tidy h h' := by
  unfold bindAttr at e
  split at e
  · cases e
  · split at e
    · cases e
    · exact tidy_bind e

theorem tidy_bindEach (rt : Nat) (n : NodeId) (scope : Nat) (bound : List Nat) (as : List (String × String)) (h : Host) :
    Tidy h (h.bindEach rt n scope bound as).2 := by
  induction as generalizing bound h with
  | nil => exact .rfl h
  | cons a as ih =>
    unfold bindEach
    split
    · rename_i e
      exact (tidy_bindAttr e).trans (ih _ _)
    · exact tidy_unbindAll h rt bound

theorem tidy_bindAttrs (h : Host) (rt : Nat) (n : NodeId) (scope : Nat) : Tidy h (h.bindAttrs rt n scope).2 := by
  unfold bindAttrs
  split
  · exact tidy_bindEach _ _ _ _ _ _
  · exact .rfl h

theorem tidy_resetOutside (h : Host) (rt : Nat) : Tidy h (h.resetOutside rt) := by
  unfold resetOutside
  split
  · exact .rfl h
  · exact (tidy_unbindAll _ _ _).trans (tidy_resetTracker _ _)

/-! ## Debouncers -/

theorem tidy_schedule (h : Host) (d : Nat) (e : Event) (s : Script) : Tidy h (h.schedule d e s) := by
  unfold schedule
  split
  · exact .rfl h
  · exact (tidy_cancelWaiting _ _ _).trans (tidy_frame rfl rfl)

theorem tidy_stopWaiting (h : Host) (d : Nat) : Tidy h (h.stopWaiting d).2 := by
  unfold stopWaiting
  split
  · exact .rfl h
  · exact (tidy_cancelWaiting _ _ _).trans (tidy_frame rfl rfl)

theorem tidy_cancelDebouncer (h : Host) (d : Nat) : Tidy h (h.cancelDebouncer d).2 := by
  unfold cancelDebouncer
  split
  · exact tidy_stopWaiting h d
  · exact .rfl h

theorem tidy_settleDebouncer (h : Host) (d : Nat) : Tidy h (h.settleDebouncer d) := by
  unfold settleDebouncer
  split
  · exact tidy_stopWaiting h d
  · exact .rfl h

theorem tidy_settleEdited (h : Host) (d : Nat) (f : Debouncer → Debouncer) :
    Tidy h ((h.editDebouncer d f).settleDebouncer d) :=
  (tidy_frame rfl rfl : Tidy h (h.editDebouncer d f)).trans (tidy_settleDebouncer _ d)

end Eventful.Host
