import Eventful.Host.Run

/-
  Eventful.Proofs.Host.Recast — hosts with other evaluators.

  Which evaluators the runtimes have, and what the log holds, is nobody's business but the
  evaluation's: every edit of a host with other evaluators (`recast`) is the edit of the
  host, with other evaluators. So one lemma beside each edit.
-/

namespace Eventful.Binding

/-- The runtime with another evaluator. -/
def Runtime.recast {κ : Type} (c : Evaluator → Evaluator) (r : Runtime κ) : Runtime κ :=
  { r with evaluator := c r.evaluator }

end Eventful.Binding

namespace Eventful.Host

open Page Binding

/-- The host with other evaluators and without a log. -/
def recast (c : Evaluator → Evaluator) (h : Host) : Host :=
  { h with runtimes := h.runtimes.map (Runtime.recast c), log := [] }

variable (c : Evaluator → Evaluator) (h : Host) (rt id : Nat)

/-! ## Reading -/

@[simp] theorem recast_runtime? : (h.recast c).runtime? rt = (h.runtime? rt).map (Runtime.recast c) := List.getElem?_map

@[simp] theorem recast_held? : (h.recast c).held? rt = (h.held? rt).map (Runtime.recast c) := by
  unfold held?
  rw [recast_runtime?]
  cases h.runtime? rt with
  | none => rfl
  | some r =>
    simp only [Option.map_some, Option.filter_some, Runtime.recast]
    split <;> rfl

@[simp] theorem recast_alive? : (h.recast c).alive? rt = (h.alive? rt).map (Runtime.recast c) := by
  unfold alive?
  rw [recast_runtime?]
  cases h.runtime? rt with
  | none => rfl
  | some r =>
    simp only [Option.map_some, Option.filter_some, Runtime.recast]
    split <;> rfl

@[simp] theorem recast_live? : live? (h.recast c) rt id = (live? h rt id).map fun (r, b) => (r.recast c, b) := by
  unfold live?
  rw [recast_alive?]
  cases h.alive? rt with
  | none => rfl
  | some r =>
    have hreachable : (r.recast c).reachable? id = r.reachable? id := rfl
    simp only [Option.map_some, Option.bind_some, hreachable, Option.map_map]
    rfl

@[simp] theorem recast_clockOf (k : ClockOf) : (h.recast c).clockOf k = h.clockOf k := by
  cases k with
  | none => rfl
  | some rt =>
    simp only [clockOf, recast_runtime?, Option.map_map]
    rfl

@[simp] theorem recast_trackerOf? (t : TrackerOf) : (h.recast c).trackerOf? t = h.trackerOf? t := by
  cases t with
  | shared i => rfl
  | runtime rt =>
    simp only [trackerOf?, recast_held?, Option.map_map]
    rfl

@[simp] theorem recast_subject (s : Subject) : subject (h.recast c) s = subject h s := by
  cases s with
  | clock k =>
    unfold subject
    dsimp only
    rw [recast_clockOf]
    rfl
  | runtime rt =>
    unfold subject
    dsimp only
    rw [recast_held?]
    cases h.held? rt <;> rfl
  | _ => rfl

/-! ## Editing -/

theorem recast_editRuntime (f : Runtime Script → Runtime Script) (hf : ∀ r, f (r.recast c) = (f r).recast c) :
    (h.recast c).editRuntime rt f = (h.editRuntime rt f).recast c := by
  have hmodify : (h.runtimes.map (Runtime.recast c)).modify rt f = (h.runtimes.modify rt f).map (Runtime.recast c) := by
    refine List.ext_getElem? fun i => ?_
    rw [List.getElem?_modify, List.getElem?_map, List.getElem?_map, List.getElem?_modify]
    cases h.runtimes[i]? with
    | none => rfl
    | some r => by_cases hi : rt = i <;> simp [hi, hf]
  unfold editRuntime
  exact congrArg (fun rs => ({ h with runtimes := rs, log := [] } : Host)) hmodify

@[simp] theorem recast_edit (f : Bound → Bound) :
    (h.recast c).editRuntime rt (·.edit id f) = (h.editRuntime rt (·.edit id f)).recast c :=
  recast_editRuntime c h rt _ fun _ => rfl

@[simp] theorem recast_without : (h.recast c).editRuntime rt (·.without id) = (h.editRuntime rt (·.without id)).recast c :=
  recast_editRuntime c h rt _ fun _ => rfl

@[simp] theorem recast_forget : (h.recast c).editRuntime rt (·.forget id) = (h.editRuntime rt (·.forget id)).recast c :=
  recast_editRuntime c h rt _ fun _ => rfl

@[simp] theorem recast_unlisten : (h.recast c).unlisten id = ((h.unlisten id).1, (h.unlisten id).2.recast c) := rfl

@[simp] theorem recast_cancelWaiting (k : Nat) (w : Option Nat) :
    (h.recast c).cancelWaiting k w = ((h.cancelWaiting k w).1, (h.cancelWaiting k w).2.recast c) := by
  cases w <;> rfl

@[simp] theorem recast_register (t : Nat) (w : Entry Waiter) : (h.recast c).register t w = (h.register t w).recast c := by
  unfold register
  dsimp only
  have htracker : (h.recast c).tracker t = h.tracker t := rfl
  rw [htracker]
  split <;> rfl

@[simp] theorem recast_resetTracker (t : Nat) : (h.recast c).resetTracker t = (h.resetTracker t).recast c := by
  have hfold : ∀ (es : List (String × Nat)) (h : Host), es.foldl (fun h e => (h.unlisten e.2).2) (h.recast c) =
      (es.foldl (fun h e => (h.unlisten e.2).2) h).recast c := by
    intro es
    induction es with
    | nil => intro h; rfl
    | cons e es ih => intro h; exact ih (h.unlisten e.2).2
  unfold resetTracker
  have htracker : (h.recast c).tracker t = h.tracker t := rfl
  dsimp only
  rw [htracker, hfold]
  rfl

/-! ## Runtimes -/

@[simp] theorem recast_withdraw (r : Runtime Script) (b : Bound) :
    (h.recast c).withdraw (r.recast c) b = (h.withdraw r b).recast c := by
  unfold withdraw
  cases b.listener <;> cases b.plan.isOutside <;> cases b.waiting <;> rfl

@[simp] theorem recast_unbind : (h.recast c).unbind rt id = ((h.unbind rt id).1, (h.unbind rt id).2.recast c) := by
  unfold unbind
  rw [recast_runtime?]
  cases h.runtime? rt with
  | none => rfl
  | some r =>
    have hfind : (r.recast c).find? id = r.find? id := rfl
    simp only [Option.map_some, Option.bind_some, hfind]
    cases r.find? id with
    | none => rfl
    | some b =>
      simp only [Option.map_some, recast_without, recast_withdraw]

@[simp] theorem recast_unbindAll (ids : List Nat) : (h.recast c).unbindAll rt ids = (h.unbindAll rt ids).recast c := by
  induction ids generalizing h with
  | nil => rfl
  | cons id ids ih =>
    unfold unbindAll
    rw [List.foldl_cons, recast_unbind]
    exact ih _

@[simp] theorem recast_unbindElements (ns : List NodeId) :
    (h.recast c).unbindElements rt ns = ((h.unbindElements rt ns).1, (h.unbindElements rt ns).2.recast c) := by
  unfold unbindElements
  simp only [recast_runtime?, Option.map_map, recast_unbindAll]
  rfl

@[simp] theorem recast_endEvaluation : (h.recast c).endEvaluation rt id = (h.endEvaluation rt id).recast c := by
  unfold endEvaluation
  dsimp only
  rw [recast_edit, recast_runtime?]
  generalize h.editRuntime rt (·.edit id fun b => { b with running := b.running - 1 }) = h
  cases h.runtime? rt with
  | none => rfl
  | some r =>
    have hgone : (r.recast c).gone? id = r.gone? id := rfl
    simp only [Option.map_some, Option.bind_some, hgone]
    cases r.gone? id with
    | none => rfl
    | some b =>
      have hclock : (r.recast c).clock = r.clock := rfl
      simp only [Option.map_some, hclock, recast_cancelWaiting, recast_forget]

@[simp] theorem recast_endIfIdle : (h.recast c).endIfIdle rt = (h.endIfIdle rt).recast c := by
  have hfold : ∀ (r : Runtime Script) (bs : List Bound) (h : Host),
      bs.foldl (fun h b => h.withdraw (r.recast c) b) (h.recast c) = (bs.foldl (fun h b => h.withdraw r b) h).recast c := by
    intro r bs
    induction bs with
    | nil => intro h; rfl
    | cons b bs ih =>
      intro h
      rw [List.foldl_cons, recast_withdraw]
      exact ih _
  unfold endIfIdle
  rw [recast_runtime?]
  cases h.runtime? rt with
  | none => rfl
  | some r =>
    have hstatus : (r.recast c).status = r.status := rfl
    have hidle : (r.recast c).isIdle = r.isIdle := rfl
    simp only [Option.map_some, hstatus, hidle]
    split
    · have hbindings : (r.recast c).bindings = r.bindings := rfl
      have howns : (r.recast c).ownsTracker = r.ownsTracker := rfl
      rw [hbindings, hfold, howns]
      generalize r.bindings.foldl (fun h b => h.withdraw r b) h = h
      cases r.ownsTracker
      · exact recast_editRuntime c { h with page := (h.page.disconnect r.observer).2 } rt _ fun _ => rfl
      · exact recast_editRuntime c (({ h with page := (h.page.disconnect r.observer).2 } : Host).setTracker r.tracker
          (h.tracker r.tracker).release) rt _ fun _ => rfl
    · rfl

@[simp] theorem recast_release : (h.recast c).release rt = (h.release rt).recast c := by
  unfold release
  have hrelease : ∀ r : Runtime Script,
      (if (r.recast c).status == .held then { r.recast c with status := .released } else r.recast c) =
      (if r.status == .held then { r with status := .released } else r).recast c := by
    intro r
    have hstatus : (r.recast c).status = r.status := rfl
    rw [hstatus]
    split <;> rfl
  rw [recast_editRuntime c h rt _ hrelease, recast_endIfIdle]

/-- A new runtime has the evaluator that it is made with. -/
theorem recast_addRuntime (config : Directive.Config) (s : Setup) (hc : ∀ ev, c (c ev) = c ev) :
    ((h.recast c).addRuntime config s).1 = (h.addRuntime config s).1 ∧
      ((h.recast c).addRuntime config s).2.recast c = (h.addRuntime config s).2.recast c := by
  have htwice : (Runtime.recast c ∘ Runtime.recast c : Runtime Script → Runtime Script) = Runtime.recast c := by
    funext r
    simp [Runtime.recast, hc]
  unfold addRuntime
  dsimp only
  constructor
  · simp [recast]
  · cases s.ownClock <;> cases hshared : s.tracker.bind fun i => h.sharedTrackers[i]? <;>
      simp [recast, htwice, hshared]

@[simp] theorem recast_bind (n : NodeId) (d : Directive) (scope : Nat) :
    (h.recast c).bind rt n d scope = (h.bind rt n d scope).map fun (id, h) => (id, h.recast c) := by
  unfold Host.bind
  rw [recast_held?]
  cases h.held? rt with
  | none => rfl
  | some r =>
    have hconfig : (r.recast c).config = r.config := rfl
    have hlast : (r.recast c).lastId = r.lastId := rfl
    have htracker : (r.recast c).tracker = r.tracker := rfl
    have hpage : (h.recast c).page = h.page := rfl
    simp only [Option.map_some, hconfig, hlast, htracker, hpage, recast_register]
    split
    · rfl
    · split
      · rfl
      · split
        · rfl
        · split
          · exact congrArg (fun h => Except.ok (_, h)) (recast_editRuntime c _ rt _ fun _ => rfl)
          · exact congrArg (fun h => Except.ok (_, h)) (recast_editRuntime c (h.listen _ _ _ _).2 rt _ fun _ => rfl)

@[simp] theorem recast_bindAttr (n : NodeId) (attr expression : String) (scope : Nat) :
    (h.recast c).bindAttr rt n attr expression scope =
      (h.bindAttr rt n attr expression scope).map fun (id, h) => (id, h.recast c) := by
  unfold bindAttr
  rw [recast_held?]
  cases h.held? rt with
  | none => rfl
  | some r =>
    have hconfig : (r.recast c).config = r.config := rfl
    simp only [Option.map_some, hconfig, recast_bind]
    split <;> rfl

@[simp] theorem recast_bindEach (n : NodeId) (scope : Nat) (bound : List Nat) (as : List (String × String)) :
    (h.recast c).bindEach rt n scope bound as =
      ((h.bindEach rt n scope bound as).1, (h.bindEach rt n scope bound as).2.recast c) := by
  induction as generalizing h bound with
  | nil => rfl
  | cons a as ih =>
    unfold bindEach
    rw [recast_bindAttr]
    cases h.bindAttr rt n a.1 a.2 scope with
    | ok r => exact ih _ _
    | error e => simp [Except.map]

@[simp] theorem recast_bindAttrs (n : NodeId) (scope : Nat) :
    (h.recast c).bindAttrs rt n scope = ((h.bindAttrs rt n scope).1, (h.bindAttrs rt n scope).2.recast c) := by
  have hpage : (h.recast c).page = h.page := rfl
  unfold bindAttrs
  rw [recast_held?, hpage]
  cases h.held? rt with
  | none => rfl
  | some r =>
    cases h.page.tree.element? n with
    | none => rfl
    | some e =>
      have hconfig : (r.recast c).config = r.config := rfl
      simp only [Option.map_some, hconfig, recast_bindEach]

@[simp] theorem recast_resetOutside : (h.recast c).resetOutside rt = (h.resetOutside rt).recast c := by
  unfold resetOutside
  rw [recast_runtime?]
  cases h.runtime? rt with
  | none => rfl
  | some r =>
    have houtside : (r.recast c).outsideBindings = r.outsideBindings := rfl
    have htracker : (r.recast c).tracker = r.tracker := rfl
    simp only [Option.map_some, houtside, htracker, recast_unbindAll, recast_resetTracker]

@[simp] theorem recast_arm (wait : Nat) (e : Event) : (h.recast c).arm rt id wait e = (h.arm rt id wait e).recast c := by
  unfold arm
  rw [recast_live?]
  cases live? h rt id with
  | none => rfl
  | some r =>
    have hclock : (r.1.recast c).clock = r.1.clock := rfl
    simp only [Option.map_some, hclock, recast_cancelWaiting]
    exact recast_edit c ((h.cancelWaiting _ _).2.startTimer _ _ _).2 rt id _

/-! ## Debouncers -/

@[simp] theorem recast_schedule (d : Nat) (e : Event) (s : Script) :
    (h.recast c).schedule d e s = (h.schedule d e s).recast c := by
  have hdebouncer : (h.recast c).debouncer? d = h.debouncer? d := rfl
  unfold schedule
  rw [hdebouncer]
  cases h.debouncer? d with
  | none => rfl
  | some k =>
    simp only [recast_cancelWaiting]
    rfl

@[simp] theorem recast_stopWaiting (d : Nat) :
    (h.recast c).stopWaiting d = ((h.stopWaiting d).1, (h.stopWaiting d).2.recast c) := by
  have hdebouncers : (h.recast c).debouncers = h.debouncers := rfl
  unfold stopWaiting
  rw [hdebouncers]
  cases h.debouncers[d]? with
  | none => rfl
  | some k =>
    simp only [recast_cancelWaiting]
    rfl

@[simp] theorem recast_cancelDebouncer (d : Nat) :
    (h.recast c).cancelDebouncer d = ((h.cancelDebouncer d).1, (h.cancelDebouncer d).2.recast c) := by
  have hdebouncer : (h.recast c).debouncer? d = h.debouncer? d := rfl
  unfold cancelDebouncer
  rw [hdebouncer, recast_stopWaiting]
  split <;> rfl

@[simp] theorem recast_settleDebouncer (d : Nat) : (h.recast c).settleDebouncer d = (h.settleDebouncer d).recast c := by
  have hdebouncers : (h.recast c).debouncers = h.debouncers := rfl
  unfold settleDebouncer
  rw [hdebouncers, recast_stopWaiting]
  split <;> rfl

@[simp] theorem recast_dropDebouncer (d : Nat) : (h.recast c).dropDebouncer d = (h.dropDebouncer d).recast c :=
  recast_settleDebouncer c (h.editDebouncer d fun k => { k with held := false }) d

end Eventful.Host
