import Eventful.Host.Run
import Eventful.Proofs.Host.Withdrawing

/-
  Eventful.Proofs.Host.Quiet — edits that no evaluation takes notice of.

  Almost everything a host does to itself starts and ends no evaluation of a binding, parses
  no source and makes no runtime. Such an edit is `Quiet`: the runtimes keep their
  evaluators, what they still reach is evaluated as often as before, and a runtime whose
  handle is gone and that has nothing left to do was so before, for one that comes to be so
  ends at once.
-/

namespace Eventful.Binding.Runtime

variable {κ : Type}

/-- Its handle is gone and it is idle: it should have ended. -/
def Due (r : Runtime κ) : Prop := r.status = .released ∧ r.isIdle = true

structure Quiet (r r' : Runtime κ) : Prop where
  evaluator : r'.evaluator = r.evaluator
  running : ∀ {b'}, r'.Reaches b' → b'.running = 0 ∨ ∃ b, r.Reaches b ∧ b.id = b'.id ∧ b.running = b'.running
  leaving : (∀ b ∈ r.leaving, 0 < b.running) → ∀ b ∈ r'.leaving, 0 < b.running
  due : r'.Due → r.Due

theorem Quiet.rfl {r : Runtime κ} : Quiet r r where
  evaluator := Eq.refl _
  running hb := .inr ⟨_, hb, Eq.refl _, Eq.refl _⟩
  leaving h := h
  due h := h

theorem Quiet.trans {r r' r'' : Runtime κ} (h : Quiet r r') (h' : Quiet r' r'') : Quiet r r'' where
  evaluator := h'.evaluator.trans h.evaluator
  running hb := by
    rcases h'.running hb with hz | ⟨b', hb', hid', hrun'⟩
    · exact .inl hz
    · rcases h.running hb' with hz | ⟨b, hb, hid, hrun⟩
      · exact .inl (hrun' ▸ hz)
      · exact .inr ⟨b, hb, hid.trans hid', hrun.trans hrun'⟩
  leaving hl := h'.leaving (h.leaving hl)
  due hd := h.due (h'.due hd)

/-- The bindings, their evaluations and the status are what they were. -/
theorem quiet_same {r r' : Runtime κ} (evaluator : r'.evaluator = r.evaluator) (bindings : r'.bindings = r.bindings)
    (leaving : r'.leaving = r.leaving) (status : r'.status = r.status) : Quiet r r' where
  evaluator := evaluator
  running {b} hb := by
    unfold Reaches at hb
    rw [bindings, leaving] at hb
    exact .inr ⟨b, hb, Eq.refl _, Eq.refl _⟩
  leaving hl := leaving ▸ hl
  due := by
    unfold Due isIdle
    rw [bindings, leaving, status]
    exact id

theorem isIdle_iff {r : Runtime κ} : r.isIdle = true ↔ r.leaving = [] ∧ ∀ b ∈ r.bindings, b.running = 0 := by
  simp [isIdle, List.isEmpty_iff]

/-- A binding changes, but not its evaluations. -/
theorem quiet_edit (r : Runtime κ) (id : Nat) {f : Bound → Bound} (hid : ∀ b, (f b).id = b.id)
    (hrun : ∀ b, (f b).running = b.running) : Quiet r (r.edit id f) := by
  have hsame : ∀ b : Bound, (if b.id == id then f b else b).id = b.id ∧
      (if b.id == id then f b else b).running = b.running := by
    intro b
    split
    · exact ⟨hid b, hrun b⟩
    · exact ⟨rfl, rfl⟩
  refine ⟨Eq.refl _, fun hb => .inr ?_, fun hl b' hb' => ?_, fun ⟨hs, hi⟩ => ⟨hs, ?_⟩⟩
  · rcases hb with hb | hb
    · obtain ⟨b, hmem, rfl⟩ := List.mem_map.mp hb
      exact ⟨b, .inl hmem, (hsame b).1.symm, (hsame b).2.symm⟩
    · obtain ⟨b, hmem, rfl⟩ := List.mem_map.mp hb
      exact ⟨b, .inr hmem, (hsame b).1.symm, (hsame b).2.symm⟩
  · obtain ⟨b, hb, rfl⟩ := List.mem_map.mp hb'
    rw [(hsame b).2]
    exact hl b hb
  · obtain ⟨hl, hb⟩ := isIdle_iff.mp hi
    refine isIdle_iff.mpr ⟨List.map_eq_nil_iff.mp hl, fun b hmem => ?_⟩
    rw [← (hsame b).2]
    exact hb _ (List.mem_map_of_mem hmem)

/-- An unbinding: what is still being evaluated is kept among the leaving. -/
theorem quiet_without (r : Runtime κ) (id : Nat) : Quiet r (r.without id) := by
  have hmem : ∀ {b'}, b' ∈ (r.without id).leaving → b' ∈ r.leaving ∨
      ∃ b ∈ r.bindings, b.id = id ∧ 0 < b.running ∧ b' = { b with waiting := none } := by
    intro b' hb'
    rcases List.mem_append.mp hb' with hb' | hb'
    · exact .inl hb'
    · obtain ⟨b, hb, rfl⟩ := List.mem_map.mp hb'
      obtain ⟨hb, h⟩ := List.mem_filter.mp hb
      simp only [Bool.and_eq_true, beq_iff_eq, decide_eq_true_eq] at h
      exact .inr ⟨b, hb, h.1, h.2, Eq.refl _⟩
  refine ⟨Eq.refl _, fun hb => .inr ?_, fun hl b' hb' => ?_, fun hs => ⟨hs.1, ?_⟩⟩
  · rcases hb with hb | hb
    · exact ⟨_, .inl (List.mem_of_mem_filter hb), Eq.refl _, Eq.refl _⟩
    · rcases hmem hb with hb | ⟨b, hbound, -, -, rfl⟩
      · exact ⟨_, .inr hb, Eq.refl _, Eq.refl _⟩
      · exact ⟨b, .inl hbound, Eq.refl _, Eq.refl _⟩
  · rcases hmem hb' with hb | ⟨b, -, -, hpos, rfl⟩
    · exact hl b' hb
    · exact hpos
  · obtain ⟨hl, hb⟩ := isIdle_iff.mp hs.2
    obtain ⟨hl, hgone⟩ := List.append_eq_nil_iff.mp hl
    refine isIdle_iff.mpr ⟨hl, fun b hmem => ?_⟩
    by_cases e : b.id = id
    · -- It was not kept, so it is not being evaluated.
      have := List.filter_eq_nil_iff.mp (List.map_eq_nil_iff.mp hgone) b hmem
      simp only [e, beq_self_eq_true, Bool.true_and, decide_eq_true_eq] at this
      omega
    · exact hb b (List.mem_filter.mpr ⟨hmem, by simpa using e⟩)

/-- A binding is bound. -/
theorem quiet_bind (r : Runtime κ) {b : Bound} (hb : b.running = 0) (lastId : Nat) :
    Quiet r { r with bindings := r.bindings ++ [b], lastId } := by
  refine ⟨Eq.refl _, fun hr => ?_, fun hl => hl, fun ⟨hs, hi⟩ => ⟨hs, ?_⟩⟩
  · rcases hr with hr | hr
    · rcases List.mem_append.mp hr with hr | hr
      · exact .inr ⟨_, .inl hr, Eq.refl _, Eq.refl _⟩
      · exact .inl (List.mem_singleton.mp hr ▸ hb)
    · exact .inr ⟨_, .inr hr, Eq.refl _, Eq.refl _⟩
  · obtain ⟨hl, hall⟩ := isIdle_iff.mp hi
    exact isIdle_iff.mpr ⟨hl, fun b' hmem => hall b' (List.mem_append_left _ hmem)⟩

/-- It ends if it is due. -/
def settled (r : Runtime κ) : Runtime κ :=
  if r.status == .released && r.isIdle then { r with status := .ended, bindings := [], hooks := [] } else r

theorem settled_cases (r : Runtime κ) :
    (r.Due ∧ r.settled = { r with status := .ended, bindings := [], hooks := [] }) ∨ (¬r.Due ∧ r.settled = r) := by
  unfold settled Due
  by_cases h : (r.status == .released && r.isIdle) = true
  · rw [if_pos h]
    exact .inl ⟨by simpa using h, Eq.refl _⟩
  · rw [if_neg h]
    exact .inr ⟨by simpa using h, Eq.refl _⟩

theorem not_due_settled (r : Runtime κ) : ¬r.settled.Due := by
  rcases settled_cases r with ⟨-, e⟩ | ⟨hd, e⟩
  · rw [e]
    intro h
    nomatch h.1
  · rw [e]
    exact hd

theorem quiet_settled (r : Runtime κ) : Quiet r r.settled := by
  rcases settled_cases r with ⟨hd, e⟩ | ⟨-, e⟩
  · rw [e]
    have hl := (isIdle_iff.mp hd.2).1
    refine ⟨Eq.refl _, fun hb => ?_, fun h => h, fun h => nomatch h.1⟩
    rcases hb with hb | hb
    · nomatch hb
    · exact absurd hb (by simp [hl])
  · rw [e]
    exact .rfl

/-- Its handle goes. -/
def letGo (r : Runtime κ) : Runtime κ := if r.status == .held then { r with status := .released } else r

theorem quiet_letGo (r : Runtime κ) : Quiet r r.letGo.settled := by
  have hrunning : ∀ {b}, r.letGo.Reaches b → r.Reaches b := by
    unfold letGo
    split <;> exact id
  have hset := quiet_settled r.letGo
  refine ⟨hset.evaluator.trans ?_, fun hb => ?_, fun hl => hset.leaving ?_, fun h => absurd h (not_due_settled _)⟩
  · unfold letGo
    split <;> rfl
  · exact (hset.running hb).imp_right fun ⟨b, hb, e⟩ => ⟨b, hrunning hb, e⟩
  · unfold letGo
    split <;> exact hl

end Eventful.Binding.Runtime

namespace Eventful.Host

open Page Binding

variable {α : Type} {h h' h'' : Host} {rt : Nat}

structure Quiet (h h' : Host) : Prop where
  cache : h'.cache = h.cache
  count : h'.runtimes.length = h.runtimes.length
  rows : ∀ {rt : Nat} {r' : Runtime Script}, h'.runtimes[rt]? = some r' →
    ∃ r, h.runtimes[rt]? = some r ∧ Runtime.Quiet r r'

theorem Quiet.rfl (h : Host) : Quiet h h := ⟨Eq.refl _, Eq.refl _, fun hr => ⟨_, hr, .rfl⟩⟩

theorem Quiet.trans (hq : Quiet h h') (hq' : Quiet h' h'') : Quiet h h'' where
  cache := hq'.cache.trans hq.cache
  count := hq'.count.trans hq.count
  rows hr := by
    obtain ⟨r', hr', e'⟩ := hq'.rows hr
    obtain ⟨r, hr, e⟩ := hq.rows hr'
    exact ⟨r, hr, e.trans e'⟩

theorem quiet_aside (cache : h'.cache = h.cache) (runtimes : h'.runtimes = h.runtimes) : Quiet h h' :=
  ⟨cache, congrArg List.length runtimes, fun hr => ⟨_, runtimes ▸ hr, .rfl⟩⟩

theorem quiet_modify {f : Runtime Script → Runtime Script} (cache : h'.cache = h.cache)
    (runtimes : h'.runtimes = h.runtimes.modify rt f) (hf : ∀ r, Runtime.Quiet r (f r)) : Quiet h h' := by
  refine ⟨cache, by rw [runtimes, List.length_modify], fun hr' => ?_⟩
  rw [runtimes] at hr'
  obtain ⟨r, hr, rfl⟩ := modify_eq_some.mp hr'
  refine ⟨r, hr, ?_⟩
  split
  · exact hf r
  · exact .rfl

theorem quiet_editRuntime (h : Host) (rt : Nat) {f : Runtime Script → Runtime Script}
    (hf : ∀ r, Runtime.Quiet r (f r)) : Quiet h (h.editRuntime rt f) := quiet_modify rfl rfl hf

theorem quiet_foldl {f : Host → α → Host} (hf : ∀ h a, Quiet h (f h a)) (as : List α) (h : Host) :
    Quiet h (as.foldl f h) := by
  induction as generalizing h with
  | nil => exact .rfl h
  | cons a as ih => exact (hf h a).trans (ih (f h a))

/-! ## Listeners, timers and trackers -/

theorem quiet_unlisten (h : Host) (id : Nat) : Quiet h (h.unlisten id).2 := quiet_aside rfl rfl

theorem quiet_startTimer (h : Host) (c delay : Nat) (a : Alarm) : Quiet h (h.startTimer c delay a).2 :=
  quiet_aside rfl rfl

theorem quiet_cancelWaiting (h : Host) (c : Nat) (w : Option Nat) : Quiet h (h.cancelWaiting c w).2 := by
  cases w <;> exact quiet_aside rfl rfl

theorem quiet_register (h : Host) (k : Nat) (w : Entry Waiter) : Quiet h (h.register k w) := by
  unfold register
  dsimp only
  split <;> exact quiet_aside rfl rfl

theorem quiet_resetTracker (h : Host) (k : Nat) : Quiet h (h.resetTracker k) :=
  (quiet_foldl (fun h (e : String × Nat) => quiet_unlisten h e.2) (h.tracker k).installed h).trans
    (quiet_aside rfl rfl)

/-! ## Runtimes -/

theorem quiet_withdraw (h : Host) (r : Runtime Script) (b : Bound) : Quiet h (h.withdraw r b) := by
  obtain ⟨ls, ts, cs, e⟩ := (withdrawn_one r b h).shape
  rw [e]
  exact quiet_aside rfl rfl

theorem quiet_unbind (h : Host) (rt id : Nat) : Quiet h (h.unbind rt id).2 := by
  unfold unbind
  split
  · exact .rfl h
  · exact (quiet_editRuntime h rt fun r => r.quiet_without id).trans (quiet_withdraw _ _ _)

theorem quiet_unbindAll (h : Host) (rt : Nat) (ids : List Nat) : Quiet h (h.unbindAll rt ids) :=
  quiet_foldl (fun h id => quiet_unbind h rt id) ids h

/-- Ending what is due changes one row. -/
theorem endIfIdle_row (h : Host) (rt : Nat) :
    (h.endIfIdle rt).cache = h.cache ∧ (h.endIfIdle rt).runtimes = h.runtimes.modify rt Runtime.settled := by
  unfold endIfIdle
  cases hr : h.runtime? rt with
  | none => exact ⟨rfl, (List.modify_eq_self (List.getElem?_eq_none_iff.mp hr)).symm⟩
  | some r =>
    dsimp only
    split
    · rename_i hdue
      obtain ⟨ls, ts, cs, e⟩ := (withdrawn_foldl r r.bindings h).shape
      have hend : ∀ f : Runtime Script → Runtime Script, f r = { r with status := .ended, bindings := [], hooks := [] } →
          h.runtimes.modify rt f = h.runtimes.modify rt Runtime.settled := fun f hf =>
        modify_congr hr (hf.trans (if_pos hdue).symm)
      rw [e]
      split <;> exact ⟨rfl, hend _ rfl⟩
    · rename_i hdue
      have hsame : h.runtimes.modify rt Runtime.settled = h.runtimes.modify rt id :=
        modify_congr hr (if_neg hdue)
      exact ⟨rfl, by rw [hsame, List.modify_id]⟩

theorem release_row (h : Host) (rt : Nat) :
    (h.release rt).cache = h.cache ∧
      (h.release rt).runtimes = h.runtimes.modify rt (Runtime.settled ∘ Runtime.letGo) := by
  obtain ⟨hcache, hrows⟩ := endIfIdle_row (h.editRuntime rt Runtime.letGo) rt
  exact ⟨hcache, List.modify_modify_eq .. ▸ hrows⟩

theorem quiet_release (h : Host) (rt : Nat) : Quiet h (h.release rt) :=
  quiet_modify (release_row h rt).1 (release_row h rt).2 Runtime.quiet_letGo

theorem quiet_bindAt {n : NodeId} {d : Directive} {scope id : Nat} (e : h.bind rt n d scope = .ok (id, h')) :
    Quiet h h' := by
  unfold Host.bind at e
  split at e
  · cases e
  · split at e
    · cases e
    · split at e
      · cases e
      · dsimp only at e
        split at e
        · cases e
        · split at e <;> cases e
          · exact (quiet_register _ _ _).trans (quiet_editRuntime _ _ fun r => r.quiet_bind rfl _)
          · exact (quiet_aside rfl rfl : Quiet h (h.listen _ _ _ _).2).trans
              (quiet_editRuntime _ _ fun r => r.quiet_bind rfl _)

theorem quiet_bindAttr {n : NodeId} {attr expression : String} {scope id : Nat}
    (e : h.bindAttr rt n attr expression scope = .ok (id, h')) : Quiet h h' := by
  unfold bindAttr at e
  split at e
  · cases e
  · split at e
    · cases e
    · exact quiet_bindAt e

theorem quiet_bindEach (rt : Nat) (n : NodeId) (scope : Nat) (bound : List Nat) (as : List (String × String))
    (h : Host) : Quiet h (h.bindEach rt n scope bound as).2 := by
  induction as generalizing bound h with
  | nil => exact .rfl h
  | cons a as ih =>
    unfold bindEach
    split
    · rename_i e
      exact (quiet_bindAttr e).trans (ih _ _)
    · exact quiet_unbindAll h rt bound

theorem quiet_bindAttrs (h : Host) (rt : Nat) (n : NodeId) (scope : Nat) : Quiet h (h.bindAttrs rt n scope).2 := by
  unfold bindAttrs
  split
  · exact quiet_bindEach _ _ _ _ _ _
  · exact .rfl h

theorem quiet_resetOutside (h : Host) (rt : Nat) : Quiet h (h.resetOutside rt) := by
  unfold resetOutside
  split
  · exact .rfl h
  · exact (quiet_unbindAll _ _ _).trans (quiet_resetTracker _ _)

theorem quiet_arm (h : Host) (rt id wait : Nat) (e : Event) : Quiet h (h.arm rt id wait e) := by
  unfold arm
  split
  · exact .rfl h
  · exact ((quiet_cancelWaiting _ _ _).trans (quiet_startTimer _ _ _ _)).trans
      (quiet_editRuntime _ rt fun r => r.quiet_edit id (fun _ => rfl) fun _ => rfl)

/-- A runtime that is made comes last, with nothing bound yet; it is no quiet edit. -/
theorem addRuntime_row (h : Host) (config : Directive.Config) (s : Setup) :
    (h.addRuntime config s).2.cache = h.cache ∧
      ∃ r, (h.addRuntime config s).2.runtimes = h.runtimes ++ [r] ∧ r.evaluator = s.evaluator ∧
        r.bindings = [] ∧ r.leaving = [] ∧ r.status = .held := by
  unfold addRuntime
  dsimp only
  split <;> split <;> exact ⟨rfl, _, rfl, rfl, rfl, rfl, rfl⟩

/-! ## Debouncers -/

theorem quiet_editDebouncer (h : Host) (d : Nat) (f : Debouncer → Debouncer) : Quiet h (h.editDebouncer d f) :=
  quiet_aside rfl rfl

theorem quiet_schedule (h : Host) (d : Nat) (e : Event) (s : Script) : Quiet h (h.schedule d e s) := by
  unfold schedule
  split
  · exact .rfl h
  · exact ((quiet_cancelWaiting _ _ _).trans (quiet_startTimer _ _ _ _)).trans (quiet_editDebouncer _ d _)

theorem quiet_stopWaiting (h : Host) (d : Nat) : Quiet h (h.stopWaiting d).2 := by
  unfold stopWaiting
  split
  · exact .rfl h
  · exact (quiet_cancelWaiting _ _ _).trans (quiet_editDebouncer _ d _)

theorem quiet_cancelDebouncer (h : Host) (d : Nat) : Quiet h (h.cancelDebouncer d).2 := by
  unfold cancelDebouncer
  split
  · exact quiet_stopWaiting h d
  · exact .rfl h

theorem quiet_settleDebouncer (h : Host) (d : Nat) : Quiet h (h.settleDebouncer d) := by
  unfold settleDebouncer
  split
  · exact quiet_stopWaiting h d
  · exact .rfl h

theorem quiet_settleEdited (h : Host) (d : Nat) (f : Debouncer → Debouncer) :
    Quiet h ((h.editDebouncer d f).settleDebouncer d) :=
  (quiet_editDebouncer h d f).trans (quiet_settleDebouncer _ d)

end Eventful.Host
