import Eventful.Clock
import Mathlib.Data.List.Nodup

/-
  Eventful.Proofs.Clock — what a clock keeps.

  `Sound`: ids are given once and, on a clock that counts in 64 bits, no pending timer is
  overdue; every operation keeps it. A timer is filed no earlier than now, and the clock
  moves only as far as no timer is passed, which is what an advance checks first
  (`takeDue?_eq_none`). The timer taken next is the smallest in the order of instant and id
  (`first?_least`).
-/

namespace Eventful.Clock

variable {κ : Type}

structure Sound (c : Clock κ) : Prop where
  ids : (c.timers.map (·.id)).Nodup
  issued : ∀ t ∈ c.timers, t.id ≤ c.lastId
  timely : c.now ≤ lastInstant → ∀ t ∈ c.timers, c.now ≤ t.due

/-! ## The next timer -/

/-- The first timer runs no later than the other. -/
def Leq (t u : Timer κ) : Prop := t.due < u.due ∨ (t.due = u.due ∧ t.id ≤ u.id)

theorem Leq.due {t u : Timer κ} (h : Leq t u) : t.due ≤ u.due := by
  rcases h with h | h <;> omega

theorem leq_of_not_before {t u : Timer κ} (h : Timer.before u t = false) : Leq t u := by
  simp only [Timer.before, Bool.or_eq_false_iff, Bool.and_eq_false_iff, decide_eq_false_iff_not,
    beq_eq_false_iff_ne, ne_eq] at h
  unfold Leq; omega

theorem leq_of_before {t u : Timer κ} (h : Timer.before t u = true) : Leq t u := by
  simp only [Timer.before, Bool.or_eq_true, Bool.and_eq_true, decide_eq_true_eq, beq_iff_eq] at h
  unfold Leq; omega

theorem first?_eq_none {ts : List (Timer κ)} : first? ts = none ↔ ts = [] := by
  cases ts with
  | nil => simp [first?]
  | cons t ts =>
    simp only [first?, reduceCtorEq, iff_false]
    split
    · simp
    · split <;> simp

/-- The first timer is one of the list and runs before all others. -/
theorem first?_least {ts : List (Timer κ)} {t : Timer κ} (h : first? ts = some t) :
    t ∈ ts ∧ ∀ u ∈ ts, Leq t u := by
  induction ts generalizing t with
  | nil => cases h
  | cons a ts ih =>
    simp only [first?] at h
    cases hf : first? ts with
    | none =>
      rw [hf] at h
      simp only [Option.some.injEq] at h
      subst h
      rw [first?_eq_none.mp hf]
      refine ⟨List.mem_singleton.mpr rfl, fun u hu => ?_⟩
      rw [List.mem_singleton.mp hu]
      exact .inr ⟨rfl, Nat.le_refl _⟩
    | some b =>
      rw [hf] at h
      obtain ⟨hb, hle⟩ := ih hf
      simp only at h
      by_cases hba : Timer.before b a = true
      · simp only [hba, if_true, Option.some.injEq] at h
        subst h
        refine ⟨List.mem_cons_of_mem _ hb, fun u hu => ?_⟩
        rcases List.mem_cons.mp hu with rfl | hu
        · exact leq_of_before hba
        · exact hle u hu
      · simp only [hba, Bool.false_eq_true, if_false, Option.some.injEq] at h
        subst h
        have hab := leq_of_not_before (by simpa using hba : Timer.before b a = false)
        refine ⟨List.mem_cons_self, fun u hu => ?_⟩
        rcases List.mem_cons.mp hu with rfl | hu
        · exact .inr ⟨rfl, Nat.le_refl _⟩
        · have := hle u hu
          unfold Leq at *; omega

theorem takeFirst?_eq_some {c k : Clock κ} {t : Timer κ} (h : c.takeFirst? = some (t, k)) :
    t ∈ c.timers ∧ (∀ u ∈ c.timers, Leq t u) ∧
      k = { c with now := max c.now t.due, timers := c.timers.filter (·.id != t.id) } := by
  obtain ⟨u, hu, e⟩ := Option.map_eq_some_iff.mp h
  simp only [Prod.mk.injEq] at e
  obtain ⟨rfl, rfl⟩ := e
  exact ⟨(first?_least hu).1, (first?_least hu).2, rfl⟩

theorem takeFirst?_eq_none {c : Clock κ} : c.takeFirst? = none ↔ c.timers = [] := by
  unfold takeFirst?
  rw [Option.map_eq_none_iff, first?_eq_none]

theorem takeDue?_eq_some {c k : Clock κ} {limit : Nat} {t : Timer κ} :
    c.takeDue? limit = some (t, k) ↔ c.takeFirst? = some (t, k) ∧ t.due ≤ limit := by
  unfold takeDue?
  rw [Option.filter_eq_some_iff]
  simp

/-- Nothing is due by an instant: every timer comes later. -/
theorem takeDue?_eq_none {c : Clock κ} {limit : Nat} :
    c.takeDue? limit = none ↔ ∀ t ∈ c.timers, limit < t.due := by
  unfold takeDue?
  cases h : c.takeFirst? with
  | none => simp [takeFirst?_eq_none.mp h]
  | some p =>
    obtain ⟨t, k⟩ := p
    obtain ⟨hm, hle, -⟩ := takeFirst?_eq_some h
    simp only [Option.filter_some, ite_eq_right_iff, reduceCtorEq, imp_false, decide_eq_true_eq, Nat.not_le]
    exact ⟨fun hlt u hu => Nat.lt_of_lt_of_le hlt (hle u hu).due, fun ha => ha t hm⟩

/-! ## The operations -/

@[simp] theorem start_id (c : Clock κ) (delay : Nat) (a : κ) : (c.start delay a).1 = c.lastId + 1 := rfl

@[simp] theorem start_timers (c : Clock κ) (delay : Nat) (a : κ) :
    (c.start delay a).2.timers = c.timers ++ [⟨c.lastId + 1, c.instant delay, a⟩] := rfl

@[simp] theorem start_now (c : Clock κ) (delay : Nat) (a : κ) : (c.start delay a).2.now = c.now := rfl

@[simp] theorem start_lastId (c : Clock κ) (delay : Nat) (a : κ) : (c.start delay a).2.lastId = c.lastId + 1 := rfl

@[simp] theorem cancel_timers (c : Clock κ) (id : Nat) : (c.cancel id).2.timers = c.timers.filter (·.id != id) := rfl

@[simp] theorem cancel_now (c : Clock κ) (id : Nat) : (c.cancel id).2.now = c.now := rfl

@[simp] theorem cancel_lastId (c : Clock κ) (id : Nat) : (c.cancel id).2.lastId = c.lastId := rfl

/-! ## The invariant -/

theorem sound_new : (new : Clock κ).Sound :=
  ⟨List.nodup_nil, fun _ h => (List.not_mem_nil h).elim, fun _ _ h => (List.not_mem_nil h).elim⟩

theorem sound_unique {c : Clock κ} (h : c.Sound) {t u : Timer κ} (ht : t ∈ c.timers) (hu : u ∈ c.timers)
    (e : t.id = u.id) : t = u := List.inj_on_of_nodup_map h.ids ht hu e

theorem Sound.filter {c : Clock κ} (h : c.Sound) (p : Timer κ → Bool) :
    Sound { c with timers := c.timers.filter p } where
  ids := (List.filter_sublist.map _).nodup h.ids
  issued t ht := h.issued t (List.mem_filter.mp ht).1
  timely hn t ht := h.timely hn t (List.mem_filter.mp ht).1

theorem sound_cancel {c : Clock κ} (h : c.Sound) (id : Nat) : (c.cancel id).2.Sound := h.filter _

/-- A clock may move as far as no timer is passed. -/
theorem sound_moveTo {c : Clock κ} (h : c.Sound) {limit : Nat} (hd : ∀ t ∈ c.timers, limit ≤ t.due) :
    (c.moveTo limit).Sound where
  ids := h.ids
  issued := h.issued
  timely hn t ht := Nat.max_le.mpr ⟨h.timely (Nat.le_trans (Nat.le_max_left _ _) hn) t ht, hd t ht⟩

theorem sound_takeFirst {c k : Clock κ} (h : c.Sound) {t : Timer κ} (ht : c.takeFirst? = some (t, k)) : k.Sound := by
  obtain ⟨-, hle, rfl⟩ := takeFirst?_eq_some ht
  exact sound_moveTo (h.filter _) fun u hu => (hle u (List.mem_filter.mp hu).1).due

theorem sound_start {c : Clock κ} (h : c.Sound) (delay : Nat) (a : κ) : (c.start delay a).2.Sound where
  ids := by
    rw [start_timers, List.map_append, List.nodup_append]
    refine ⟨h.ids, by simp, fun x hx y hy e => ?_⟩
    obtain ⟨t, ht, rfl⟩ := List.mem_map.mp hx
    simp only [List.map_cons, List.map_nil, List.mem_singleton] at hy
    have := h.issued t ht
    omega
  issued t ht := by
    rcases List.mem_append.mp ht with ht | ht
    · have := h.issued t ht; simp only [start_lastId]; omega
    · rw [List.mem_singleton.mp ht]; exact Nat.le_refl _
  timely hn t ht := by
    rw [start_now] at hn ⊢
    rcases List.mem_append.mp ht with ht | ht
    · exact h.timely hn t ht
    · rw [List.mem_singleton.mp ht]
      exact Nat.le_min.mpr ⟨Nat.le_add_right _ _, hn⟩

/-! ## Moving in two steps -/

theorem moveTo_moveTo (c : Clock κ) (a b : Nat) : (c.moveTo a).moveTo b = c.moveTo (max a b) := by
  simp only [moveTo, Nat.max_assoc]

/-- A clock that moved where nothing was due takes next what it would have taken before,
    and comes to stand at the same instant. -/
theorem takeDue?_moveTo {c : Clock κ} {a : Nat} (h : c.takeDue? a = none) (b : Nat) :
    (c.moveTo a).takeDue? b = c.takeDue? (max a b) := by
  have hlate := takeDue?_eq_none.mp h
  unfold takeDue? takeFirst? moveTo
  cases hf : first? c.timers with
  | none => rfl
  | some t =>
    have ht : a < t.due := hlate t (first?_least hf).1
    have hnow : max (max c.now a) t.due = max c.now t.due := by omega
    have hdue : (t.due ≤ b) ↔ (t.due ≤ max a b) := by omega
    simp only [Option.map_some, Option.filter_some, hnow, hdue]

/-! ## Pending timers -/

/-- What was taken out is not pending any more. -/
theorem isPending_without (c : Clock κ) (now id : Nat) :
    ({ c with now, timers := c.timers.filter (·.id != id) } : Clock κ).isPending id = false := by
  unfold isPending
  rw [List.any_eq_false]
  intro u hu
  exact bne_iff_ne.mp (List.mem_filter.mp hu).2 ∘ beq_iff_eq.mp

theorem isPending_cancel (c : Clock κ) (id : Nat) : (c.cancel id).2.isPending id = false := isPending_without c c.now id

theorem isPending_of_mem {c : Clock κ} {t : Timer κ} (ht : t ∈ c.timers) : c.isPending t.id = true :=
  List.any_eq_true.mpr ⟨t, ht, beq_self_eq_true _⟩

/-! ## The course of time -/

/-- What a clock comes to: it never goes back, and a timer that it did not have before is a
    new one, due no earlier than the clock stood. -/
structure Later (c c' : Clock κ) : Prop where
  now : c.now ≤ c'.now
  lastId : c.lastId ≤ c'.lastId
  timers : ∀ t ∈ c'.timers, t ∈ c.timers ∨ (c.lastId < t.id ∧ min c.now lastInstant ≤ t.due)

theorem Later.rfl (c : Clock κ) : Later c c := ⟨Nat.le_refl _, Nat.le_refl _, fun _ ht => .inl ht⟩

theorem Later.trans {c c' c'' : Clock κ} (h : Later c c') (h' : Later c' c'') : Later c c'' where
  now := Nat.le_trans h.now h'.now
  lastId := Nat.le_trans h.lastId h'.lastId
  timers t ht := by
    rcases h'.timers t ht with ht | ⟨hid, hdue⟩
    · exact h.timers t ht
    · have := h.now
      have := h.lastId
      exact .inr ⟨by omega, by omega⟩

theorem later_start (c : Clock κ) (delay : Nat) (a : κ) : Later c (c.start delay a).2 where
  now := Nat.le_refl _
  lastId := Nat.le_succ _
  timers t ht := by
    rcases List.mem_append.mp ht with ht | ht
    · exact .inl ht
    · rw [List.mem_singleton.mp ht]
      refine .inr ⟨Nat.lt_succ_self _, ?_⟩
      show min c.now lastInstant ≤ min (c.now + delay % UInt64.size) lastInstant
      omega

theorem later_cancel (c : Clock κ) (id : Nat) : Later c (c.cancel id).2 :=
  ⟨Nat.le_refl _, Nat.le_refl _, fun _ ht => .inl (List.mem_filter.mp ht).1⟩

theorem later_moveTo (c : Clock κ) (instant : Nat) : Later c (c.moveTo instant) :=
  ⟨Nat.le_max_left _ _, Nat.le_refl _, fun _ ht => .inl ht⟩

theorem later_takeFirst {c k : Clock κ} {t : Timer κ} (ht : c.takeFirst? = some (t, k)) : Later c k := by
  obtain ⟨-, -, rfl⟩ := takeFirst?_eq_some ht
  exact ⟨Nat.le_max_left _ _, Nat.le_refl _, fun _ hu => .inl (List.mem_filter.mp hu).1⟩

/-- An id that was given and is not pending never comes back. -/
theorem Later.gone {c c' : Clock κ} (hl : Later c c') {id : Nat} (hid : id ≤ c.lastId) (hno : c.isPending id = false) :
    ∀ t ∈ c'.timers, t.id ≠ id := by
  intro t ht e
  rcases hl.timers t ht with ht | ⟨hnew, -⟩
  · rw [← e, isPending_of_mem ht] at hno
    cases hno
  · omega

/-- A clock that counts in 64 bits, and whose timers do. -/
structure InTime (c : Clock κ) : Prop extends Sound c where
  now_le : c.now ≤ lastInstant
  due_le : ∀ t ∈ c.timers, t.due ≤ lastInstant

theorem InTime.ahead {c : Clock κ} (h : c.InTime) : ∀ t ∈ c.timers, c.now ≤ t.due := h.timely h.now_le

theorem inTime_new : (new : Clock κ).InTime := ⟨sound_new, Nat.zero_le _, fun _ h => (List.not_mem_nil h).elim⟩

theorem InTime.start {c : Clock κ} (h : c.InTime) (delay : Nat) (a : κ) : (c.start delay a).2.InTime := by
  refine ⟨sound_start h.toSound delay a, h.now_le, fun t ht => ?_⟩
  rcases List.mem_append.mp ht with ht | ht
  · exact h.due_le t ht
  · rw [List.mem_singleton.mp ht]
    exact Nat.min_le_right _ _

theorem InTime.cancel {c : Clock κ} (h : c.InTime) (id : Nat) : (c.cancel id).2.InTime :=
  ⟨sound_cancel h.toSound id, h.now_le, fun t ht => h.due_le t (List.mem_filter.mp ht).1⟩

theorem InTime.moveTo {c : Clock κ} (h : c.InTime) {limit : Nat} (hlimit : limit ≤ lastInstant)
    (hnone : c.takeDue? limit = none) : (c.moveTo limit).InTime :=
  ⟨sound_moveTo h.toSound fun t ht => Nat.le_of_lt (takeDue?_eq_none.mp hnone t ht), Nat.max_le.mpr ⟨h.now_le, hlimit⟩,
    h.due_le⟩

theorem InTime.takeFirst {c k : Clock κ} {t : Timer κ} (h : c.InTime) (ht : c.takeFirst? = some (t, k)) : k.InTime := by
  have hk := sound_takeFirst h.toSound ht
  obtain ⟨hm, -, rfl⟩ := takeFirst?_eq_some ht
  exact ⟨hk, Nat.max_le.mpr ⟨h.now_le, h.due_le t hm⟩, fun u hu => h.due_le u (List.mem_filter.mp hu).1⟩

/-- The clock stands at the instant of the timer that it took. -/
theorem InTime.now_takeFirst {c k : Clock κ} {t : Timer κ} (h : c.InTime) (ht : c.takeFirst? = some (t, k)) :
    k.now = t.due := by
  obtain ⟨hm, -, rfl⟩ := takeFirst?_eq_some ht
  exact Nat.max_eq_right (h.ahead t hm)

/-- A timer that was taken is not pending any more, and its id stays given. -/
theorem InTime.taken {c k : Clock κ} {t : Timer κ} (h : c.InTime) (ht : c.takeFirst? = some (t, k)) :
    k.isPending t.id = false ∧ t.id ≤ k.lastId := by
  obtain ⟨hm, -, rfl⟩ := takeFirst?_eq_some ht
  exact ⟨isPending_without c _ t.id, h.issued t hm⟩

/-- The timers that a clock takes, it takes in their order. -/
theorem before_takeFirst {c k c' k' : Clock κ} {t t' : Timer κ} (h : c.InTime) (ht : c.takeFirst? = some (t, k))
    (hl : Later k c') (ht' : c'.takeFirst? = some (t', k')) : Timer.before t t' = true := by
  have hnow := h.now_takeFirst ht
  have hk := h.takeFirst ht
  obtain ⟨hgone, hid⟩ := h.taken ht
  obtain ⟨hm', -, -⟩ := takeFirst?_eq_some ht'
  have hne := hl.gone hid hgone t' hm'
  have hle : Leq t t' := by
    rcases hl.timers t' hm' with hold | ⟨hnew, hdue⟩
    · -- It was pending already, and the other one was the first.
      obtain ⟨-, hleast, rfl⟩ := takeFirst?_eq_some ht
      exact hleast t' (List.mem_filter.mp hold).1
    · have := hk.now_le
      unfold Leq
      omega
  unfold Leq at hle
  simp only [Timer.before, Bool.or_eq_true, Bool.and_eq_true, decide_eq_true_eq, beq_iff_eq]
  omega

/-! ## The time until the next timer -/

theorem untilNext?_eq_some {c : Clock κ} {d : Nat} (h : c.untilNext? = some d) :
    ∃ t k, c.takeFirst? = some (t, k) ∧ d = t.due - c.now := by
  obtain ⟨t, ht, rfl⟩ := Option.map_eq_some_iff.mp h
  exact ⟨t, _, Option.map_eq_some_iff.mpr ⟨t, ht, Eq.refl _⟩, Eq.refl _⟩

theorem InTime.instant_eq {c : Clock κ} (h : c.InTime) {t : Timer κ} (ht : t ∈ c.timers) {delta : Nat}
    (hd : delta ≤ t.due - c.now) : c.instant delta = c.now + delta := by
  have hdue := h.due_le t ht
  have hahead := h.ahead t ht
  have hlast : lastInstant < UInt64.size := by decide
  unfold instant
  rw [Nat.mod_eq_of_lt (by omega)]
  omega

/-- Nothing is due before the time until the next timer is over. -/
theorem InTime.takeDue?_sooner {c : Clock κ} (h : c.InTime) {d delta : Nat} (hd : c.untilNext? = some d)
    (hlt : delta < d) :
    c.takeDue? (c.instant delta) = none := by
  obtain ⟨t, k, ht, rfl⟩ := untilNext?_eq_some hd
  obtain ⟨hm, hleast, -⟩ := takeFirst?_eq_some ht
  rw [h.instant_eq hm (Nat.le_of_lt hlt), takeDue?_eq_none]
  intro u hu
  have := (hleast u hu).due
  omega

/-- When it is over, the timer is due. -/
theorem InTime.takeDue?_then {c : Clock κ} (h : c.InTime) {d : Nat} (hd : c.untilNext? = some d) :
    ∃ t k, c.takeDue? (c.instant d) = some (t, k) := by
  obtain ⟨t, k, ht, rfl⟩ := untilNext?_eq_some hd
  obtain ⟨hm, -, -⟩ := takeFirst?_eq_some ht
  have hahead := h.ahead t hm
  rw [h.instant_eq hm (Nat.le_refl _)]
  exact ⟨t, k, takeDue?_eq_some.mpr ⟨ht, by omega⟩⟩

end Eventful.Clock
