import Eventful.Proofs.Clock
import Eventful.Proofs.Host.Runs
import Eventful.Proofs.Host.Tables

/-
  Eventful.Proofs.Host.Sweep — an advance of a clock, timer by timer.

  An advance takes the timers that are due, one after the other and each time the first,
  also those that callbacks started meanwhile; then it moves the clock. `Sweep` says this
  of callbacks that may do anything to the host, and `advances_iff` that the advances of a
  host are sweeps of what its timers do.

  - `sweep_apart`, `sweep_together`, `advance_split`: to advance to one instant and then to
    another is to advance to the later one. Where the two advances meet nothing is due, so
    nobody sees the clock stand there.
-/

namespace Eventful.Host

open Clock

/-- The host with a clock moved on. -/
def moved (h : Host) (c instant : Nat) : Host := h.setClock c ((h.clock c).moveTo instant)

variable {c a b limit n : Nat} {h h' : Host} {tr : History}

/-! ## A clock that is moved -/

theorem setClock_moved (h : Host) (c instant : Nat) (k : Clock Alarm) :
    (h.moved c instant).setClock c k = h.setClock c k := by
  simp only [moved, setClock, List.set_set]

theorem clock_moved (hc : c < h.clocks.length) (instant : Nat) :
    (h.moved c instant).clock c = (h.clock c).moveTo instant :=
  (clockAt_set _ c hc).trans (if_pos rfl)

theorem moved_of_le (hc : h.clocks.length ≤ c) (instant : Nat) : h.moved c instant = h := by
  simp only [moved, setClock, set_of_le _ hc]

theorem moved_moved (h : Host) (c a b : Nat) : (h.moved c a).moved c b = h.moved c (max a b) := by
  by_cases hc : c < h.clocks.length
  · show (h.moved c a).setClock c (((h.moved c a).clock c).moveTo b) = _
    rw [setClock_moved, clock_moved hc, moveTo_moveTo]
    rfl
  · have hc : h.clocks.length ≤ c := by omega
    rw [moved_of_le hc, moved_of_le hc, moved_of_le hc]

theorem takeDue?_moved (ha : (h.clock c).takeDue? a = none) (b : Nat) :
    ((h.moved c a).clock c).takeDue? b = (h.clock c).takeDue? (max a b) := by
  by_cases hc : c < h.clocks.length
  · rw [clock_moved hc, takeDue?_moveTo ha]
  · have hc : h.clocks.length ≤ c := by omega
    have hnew : h.clock c = .new := clockAt_of_le hc
    rw [moved_of_le hc, hnew]
    rfl

/-! ## Callbacks that may do anything -/

/-- What a timer does: the host it runs in, the host it leaves, and what happens meanwhile. -/
abbrev Callbacks := Timer Alarm → Host → Host → History → Prop

/-- While a timer is due the first one runs; then the clock moves. The number of timers,
    and what happened in them. -/
inductive Sweep (ring : Callbacks) (c limit : Nat) : Host → Nat → Host → History → Prop
  | rest {h : Host} : (h.clock c).takeDue? limit = none → Sweep ring c limit h 0 (h.moved c limit) []
  | next {h h₁ h' : Host} {t : Timer Alarm} {k : Clock Alarm} {n : Nat} {tr tr' : History} :
    (h.clock c).takeDue? limit = some (t, k) → ring t (h.setClock c k) h₁ tr → Sweep ring c limit h₁ n h' tr' →
    Sweep ring c limit h (n + 1) h' (tr' ++ tr)

variable {ring : Callbacks}

theorem takeDue?_left {k : Clock Alarm} (hmax : k.takeDue? (max a b) = none) : k.takeDue? a = none :=
  takeDue?_eq_none.mpr fun t ht => by
    have := takeDue?_eq_none.mp hmax t ht
    omega

/-- A timer due by the later of two instants is due by the first, or else it is the next
    one once the clock stands at the first. -/
theorem takeDue?_max {t : Timer Alarm} {k : Clock Alarm} (hmax : (h.clock c).takeDue? (max a b) = some (t, k)) :
    (h.clock c).takeDue? a = some (t, k) ∨
      (h.clock c).takeDue? a = none ∧ ((h.moved c a).clock c).takeDue? b = some (t, k) ∧ max a b = b := by
  obtain ⟨hfirst, hdue⟩ := takeDue?_eq_some.mp hmax
  by_cases ha : t.due ≤ a
  · exact .inl (takeDue?_eq_some.mpr ⟨hfirst, ha⟩)
  · obtain ⟨-, hle, -⟩ := takeFirst?_eq_some hfirst
    have hnone : (h.clock c).takeDue? a = none := takeDue?_eq_none.mpr fun u hu => by
      have := (hle u hu).due
      omega
    refine .inr ⟨hnone, ?_, by omega⟩
    rw [takeDue?_moved hnone]
    exact hmax

theorem sweep_apart (hs : Sweep ring c (max a b) h n h' tr) :
    ∃ n₁ n₂ h₁ tr₁ tr₂, Sweep ring c a h n₁ h₁ tr₁ ∧ Sweep ring c b h₁ n₂ h' tr₂ ∧ n = n₁ + n₂ ∧ tr = tr₂ ++ tr₁ := by
  induction hs with
  | @rest h hnone =>
    have ha := takeDue?_left hnone
    refine ⟨0, 0, h.moved c a, [], [], .rest ha, ?_, rfl, rfl⟩
    rw [← moved_moved]
    exact .rest ((takeDue?_moved ha b).trans hnone)
  | @next h h₁ h' t k n tr tr' hnext hring hrest ih =>
    rcases takeDue?_max hnext with ha | ⟨ha, hb, hmax⟩
    · obtain ⟨n₁, n₂, h₂, tr₁, tr₂, hs₁, hs₂, rfl, rfl⟩ := ih
      exact ⟨n₁ + 1, n₂, h₂, tr₁ ++ tr, tr₂, .next ha hring hs₁, hs₂, by omega, List.append_assoc _ _ _⟩
    · -- The first advance runs nothing, and the second does all that is left.
      refine ⟨0, n + 1, h.moved c a, [], tr' ++ tr, .rest ha, ?_, by omega, (List.append_nil _).symm⟩
      rw [← setClock_moved h c a k] at hring
      rw [hmax] at hrest
      exact .next hb hring hrest

theorem sweep_together {n₁ n₂ : Nat} {h₁ : Host} {tr₁ tr₂ : History} (hs₁ : Sweep ring c a h n₁ h₁ tr₁)
    (hs₂ : Sweep ring c b h₁ n₂ h' tr₂) : Sweep ring c (max a b) h (n₁ + n₂) h' (tr₂ ++ tr₁) := by
  induction hs₁ with
  | @rest h ha =>
    rw [Nat.zero_add, List.append_nil]
    cases hs₂ with
    | rest hb =>
      rw [moved_moved]
      exact .rest ((takeDue?_moved ha b).symm.trans hb)
    | @next _ h₂ _ t k n tr tr' hb hring hrest =>
      have hmax : (h.clock c).takeDue? (max a b) = some (t, k) := (takeDue?_moved ha b).symm.trans hb
      rw [setClock_moved] at hring
      rcases takeDue?_max hmax with ha' | ⟨-, -, e⟩
      · rw [ha] at ha'
        cases ha'
      · rw [← e] at hrest
        exact .next hmax hring hrest
  | @next h h₂ h₁ t k n tr tr' ha hring _ ih =>
    obtain ⟨hfirst, hdue⟩ := takeDue?_eq_some.mp ha
    have hmax : (h.clock c).takeDue? (max a b) = some (t, k) := takeDue?_eq_some.mpr ⟨hfirst, by omega⟩
    have hn : n + 1 + n₂ = n + n₂ + 1 := by omega
    rw [hn, ← List.append_assoc]
    exact .next hmax hring (ih hs₂)

/-! ## The advances of a host -/

/-- An advance that finds nothing due moves the clock. -/
theorem came_advance_over (hnone : (h.clock c).takeDue? limit = none) :
    (Task.advance c limit).Came h n h' tr ↔
      n = 0 ∧ h' = h.moved c limit ∧ tr = [.ends (.advance c limit) n h', .begins (.advance c limit) h] := by
  have hbody {inner : History} :
      (Task.advance c limit).body.Came h n h' inner ↔ n = 0 ∧ h' = h.moved c limit ∧ inner = [] := by
    unfold Task.body
    rw [came_get, hnone]
    exact came_done
  rw [came_iff]
  constructor
  · rintro ⟨inner, hb, rfl⟩
    obtain ⟨hn, hh, rfl⟩ := hbody.mp hb
    exact ⟨hn, hh, rfl⟩
  · rintro ⟨hn, hh, rfl⟩
    exact ⟨[], hbody.mpr ⟨hn, hh, rfl⟩, rfl⟩

/-- An advance that finds a timer due runs it, and goes on as an advance from there. -/
theorem came_advance_next {t : Timer Alarm} {k : Clock Alarm} (hnext : (h.clock c).takeDue? limit = some (t, k)) :
    (Task.advance c limit).Came h n h' tr ↔
      ∃ h₁ m tr₁ tr₂, (Task.ring c t).Came (h.setClock c k) () h₁ tr₁ ∧ (Task.advance c limit).Came h₁ m h' tr₂ ∧
        n = m + 1 ∧ tr = .ends (.advance c limit) n h' :: (tr₂ ++ tr₁ ++ [.begins (.advance c limit) h]) := by
  have hbody {inner : History} : (Task.advance c limit).body.Came h n h' inner ↔
      ∃ h₁ m tr₁ tr₂, (Task.ring c t).Came (h.setClock c k) () h₁ tr₁ ∧ (Task.advance c limit).Came h₁ m h' tr₂ ∧
        n = m + 1 ∧ inner = tr₂ ++ tr₁ := by
    unfold Task.body
    rw [came_get, hnext]
    constructor
    · intro hc
      obtain ⟨_, h₁, tr₁, _, hring, hrest, rfl⟩ := came_call.mp hc
      obtain ⟨m, h₂, tr₂, tr₃, hadv, hdone, rfl⟩ := came_call.mp hrest
      obtain ⟨rfl, rfl, rfl⟩ := came_done.mp hdone
      exact ⟨h₁, m, tr₁, tr₂, hring, hadv, rfl, rfl⟩
    · rintro ⟨h₁, m, tr₁, tr₂, hring, hadv, rfl, rfl⟩
      apply came_call.mpr
      refine ⟨(), h₁, tr₁, tr₂, hring, came_call.mpr ⟨m, h', tr₂, [], hadv, ?_, rfl⟩, rfl⟩
      exact came_done.mpr ⟨rfl, rfl, rfl⟩
  rw [came_iff]
  constructor
  · rintro ⟨inner, hb, rfl⟩
    obtain ⟨h₁, m, tr₁, tr₂, hring, hadv, hn, rfl⟩ := hbody.mp hb
    exact ⟨h₁, m, tr₁, tr₂, hring, hadv, hn, rfl⟩
  · rintro ⟨h₁, m, tr₁, tr₂, hring, hadv, hn, rfl⟩
    exact ⟨tr₂ ++ tr₁, hbody.mpr ⟨h₁, m, tr₁, tr₂, hring, hadv, hn, rfl⟩, rfl⟩

/-- The moment is the beginning or the end of an advance. -/
def Moment.isAdvance : Moment → Bool
  | .begins (.advance ..) _ => true
  | .ends (.advance ..) _ _ => true
  | _ => false

/-- What was done during advances, without where the advances themselves begin and end. -/
def doings (tr : History) : History := tr.filter fun m => !m.isAdvance

/-- What the timers of a clock do when they ring. -/
def ringing (c : Nat) : Callbacks := fun t h h' ds => ∃ tr, (Task.ring c t).Came h () h' tr ∧ doings tr = ds

/-- An advance comes back with the number of timers that it ran; and what they did, each
    from the host in which it rang. -/
def Advances (c instant : Nat) (h : Host) (n : Nat) (h' : Host) (ds : History) : Prop :=
  ∃ tr, (Task.advance c instant).Came h n h' tr ∧ doings tr = ds

theorem advances_of_sweep {ds : History} (hs : Sweep (ringing c) c limit h n h' ds) : Advances c limit h n h' ds := by
  induction hs with
  | rest hnone => exact ⟨_, (came_advance_over hnone).mpr ⟨rfl, rfl, rfl⟩, rfl⟩
  | next hnext hring _ ih =>
    obtain ⟨tr₁, hring, rfl⟩ := hring
    obtain ⟨tr₂, hadv, rfl⟩ := ih
    refine ⟨_, (came_advance_next hnext).mpr ⟨_, _, tr₁, tr₂, hring, hadv, rfl, rfl⟩, ?_⟩
    simp [doings, Moment.isAdvance]

theorem sweep_of_came (hc : (Task.advance c limit).Came h n h' tr) : Sweep (ringing c) c limit h n h' (doings tr) := by
  -- The advance that goes on after a timer has the shorter record.
  induction hlen : tr.length using Nat.strongRecOn generalizing h n tr with
  | ind len ih =>
    cases hdue : (h.clock c).takeDue? limit with
    | none =>
      obtain ⟨rfl, rfl, rfl⟩ := (came_advance_over hdue).mp hc
      exact .rest hdue
    | some p =>
      obtain ⟨t, k⟩ := p
      obtain ⟨h₁, m, tr₁, tr₂, hring, hadv, rfl, rfl⟩ := (came_advance_next hdue).mp hc
      have hlt : tr₂.length < len := by
        rw [← hlen]
        simp only [List.length_cons, List.length_append]
        omega
      have hds : doings (.ends (.advance c limit) (m + 1) h' :: (tr₂ ++ tr₁ ++ [.begins (.advance c limit) h])) =
          doings tr₂ ++ doings tr₁ := by
        simp [doings, Moment.isAdvance]
      rw [hds]
      exact .next hdue ⟨tr₁, hring, rfl⟩ (ih _ hlt hadv rfl)

theorem advances_iff {ds : History} : Advances c limit h n h' ds ↔ Sweep (ringing c) c limit h n h' ds := by
  constructor
  · rintro ⟨tr, hc, rfl⟩
    exact sweep_of_came hc
  · exact advances_of_sweep

/-- To advance a clock to the later of two instants is to advance it to the one and then
    to the other: either way of doing it comes back if the other does, the same timers run
    in the same order, each in the same host and thus at the same time, with all that they
    do, the host comes out the same, and the numbers add up. -/
theorem advance_split (c a b : Nat) (h : Host) (n : Nat) (h' : Host) (ds : History) :
    Advances c (max a b) h n h' ds ↔
      ∃ n₁ n₂ h₁ ds₁ ds₂, Advances c a h n₁ h₁ ds₁ ∧ Advances c b h₁ n₂ h' ds₂ ∧ n = n₁ + n₂ ∧ ds = ds₂ ++ ds₁ := by
  simp only [advances_iff]
  constructor
  · exact sweep_apart
  · rintro ⟨n₁, n₂, h₁, ds₁, ds₂, hs₁, hs₂, rfl, rfl⟩
    exact sweep_together hs₁ hs₂

end Eventful.Host
