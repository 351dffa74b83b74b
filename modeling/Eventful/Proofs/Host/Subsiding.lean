import Eventful.Proofs.Host.Sweep
import Mathlib.Data.Multiset.DershowitzManna

/-
  Eventful.Proofs.Host.Subsiding — advances that come to an end.

  An advance also runs the timers that its callbacks start, if they fall due in time, so
  the timers that are still to run may become more with every callback. But a timer that
  is started when another one runs is due later than that one. So the times that the due
  timers leave until the end of the advance (`Clock.slack`) go down in the order of
  multisets: one is taken out, and those that come in are smaller (`slack_lt`). That needs
  the end to lie before the last instant, where instants no longer grow.

  - `advance_returns`: an advance comes back if every callback that it comes to run does,
    and only cancels timers and starts timers that wait a millisecond or longer.
-/

namespace Eventful.Clock

variable {κ : Type} {c c' k k' : Clock κ} {t : Timer κ} {limit : Nat}

/-! ## One callback -/

/-- Timers were started that wait a millisecond or longer, and timers were cancelled; the
    clock was not moved. -/
inductive Rearmed : Clock κ → Clock κ → Prop
  | refl (c : Clock κ) : Rearmed c c
  | start {c c' : Clock κ} {delay : Nat} (a : κ) : Rearmed c c' → 1 ≤ delay → delay < UInt64.size →
    Rearmed c (c'.start delay a).2
  | cancel {c c' : Clock κ} (id : Nat) : Rearmed c c' → Rearmed c (c'.cancel id).2

/-- Some of the timers are still there, and the new ones are due later than now, unless now
    is the last instant. -/
theorem Rearmed.timers (hr : Rearmed c c') :
    c'.now = c.now ∧ ∃ kept started, c'.timers = kept ++ started ∧ kept.Sublist c.timers ∧
      ∀ t ∈ started, min (c.now + 1) lastInstant ≤ t.due := by
  induction hr with
  | refl => exact ⟨rfl, _, [], (List.append_nil _).symm, .refl _, List.forall_mem_nil _⟩
  | @start c' delay a _ hle hlt ih =>
    obtain ⟨hnow, kept, started, htimers, hkept, hlater⟩ := ih
    refine ⟨hnow, kept, started ++ [⟨c'.lastId + 1, c'.instant delay, a⟩], ?_, hkept, ?_⟩
    · rw [start_timers, htimers, List.append_assoc]
    · refine List.forall_mem_append.mpr ⟨hlater, List.forall_mem_singleton.mpr ?_⟩
      show _ ≤ min (c'.now + delay % UInt64.size) lastInstant
      rw [hnow, Nat.mod_eq_of_lt hlt]
      omega
  | cancel id _ ih =>
    obtain ⟨hnow, kept, started, htimers, hkept, hlater⟩ := ih
    refine ⟨hnow, kept.filter (·.id != id), started.filter (·.id != id), ?_, List.filter_sublist.trans hkept,
      fun t ht => hlater t (List.mem_filter.mp ht).1⟩
    rw [cancel_timers, htimers, List.filter_append]

/-! ## What is still to run -/

/-- The times that timers leave until an instant, those that are due by it. -/
def slackOf (limit : Nat) (ts : Multiset (Timer κ)) : Multiset Nat := (ts.filter (·.due ≤ limit)).map (limit - ·.due)

def slack (limit : Nat) (c : Clock κ) : Multiset Nat := slackOf limit (.ofList c.timers)

theorem slackOf_mono {ts us : Multiset (Timer κ)} (h : ts ≤ us) : slackOf limit ts ≤ slackOf limit us :=
  Multiset.map_le_map (Multiset.filter_le_filter _ h)

theorem slackOf_add (ts us : Multiset (Timer κ)) : slackOf limit (ts + us) = slackOf limit ts + slackOf limit us := by
  simp only [slackOf, Multiset.filter_add, Multiset.map_add]

theorem slackOf_singleton (ht : t.due ≤ limit) : slackOf limit {t} = {limit - t.due} := by
  simp only [slackOf, Multiset.filter_singleton, if_pos ht, Multiset.map_singleton]

/-- The timer that is taken, and what is kept of those that are not, were there before. -/
theorem taken_add_kept {kept : List (Timer κ)} (ht : t ∈ c.timers) (hk : kept.Sublist (c.timers.filter (·.id != t.id))) :
    Multiset.ofList kept + {t} ≤ Multiset.ofList c.timers := by
  have hsplit : (c.timers.filter (·.id != t.id) ++ c.timers.filter (!·.id != t.id)).Perm c.timers :=
    List.filter_append_perm _ _
  rw [← Multiset.coe_eq_coe.mpr hsplit, ← Multiset.coe_add]
  refine add_le_add (Multiset.coe_le.mpr hk.subperm) (Multiset.singleton_le.mpr ?_)
  exact Multiset.mem_coe.mpr (List.mem_filter.mpr ⟨ht, by simp⟩)

/-- A timer runs: it is no longer due, and what its callback started is due later than it. -/
theorem slack_lt (hlimit : limit < lastInstant) (ht : c.takeDue? limit = some (t, k)) (hr : Rearmed k k') :
    (k'.slack limit).IsDershowitzMannaLT (c.slack limit) := by
  obtain ⟨hfirst, hdue⟩ := takeDue?_eq_some.mp ht
  obtain ⟨hmem, -, rfl⟩ := takeFirst?_eq_some hfirst
  obtain ⟨-, kept, started, htimers, hkept, hlater⟩ := hr.timers
  have hbefore : slackOf limit (.ofList kept) + {limit - t.due} ≤ c.slack limit := by
    rw [← slackOf_singleton hdue, ← slackOf_add]
    exact slackOf_mono (taken_add_kept hmem hkept)
  have hin : limit - t.due ∈ c.slack limit - slackOf limit (.ofList kept) :=
    Multiset.singleton_le.mp (le_tsub_of_add_le_left hbefore)
  refine ⟨slackOf limit (.ofList kept), slackOf limit (.ofList started), c.slack limit - slackOf limit (.ofList kept), ?_, ?_, ?_, ?_⟩
  · exact fun hempty => Multiset.notMem_zero _ (hempty ▸ hin)
  · rw [slack, htimers, ← Multiset.coe_add, slackOf_add]
  · exact (add_tsub_cancel_of_le ((Multiset.le_add_right _ _).trans hbefore)).symm
  · intro y hy
    obtain ⟨u, hu, rfl⟩ := Multiset.mem_map.mp hy
    obtain ⟨hu, hudue⟩ := Multiset.mem_filter.mp hu
    have hafter := hlater u (Multiset.mem_coe.mp hu)
    simp only at hafter
    exact ⟨_, hin, by omega⟩

end Eventful.Clock

namespace Eventful.Host

open Clock

variable {ring : Callbacks} {c limit n : Nat} {h h' h₁ h₂ : Host} {tr : History} {t : Timer Alarm} {k : Clock Alarm}

/-! ## An advance -/

/-- The host after some of the timers of an advance. -/
inductive Underway (ring : Callbacks) (c limit : Nat) : Host → Host → Prop
  | refl (h : Host) : Underway ring c limit h h
  | next {h h₁ h₂ : Host} {t : Timer Alarm} {k : Clock Alarm} {tr : History} : (h.clock c).takeDue? limit = some (t, k) →
    ring t (h.setClock c k) h₁ tr → Underway ring c limit h₁ h₂ → Underway ring c limit h h₂

/-- Every callback that an advance comes to run comes back, and what it does to the clock is
    to start timers that wait a millisecond or longer, and to cancel timers. -/
def Tame (ring : Callbacks) (c limit : Nat) (h : Host) : Prop :=
  ∀ h₁ t k, Underway ring c limit h h₁ → (h₁.clock c).takeDue? limit = some (t, k) →
    ∃ h₂ tr, ring t (h₁.setClock c k) h₂ tr ∧ Rearmed k (h₂.clock c)

theorem Tame.after (ht : Tame ring c limit h) (hdue : (h.clock c).takeDue? limit = some (t, k))
    (hring : ring t (h.setClock c k) h₁ tr) : Tame ring c limit h₁ := fun h₂ t' k' hu => ht h₂ t' k' (.next hdue hring hu)

theorem tame_over (hnone : (h.clock c).takeDue? limit = none) : Tame ring c limit h := by
  intro h₁ t k hu hdue
  cases hu with
  | refl =>
    rw [hnone] at hdue
    cases hdue
  | next hfirst =>
    rw [hnone] at hfirst
    cases hfirst

/-- A callback does one thing only, so what comes after it decides. -/
theorem tame_next (hdue : (h.clock c).takeDue? limit = some (t, k)) (hc : (Task.ring c t).Came (h.setClock c k) () h₁ tr)
    (hr : Rearmed k (h₁.clock c)) (hrest : Tame (ringing c) c limit h₁) : Tame (ringing c) c limit h := by
  intro h₂ t' k' hu hdue'
  cases hu with
  | refl =>
    obtain ⟨rfl, rfl⟩ := Prod.mk.inj (Option.some.inj (hdue.symm.trans hdue'))
    exact ⟨h₁, _, ⟨tr, hc, rfl⟩, hr⟩
  | next hfirst hring hu =>
    obtain ⟨rfl, rfl⟩ := Prod.mk.inj (Option.some.inj (hdue.symm.trans hfirst))
    obtain ⟨tr', hc', -⟩ := hring
    obtain ⟨-, rfl, -⟩ := hc.unique hc'
    exact hrest h₂ t' k' hu hdue'

/-- Callbacks that are tame let an advance come back. -/
theorem sweep_returns (hlimit : limit < lastInstant) (ht : Tame ring c limit h) :
    ∃ n h' tr, Sweep ring c limit h n h' tr := by
  induction hslack : (h.clock c).slack limit using (Multiset.wellFounded_isDershowitzMannaLT (α := Nat)).induction generalizing h with
  | _ s ih =>
    cases hdue : (h.clock c).takeDue? limit with
    | none => exact ⟨0, _, [], .rest hdue⟩
    | some p =>
      obtain ⟨t, k⟩ := p
      obtain ⟨h₁, tr, hring, hrearmed⟩ := ht h t k (.refl h) hdue
      obtain ⟨n, h', tr', hrest⟩ := ih _ (hslack ▸ slack_lt hlimit hdue hrearmed) (ht.after hdue hring) rfl
      exact ⟨n + 1, h', tr' ++ tr, .next hdue hring hrest⟩

/-- When an advance comes back nothing is due any more. -/
theorem over_of_sweep (hs : Sweep ring c limit h n h' tr) : ∀ u ∈ (h'.clock c).timers, limit < u.due := by
  induction hs with
  | next _ _ _ ih => exact ih
  | @rest h hnone =>
    by_cases hc : c < h.clocks.length
    · rw [clock_moved hc]
      show ∀ u ∈ (h.clock c).timers, _
      exact takeDue?_eq_none.mp hnone
    · rw [moved_of_le (by omega)]
      exact takeDue?_eq_none.mp hnone

/-- An advance to an instant before the last one comes back, and leaves no timer that is due
    by then, whoever started it, if every callback that it comes to run comes back and does
    no more to the clock than to cancel timers and to start timers that wait a millisecond
    or longer, and less than 2^64. -/
theorem advance_returns (c limit : Nat) (hlimit : limit < 2 ^ 64 - 1) (h : Host) (ht : Tame (ringing c) c limit h) :
    ∃ n h' tr, (Task.advance c limit).Came h n h' tr ∧ ∀ u ∈ (h'.clock c).timers, limit < u.due := by
  obtain ⟨n, h', _, hs⟩ := sweep_returns hlimit ht
  obtain ⟨tr, hcame, -⟩ := advances_of_sweep hs
  exact ⟨n, h', tr, hcame, over_of_sweep hs⟩

/-- A timer dispatches an event whose listener starts the next such timer, and so on for
    good. -/
def recurring : List Action :=
  let tick : Action := .dispatch .document (.event (.custom "tick" none))
  [.listen .document "tick" .default (.mk "rearm" [.timeout none 2 (.mk "later" [tick])]),
    .timeout none 1 (.mk "first" [tick])]

/-- The host in which the first of them waits. -/
def tickingHost : Host := (play 1 recurring (.new "" .browser []) []).1.getD (.new "" .browser [])

theorem recurring_returns : Tame (ringing 0) 0 5 tickingHost ∧
    ∃ n h' tr, (Task.advance 0 5).Came tickingHost n h' tr ∧ ∀ u ∈ (h'.clock 0).timers, 5 < u.due := by
  have htame : Tame (ringing 0) 0 5 tickingHost := by
    refine tame_next rfl ⟨9, rfl⟩ (.start _ (.refl _) (by decide) (by decide)) ?_
    refine tame_next rfl ⟨9, rfl⟩ (.start _ (.refl _) (by decide) (by decide)) ?_
    refine tame_next rfl ⟨9, rfl⟩ (.start _ (.refl _) (by decide) (by decide)) ?_
    exact tame_over rfl
  exact ⟨htame, advance_returns 0 5 (by decide) tickingHost htame⟩

end Eventful.Host
