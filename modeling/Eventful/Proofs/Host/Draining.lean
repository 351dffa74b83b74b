import Eventful.Proofs.Host.Calls
import Eventful.Proofs.Host.Timekeeping

/-
  Eventful.Proofs.Host.Draining — timers that run until none is left.

  To run a number of timers is to take the first one of the clock that often
  (`Drawn`), whatever the callbacks do to the clock meanwhile. If the clock runs out of
  timers before, the same was done as by an advance to the instant at which the clock then
  stands: a timer that was taken was due by then, for no callback moves a clock back
  (`later_of_ring`), and nothing is left that the advance would find.

  - `runTimers_is_advance`: what was run, and which advance it was.
-/

namespace Eventful.Clock

variable {κ : Type} {c k : Clock κ} {t : Timer κ}

/-! ## Two ways to choose -/

/-- The instant of the timer that is due soonest. -/
def soonest? (c : Clock κ) : Option Nat := (c.timers.map (·.due)).min?

/-- The timer is one of the pending ones, and the smallest by its instant and then its id. -/
def Smallest (t : Timer κ) (c : Clock κ) : Prop := t ∈ c.timers ∧ ∀ u ∈ c.timers, Leq t u

theorem soonest?_eq_some (ht : Smallest t c) : c.soonest? = some t.due := by
  refine List.min?_eq_some_iff.mpr ⟨List.mem_map_of_mem ht.1, ?_⟩
  rintro _ hdue
  obtain ⟨u, hu, rfl⟩ := List.mem_map.mp hdue
  exact (ht.2 u hu).due

/-- To ask for the soonest instant and to take what is due by it is to take the first timer. -/
theorem takeFirst?_eq_soonest (c : Clock κ) : c.takeFirst? = c.soonest?.bind c.takeDue? := by
  cases h : c.takeFirst? with
  | none => simp [soonest?, takeFirst?_eq_none.mp h]
  | some p =>
    obtain ⟨t, k⟩ := p
    obtain ⟨hmem, hleast, -⟩ := takeFirst?_eq_some h
    rw [soonest?_eq_some ⟨hmem, hleast⟩]
    exact (takeDue?_eq_some.mpr ⟨h, Nat.le_refl _⟩).symm

end Eventful.Clock

namespace Eventful.Host

open Clock

variable {α : Type} {c limit n : Nat} {h h' : Host} {tr : History} {cs : List Call} {t : Timer Alarm} {k : Clock Alarm}

/-! ## What is run -/

/-- Timers were called one after the other, each of them the smallest of its clock, which
    was moved to its instant. -/
inductive Drawn (c : Nat) : Host → List Call → Host → Prop
  | nil (h : Host) : Drawn c h [] h
  | cons {h h₁ h' : Host} {t : Timer Alarm} {k : Clock Alarm} {cs : List Call} : Smallest t (h.clock c) →
    k = { h.clock c with now := max (h.clock c).now t.due, timers := (h.clock c).timers.filter (·.id != t.id) } →
    Drawn c h₁ cs h' → Drawn c h (⟨.ring c t, h.setClock c k, (), h₁⟩ :: cs) h'

theorem drawn_of_gives (hg : (runTimers c limit).Gives h cs n h') : Drawn c h cs h' ∧ n = cs.length ∧ n ≤ limit := by
  induction limit generalizing h cs n with
  | zero =>
    obtain ⟨rfl, rfl, rfl⟩ := hg
    exact ⟨.nil _, rfl, Nat.le_refl _⟩
  | succ limit ih =>
    rw [runTimers, gives_get] at hg
    split at hg
    · obtain ⟨rfl, rfl, rfl⟩ := hg
      exact ⟨.nil _, rfl, Nat.zero_le _⟩
    · rename_i t k hfirst
      obtain ⟨⟨⟩, h₁, rest, rfl, hrest⟩ := gives_call.mp (gives_first.mp hg)
      obtain ⟨m, h₂, cs₁, cs₂, rfl, hrun, rfl, rfl, rfl⟩ := gives_bind.mp hrest
      obtain ⟨hdrawn, rfl, hle⟩ := ih hrun
      obtain ⟨hmem, hleast, hk⟩ := takeFirst?_eq_some hfirst
      rw [List.append_nil]
      exact ⟨.cons ⟨hmem, hleast⟩ hk hdrawn, rfl, Nat.succ_le_succ hle⟩

/-! ## Runs that came back -/

theorem came_runTimers_over (hnone : (h.clock c).takeFirst? = none) :
    (runTimers c (limit + 1)).Came h n h' tr ↔ n = 0 ∧ h' = h ∧ tr = [] := by
  rw [runTimers, came_get, hnone]
  exact came_done

theorem came_runTimers_next (hfirst : (h.clock c).takeFirst? = some (t, k)) :
    (runTimers c (limit + 1)).Came h n h' tr ↔
      ∃ h₁ m tr₁ tr₂, (Task.ring c t).Came (h.setClock c k) () h₁ tr₁ ∧ (runTimers c limit).Came h₁ m h' tr₂ ∧
        n = m + 1 ∧ tr = tr₂ ++ tr₁ := by
  have hrest {h₁ : Host} {tr₂ : History} : (runTimers c limit >>= fun m => pure (m + 1)).Came h₁ n h' tr₂ ↔
      ∃ m, (runTimers c limit).Came h₁ m h' tr₂ ∧ n = m + 1 := by
    rw [came_bind]
    constructor
    · rintro ⟨m, h₂, tr₂, _, hrun, hdone, rfl⟩
      obtain ⟨rfl, rfl, rfl⟩ := came_done.mp hdone
      exact ⟨m, hrun, rfl⟩
    · rintro ⟨m, hrun, rfl⟩
      exact ⟨m, h', tr₂, [], hrun, came_done.mpr ⟨rfl, rfl, rfl⟩, rfl⟩
  rw [runTimers, came_get, hfirst]
  constructor
  · intro hc
    obtain ⟨_, h₁, tr₁, tr₂, hring, hafter, rfl⟩ := came_call.mp (came_first.mp hc)
    obtain ⟨m, hrun, rfl⟩ := hrest.mp hafter
    exact ⟨h₁, m, tr₁, tr₂, hring, hrun, rfl, rfl⟩
  · rintro ⟨h₁, m, tr₁, tr₂, hring, hrun, rfl, rfl⟩
    exact came_first.mpr (came_call.mpr ⟨(), h₁, tr₁, tr₂, hring, hrest.mpr ⟨m, hrun, rfl⟩, rfl⟩)

/-- What strokes, rings and passing time keep is kept by a procedure that came back. -/
theorem Proc.Came.lasts {p : Proc α} {a : α} {I : Host → Prop} (hc : p.Came h a h' tr) (hp : Strides p)
    (hk : ∀ tr, Lasts I tr) (hi : I h) : I h' := by
  have hu : Under h h' tr := hc.meets (striding_holds h) trivial (hp h h [] ⟨trivial, .rfl h⟩) fun _ _ => trivial
  exact (hk []).strokes hu.strokes (hu.chained.reached (hk tr) hi)

/-- A callback leaves every clock later than it found it. -/
theorem later_of_ring {c' : Nat} (hc : (Task.ring c' t).Came h () h' tr) (c : Nat) : Later (h.clock c) (h'.clock c) := by
  obtain ⟨inner, hbody, -⟩ := came_iff.mp hc
  exact hbody.lasts (strides_body _ fun _ => rfl) (lasts_later (h.clock c) c) (.rfl _)

theorem moved_now (h : Host) (c : Nat) : h.moved c (h.clock c).now = h := by
  have hstays : (h.clock c).moveTo (h.clock c).now = h.clock c := by
    unfold moveTo
    rw [Nat.max_self]
  by_cases hc : c < h.clocks.length
  · have hclock : h.clock c = h.clocks[c] := by
      unfold clock
      rw [List.getElem?_eq_getElem hc, Option.getD_some]
    unfold moved
    rw [hstays, setClock, hclock, List.set_getElem_self]
  · exact moved_of_le (by omega) _

/-- A run that ends before its limit ends for want of timers, and it is an advance. -/
theorem sweep_of_runTimers (hc : (runTimers c limit).Came h n h' tr) (hlt : n < limit) :
    (h'.clock c).timers = [] ∧ (h.clock c).now ≤ (h'.clock c).now ∧
      Sweep (ringing c) c (h'.clock c).now h n h' (doings tr) := by
  induction limit generalizing h n tr with
  | zero => omega
  | succ limit ih =>
    cases hfirst : (h.clock c).takeFirst? with
    | none =>
      obtain ⟨rfl, rfl, rfl⟩ := (came_runTimers_over hfirst).mp hc
      have hnone : (h'.clock c).timers = [] := takeFirst?_eq_none.mp hfirst
      have hover : (h'.clock c).takeDue? (h'.clock c).now = none := by
        rw [takeDue?_eq_none, hnone]
        exact List.forall_mem_nil _
      have hrest : Sweep (ringing c) c (h'.clock c).now h' 0 _ [] := .rest hover
      rw [moved_now] at hrest
      exact ⟨hnone, Nat.le_refl _, hrest⟩
    | some p =>
      obtain ⟨t, k⟩ := p
      obtain ⟨h₁, m, tr₁, tr₂, hring, hrun, rfl, rfl⟩ := (came_runTimers_next hfirst).mp hc
      obtain ⟨hnone, hmoves, hsweep⟩ := ih hrun (by omega)
      obtain ⟨hmem, -, hk⟩ := takeFirst?_eq_some hfirst
      have hthere : c < h.clocks.length := clock_there (isPending_of_mem hmem)
      have hclock : (h.setClock c k).clock c = k := (clockAt_set k c hthere).trans (if_pos rfl)
      have hlater : k.now ≤ (h₁.clock c).now := hclock ▸ (later_of_ring hring c).now
      have hnow : k.now = max (h.clock c).now t.due := by rw [hk]
      have hdue : (h.clock c).takeDue? (h'.clock c).now = some (t, k) := takeDue?_eq_some.mpr ⟨hfirst, by omega⟩
      have hdoings : doings (tr₂ ++ tr₁) = doings tr₂ ++ doings tr₁ := List.filter_append ..
      rw [hdoings]
      exact ⟨hnone, by omega, .next hdue ⟨tr₁, hring, rfl⟩ hsweep⟩

/-- However a run chooses the next timer, by asking for the soonest instant first or not,
    it calls at most as many timers as it may, each of them the smallest by instant and id
    when its turn comes, whatever callbacks do. If it came back and called fewer, no timer
    is pending, and it did what an advance to the instant at which the clock stands then
    does from the same host: the same timers ring in the same hosts, and thus at the same
    readings, with all that they do, and the host comes out the same. -/
theorem runTimers_is_advance (c limit : Nat) (h : Host) :
    (∀ k : Clock Alarm, k.takeFirst? = k.soonest?.bind k.takeDue?) ∧
    (∀ cs n h', (runTimers c limit).Gives h cs n h' → Drawn c h cs h' ∧ n = cs.length ∧ n ≤ limit) ∧
    ∀ n h' tr, (runTimers c limit).Came h n h' tr → n < limit →
      (h'.clock c).timers = [] ∧ Advances c (h'.clock c).now h n h' (doings tr) := by
  refine ⟨takeFirst?_eq_soonest, fun cs n h' hg => drawn_of_gives hg, fun n h' tr hc hlt => ?_⟩
  obtain ⟨hnone, -, hsweep⟩ := sweep_of_runTimers hc hlt
  exact ⟨hnone, advances_of_sweep hsweep⟩

/-- The second timer starts one that is due at once and runs it by an advance of its own;
    the third one is cleared. -/
def nestedStarts : List Action :=
  [.timeout none 10 (.mk "late" []),
    .timeout none 5 (.mk "early" [.timeout none 0 (.mk "at once" []), .advance none 2]),
    .timeout none 7 (.mk "never" []), .clear none 3]

/-- The host in which they wait. -/
def startedTimers : Host := (play 1 nestedStarts (.new "" .browser []) []).1.getD (.new "" .browser [])

theorem nestedStarts_is_advance : ∃ cs h' tr, (runTimers 0 5).Came startedTimers 2 h' tr ∧
    (Drawn 0 startedTimers cs h' ∧ cs.length = 2) ∧ (h'.clock 0).now = 10 ∧ (h'.clock 0).timers = [] ∧
      Advances 0 10 startedTimers 2 h' (doings tr) := by
  obtain ⟨-, hdraws, hadvances⟩ := runTimers_is_advance 0 5 startedTimers
  have hcame : (runTimers 0 5).Came startedTimers 2 _ _ := ⟨5, rfl⟩
  have hrun : (runTimers 0 5).run 5 startedTimers = some (2, _) := rfl
  obtain ⟨cs, hg, -⟩ := gives_of_run hrun
  obtain ⟨hdrawn, hlength, -⟩ := hdraws cs 2 _ hg
  obtain ⟨hnone, hadvance⟩ := hadvances 2 _ _ hcame (by decide)
  exact ⟨cs, _, _, hcame, ⟨hdrawn, hlength.symm⟩, rfl, hnone, hadvance⟩

end Eventful.Host
