import Eventful.Proofs.Host.Passage

/-
  Eventful.Proofs.Host.Timekeeping — what the clocks of a host show in the course of a session.

  A clock is changed by starting a timer, by cancelling one, by taking the first, and by an
  advance that finds nothing due. So it only ever comes to a later clock, and as long as
  the instants that are asked for count in 64 bits it stays in time (`Clock.Later`,
  `Clock.InTime`). Callbacks may start and cancel timers and advance the clock themselves.

  - `session_timekeeping`: at every moment of a session no timer is overdue; a timer rings
    at its instant and once, in the order of instants and ids, and not after it was
    cancelled; the time until the next timer is what an advance needs to run it.
-/

namespace Eventful.Host

open Clock Page

variable {start h h' : Host} {tr later earlier : History} {m : Moment} {c : Nat}
  {t t' : Timer Alarm}

/-! ## One clock -/

theorem clock_setClock (h : Host) (c : Nat) (k : Clock Alarm) (c' : Nat) :
    (h.setClock c k).clock c' = h.clock c' ∨ (c' = c ∧ (h.setClock c k).clock c' = k) := by
  by_cases hc : c < h.clocks.length
  · have hset : (h.setClock c k).clock c' = if c = c' then k else h.clock c' := clockAt_set k c' hc
    by_cases e : c = c'
    · exact .inr ⟨e.symm, by rw [hset, if_pos e]⟩
    · exact .inl (by rw [hset, if_neg e])
  · refine .inl ?_
    show clockAt (h.clocks.set c k) c' = _
    rw [set_of_le k (by omega)]
    rfl

/-- What a stroke does to a clock. -/
theorem clock_stroke (hs : Stroke h h') (c : Nat) :
    h'.clock c = h.clock c ∨ (∃ delay a, h'.clock c = ((h.clock c).start delay a).2) ∨
      ∃ id, h'.clock c = ((h.clock c).cancel id).2 := by
  cases hs with
  | aside ha => exact .inl (congrArg (clockAt · c) ha.clocks)
  | start c₀ delay a =>
    rcases clock_setClock h c₀ ((h.clock c₀).start delay a).2 c with e | ⟨rfl, e⟩
    · exact .inl e
    · exact .inr (.inl ⟨delay, a, e⟩)
  | cancel c₀ id =>
    rcases clock_setClock h c₀ ((h.clock c₀).cancel id).2 c with e | ⟨rfl, e⟩
    · exact .inl e
    · exact .inr (.inr ⟨id, e⟩)
  | clock => exact .inl (clockAt_append h.clocks c)
  | observe | disconnect | runtime | enrol | conclude => exact .inl rfl

/-- What holds of a clock and is kept by all that is done to it. -/
theorem lasts_clock {P : Clock Alarm → Prop} (hstart : ∀ k delay a, P k → P (k.start delay a).2)
    (hcancel : ∀ k id, P k → P (k.cancel id).2) (htake : ∀ k k' t, k.takeFirst? = some (t, k') → P k → P k')
    (hpass : ∀ h instant, .begins (.advance c instant) h ∈ tr → (h.clock c).takeDue? instant = none → P (h.clock c) →
      P ((h.clock c).moveTo instant)) :
    Lasts (fun h => P (h.clock c)) tr where
  stroke {h h'} hs hp := by
    rcases clock_stroke hs c with e | ⟨delay, a, e⟩ | ⟨id, e⟩ <;> rw [e]
    · exact hp
    · exact hstart _ _ _ hp
    · exact hcancel _ _ hp
  ring {h c₀ t k} ht hp := by
    rcases clock_setClock h c₀ k c with e | ⟨rfl, e⟩ <;> rw [e]
    · exact hp
    · exact htake _ _ _ ht hp
  pass {h c₀ instant} hm hnone hp := by
    rcases clock_setClock h c₀ ((h.clock c₀).moveTo instant) c with e | ⟨rfl, e⟩
    · exact (congrArg P e).mpr hp
    · exact (congrArg P e).mpr (hpass _ _ hm hnone hp)

theorem lasts_later (k : Clock Alarm) (c : Nat) (tr : History) : Lasts (fun h => Later k (h.clock c)) tr :=
  lasts_clock (fun _ _ _ hl => hl.trans (later_start _ _ _)) (fun _ _ hl => hl.trans (later_cancel _ _))
    (fun _ _ _ ht hl => hl.trans (later_takeFirst ht)) fun _ _ _ _ hl => hl.trans (later_moveTo _ _)

/-- An advance of the clock is to an instant that counts in 64 bits. -/
def Moment.Counts (c : Nat) : Moment → Prop
  | .begins (.advance c' instant) _ => c' = c → instant ≤ lastInstant
  | _ => True

theorem lasts_inTime (hf : ∀ m ∈ tr, m.Counts c) : Lasts (fun h => InTime (h.clock c)) tr :=
  lasts_clock (fun _ _ _ hk => hk.start _ _) (fun _ _ hk => hk.cancel _) (fun _ _ _ ht hk => hk.takeFirst ht)
    fun _ _ hm hnone hk => hk.moveTo (hf _ hm rfl) hnone

/-- Where a history leaves off, a clock is later than at all moments before. -/
theorem later_reached (hc : Chained start tr) (c : Nat) (hm : m ∈ tr) :
    Later (m.host.clock c) ((reached start tr).clock c) :=
  hc.since (R := fun h h' => Later (h.clock c) (h'.clock c)) (fun _ => .rfl _)
    (fun h => lasts_later (h.clock c) c tr) m hm

/-! ## Ringing -/

theorem clock_there {id : Nat} (hp : (h.clock c).isPending id = true) : c < h.clocks.length := by
  by_cases hc : c < h.clocks.length
  · exact hc
  · have hnew : h.clock c = .new := clockAt_of_le (by omega)
    rw [hnew] at hp
    cases hp

/-- A timer that rings was the first of its clock, which was later than where the history
    had left off. -/
theorem taken_of_ring (hl : Leads start tr (.begins (.ring c t) h)) :
    ∃ h₀ k, Strokes (reached start tr) h₀ ∧ Later ((reached start tr).clock c) (h₀.clock c) ∧
      (h₀.clock c).takeFirst? = some (t, k) ∧ h.clock c = k := by
  cases hl with
  | strokes _ hring => cases hring
  | @ring h₀ _ _ k hs ht =>
    have hc := clock_there (isPending_of_mem (takeFirst?_eq_some ht).1)
    exact ⟨h₀, k, hs, (lasts_later _ c tr).strokes hs (.rfl _), ht, (clockAt_set k c hc).trans (if_pos rfl)⟩

theorem inTime_of_ring (hc : Chained start (.begins (.ring c t) h :: tr)) (hf : ∀ m ∈ tr, m.Counts c)
    (hi : InTime (start.clock c)) :
    ∃ k₀ k, InTime k₀ ∧ Later ((reached start tr).clock c) k₀ ∧ k₀.takeFirst? = some (t, k) ∧ h.clock c = k := by
  obtain ⟨h₀, k, hs, hl, ht, e⟩ := taken_of_ring hc.1
  have hk := lasts_inTime hf
  exact ⟨_, k, hk.strokes hs (hc.2.reached hk hi), hl, ht, e⟩

/-- Rings come in the order of their instants and ids, and no timer rings twice. -/
theorem rings_in_order (hc : Chained start (.begins (.ring c t) h :: tr)) (hf : ∀ m ∈ tr, m.Counts c)
    (hi : InTime (start.clock c)) (hm : .begins (.ring c t') h' ∈ tr) : Timer.before t' t = true ∧ t'.id ≠ t.id := by
  obtain ⟨k₀, k, -, hl, ht, -⟩ := inTime_of_ring hc hf hi
  have hlater := (later_reached hc.2 c hm).trans hl
  -- The ring before was of the first timer of its time.
  obtain ⟨later, earlier, rfl⟩ := List.append_of_mem hm
  have hf' : ∀ m ∈ earlier, m.Counts c := fun m hm => hf m (List.mem_append_right _ (List.mem_cons_of_mem _ hm))
  obtain ⟨k₀', k', hk', -, ht', e⟩ := inTime_of_ring hc.2.split hf' hi
  rw [show (Moment.begins (.ring c t') h').host.clock c = k' from e] at hlater
  obtain ⟨hgone, hid⟩ := hk'.taken ht'
  exact ⟨before_takeFirst hk' ht' hlater ht, fun e => hlater.gone hid hgone t (takeFirst?_eq_some ht).1 e.symm⟩

/-- A timer that is not pending rings no more. -/
theorem silent_if_gone (hc : Chained start (later ++ m :: earlier)) {id : Nat} (hid : id ≤ (m.host.clock c).lastId)
    (hgone : (m.host.clock c).isPending id = false) (hm : .begins (.ring c t) h ∈ later) : t.id ≠ id := by
  obtain ⟨later', between, rfl⟩ := List.append_of_mem hm
  rw [List.append_assoc, List.cons_append] at hc
  obtain ⟨hleads, hc'⟩ := hc.split
  obtain ⟨h₀, k, -, hl, ht, -⟩ := taken_of_ring hleads
  have hlater := later_reached hc' c (List.mem_append_right between List.mem_cons_self)
  exact (hlater.trans hl).gone hid hgone t (takeFirst?_eq_some ht).1

/-- A timer whose cancelling was answered with true was pending then, and is no longer. -/
theorem gone_if_cleared {cl : ClockOf} {id : Nat} (hw : Whole (.ends (.act (.clear cl id)) (.flag true) h :: earlier))
    (hcl : h.clockOf cl = c) (hk : ∀ m ∈ earlier, InTime (m.host.clock c)) :
    id ≤ (h.clock c).lastId ∧ (h.clock c).isPending id = false := by
  obtain ⟨h₀, inner, before, rfl, hcame⟩ := hw _ _ _ _ [] _ rfl
  obtain ⟨_, hbody, -⟩ := came_iff.mp hcame
  obtain ⟨hflag, e, -⟩ := came_change.mp hbody
  -- The runtimes are the same, and thus the clock is.
  have hcl₀ : h₀.clockOf cl = c := by
    rw [← hcl, e]
    rfl
  rw [hcl₀] at hflag e
  have hpending : (h₀.clock c).isPending id = true := (Answer.flag.inj hflag).symm
  have hclock : h.clock c = ((h₀.clock c).cancel id).2 := by
    rw [e]
    exact (clockAt_set _ c (clock_there hpending)).trans (if_pos rfl)
  obtain ⟨t, ht, e⟩ := List.any_eq_true.mp hpending
  have hissued := (hk _ (List.mem_append_right _ List.mem_cons_self)).issued t ht
  rw [hclock, ← beq_iff_eq.mp e]
  exact ⟨hissued, isPending_cancel _ _⟩

/-! ## Advances by a time -/

/-- To advance by a time is to advance to the instant that it leads to. -/
theorem came_advanceBy {cl : ClockOf} {delta : Nat} {r : Answer} :
    (Task.act (.advance cl delta)).Came h r h' tr ↔
      ∃ n inner, (Task.advance (h.clockOf cl) ((h.clock (h.clockOf cl)).instant delta)).Came h n h' inner ∧
        r = .count n ∧ tr = .ends (.act (.advance cl delta)) r h' :: (inner ++ [.begins (.act (.advance cl delta)) h]) := by
  rw [came_iff]
  constructor
  · rintro ⟨inner, hb, rfl⟩
    obtain ⟨n, h₁, tr₁, tr₂, hadv, hdone, rfl⟩ := came_call.mp hb
    obtain ⟨rfl, rfl, rfl⟩ := came_done.mp hdone
    exact ⟨n, tr₁, hadv, rfl, rfl⟩
  · rintro ⟨n, inner, hadv, rfl, rfl⟩
    exact ⟨inner, came_call.mpr ⟨n, h', inner, [], hadv, came_done.mpr ⟨rfl, rfl, rfl⟩, rfl⟩, rfl⟩

/-- An advance that finds a timer due runs it first. -/
theorem next_advance {instant : Nat} {k : Clock Alarm} (hdue : (h.clock c).takeDue? instant = some (t, k)) :
    (Moment.begins (.advance c instant) h).next = some (.begins (.ring c t) (h.setClock c k)) := by
  unfold Moment.next
  refine congrArg some (first_get.trans ?_)
  rw [hdue]
  rfl

/-- An advance that came back and ran no timer. -/
def Idles (cl : ClockOf) (delta : Nat) (h : Host) : Prop :=
  ∃ h' tr, (Task.act (.advance cl delta)).Came h (.count 0) h' tr ∧ ∀ m ∈ tr, m.isRing = false

/-- What an advance does first is to run a timer; it counts that one if it comes back. -/
def Runs (cl : ClockOf) (delta : Nat) (h : Host) : Prop :=
  ∃ instant t h₁, (Moment.begins (.act (.advance cl delta)) h).next = some (.begins (.advance (h.clockOf cl) instant) h) ∧
    (Moment.begins (.advance (h.clockOf cl) instant) h).next = some (.begins (.ring (h.clockOf cl) t) h₁) ∧
    ∀ r h' tr, (Task.act (.advance cl delta)).Came h r h' tr →
      ∃ n, r = .count (n + 1) ∧ .begins (.ring (h.clockOf cl) t) h₁ ∈ tr

theorem idles_sooner {cl : ClockOf} {d delta : Nat} (hk : InTime (h.clock (h.clockOf cl)))
    (hd : (h.clock (h.clockOf cl)).untilNext? = some d) (hlt : delta < d) : Idles cl delta h := by
  have hnone := hk.takeDue?_sooner hd hlt
  have hadv := (came_advance_over hnone).mpr ⟨rfl, rfl, rfl⟩
  refine ⟨_, _, came_advanceBy.mpr ⟨0, _, hadv, rfl, rfl⟩, fun m hm => ?_⟩
  simp only [List.cons_append, List.nil_append, List.mem_cons, List.not_mem_nil, or_false] at hm
  rcases hm with rfl | rfl | rfl | rfl <;> rfl

theorem runs_then {cl : ClockOf} {d : Nat} (hk : InTime (h.clock (h.clockOf cl)))
    (hd : (h.clock (h.clockOf cl)).untilNext? = some d) : Runs cl d h := by
  obtain ⟨t, k, hdue⟩ := hk.takeDue?_then hd
  refine ⟨_, t, _, rfl, next_advance hdue, fun r h' tr hc => ?_⟩
  obtain ⟨n, inner, hadv, rfl, rfl⟩ := came_advanceBy.mp hc
  obtain ⟨h₁, m, tr₁, tr₂, hring, -, rfl, rfl⟩ := (came_advance_next hdue).mp hadv
  obtain ⟨inner', -, rfl⟩ := came_iff.mp hring
  exact ⟨m, rfl, by simp⟩

/-! ## Sessions -/

/-- What a session shows of a clock at one moment, with what came before it and after it. -/
structure Timed (c : Nat) (later : History) (m : Moment) (earlier : History) : Prop where
  distinct : ((m.host.clock c).timers.map (·.id)).Nodup
  /-- No pending timer is overdue. -/
  ahead : ∀ t ∈ (m.host.clock c).timers, (m.host.clock c).now ≤ t.due
  /-- The clock did not go back. -/
  forward : ∀ m' ∈ earlier, (m'.host.clock c).now ≤ (m.host.clock c).now
  /-- A timer rings at its instant, after those of earlier instants and ids, and once. -/
  punctual : ∀ t h, m = .begins (.ring c t) h → (h.clock c).now = t.due
  ordered : ∀ t h t' h', m = .begins (.ring c t) h → .begins (.ring c t') h' ∈ earlier →
    Timer.before t' t = true ∧ t'.id ≠ t.id
  /-- A timer that is not pending does not ring again, and one that was cleared is not. -/
  silent : ∀ id ≤ (m.host.clock c).lastId, (m.host.clock c).isPending id = false →
    ∀ t h, .begins (.ring c t) h ∈ later → t.id ≠ id
  cleared : ∀ cl id h, m = .ends (.act (.clear cl id)) (.flag true) h → h.clockOf cl = c →
    ∀ t h', .begins (.ring c t) h' ∈ later → t.id ≠ id
  /-- An advance by less than the time until the next timer runs nothing, and one by this
      time runs a timer. -/
  sooner : ∀ cl d delta, m.host.clockOf cl = c → (m.host.clock c).untilNext? = some d → delta < d → Idles cl delta m.host
  due : ∀ cl d, m.host.clockOf cl = c → (m.host.clock c).untilNext? = some d → Runs cl d m.host

/-- Whatever callbacks do, with timers and with the clock itself: as long as it is told to
    advance to instants that count in 64 bits, a clock keeps time at all moments. -/
theorem session_timekeeping (depth : Nat) (as : List Action) (url : String) (globals : Globals) (scopes : List Value)
    (c : Nat) (hf : ∀ m ∈ (play depth as (.new url globals scopes) []).2, m.Counts c) {later earlier : History} {m : Moment}
    (e : (play depth as (.new url globals scopes) []).2 = later ++ m :: earlier) : Timed c later m earlier := by
  have hc := session_chained depth as (.new url globals scopes)
  have hw := session_whole depth as (.new url globals scopes)
  have hi : InTime ((Host.new url globals scopes).clock c) := by
    cases c with
    | zero => exact inTime_new
    | succ c => exact inTime_new
  rw [e] at hc hw hf
  have hk := hc.always (lasts_inTime hf) hi
  have hm := hk m (List.mem_append_right _ List.mem_cons_self)
  have hc' := hc.split
  have hf' : ∀ m ∈ earlier, m.Counts c := fun m hm => hf m (List.mem_append_right _ (List.mem_cons_of_mem _ hm))
  have hgone : ∀ id ≤ (m.host.clock c).lastId, (m.host.clock c).isPending id = false →
      ∀ t h, .begins (.ring c t) h ∈ later → t.id ≠ id := fun id hid hno t h hr => silent_if_gone hc hid hno hr
  refine ⟨hm.ids, hm.ahead, fun m' hm' => ?_, fun t h e => ?_, fun t h t' h' e hr => ?_, hgone,
    fun cl id h e hcl t h' hr => ?_, fun cl d delta hcl hd hlt => ?_, fun cl d hcl hd => ?_⟩
  · have hrest : Chained (Host.new url globals scopes) (m :: earlier) := hc'
    exact (later_reached hrest c (List.mem_cons_of_mem m hm')).now
  · subst e
    obtain ⟨k₀, k, hk₀, -, ht, e⟩ := inTime_of_ring hc' hf' hi
    rw [e]
    exact hk₀.now_takeFirst ht
  · subst e
    exact rings_in_order hc' hf' hi hr
  · subst e
    have hw' : Whole (.ends (.act (.clear cl id)) (.flag true) h :: earlier) := hw.drop
    have hk' : ∀ m' ∈ earlier, InTime (m'.host.clock c) := fun m' hm' =>
      hk m' (List.mem_append_right _ (List.mem_cons_of_mem _ hm'))
    obtain ⟨hid, hno⟩ := gone_if_cleared hw' hcl hk'
    exact hgone id hid hno t h' hr
  · subst hcl
    exact idles_sooner hm hd hlt
  · subst hcl
    exact runs_then hm hd

/-- The second timer starts one that is due at once and advances the clock itself, past the
    first timer; the third one is cleared. -/
def nestedTimers : List Action :=
  [.timeout none 10 (.mk "late" []),
    .timeout none 5 (.mk "early" [.timeout none 0 (.mk "at once" []), .advance none 5]),
    .timeout none 7 (.mk "never" []), .clear none 3, .advance none 20]

theorem nestedTimers_timekeeping : ∃ later t h earlier,
    (play 6 nestedTimers (.new "" .browser []) []).2 = later ++ .begins (.ring 0 t) h :: earlier ∧ t.id = 1 ∧
      Timed 0 later (.begins (.ring 0 t) h) earlier := by
  have hf : ∀ m ∈ (play 6 nestedTimers (.new "" .browser []) []).2, m.Counts 0 := by
    repeat' first
      | exact List.forall_mem_nil _
      | refine List.forall_mem_cons.mpr ⟨trivial, ?_⟩
      | refine List.forall_mem_cons.mpr ⟨fun _ => (by decide), ?_⟩
  have ht := session_timekeeping 6 nestedTimers "" .browser [] 0 hf (m := .begins (.ring 0 _) _)
    (List.take_append_drop 11 _).symm
  exact ⟨_, _, _, _, (List.take_append_drop 11 _).symm, rfl, ht⟩

end Eventful.Host
