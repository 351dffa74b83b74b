import Eventful.Proofs.Directive.Chain
import Eventful.Proofs.Host.Ringing
import Eventful.Proofs.Host.Subsiding
import Eventful.Proofs.Host.Timekeeping

/-
  Eventful.Proofs.Host.Deadlines — the instants at which timers are filed, and keep to.

  Whatever callbacks do, a timer stays as it was filed until it rings or is cancelled
  (`filed_till_ring`), and it rings when its clock has come to its instant. So it runs early
  only if it was filed early. That happens: a delay counts by its low 64 bits
  (`instant_eq_iff`), and the seconds of a modifier chain can be more than fit there.

  - `session_on_time`: where timers and waits are filed, and what an advance comes to.
  - `longWait_early`: a wait of some 500 million years that is over after 384 ms.
-/

namespace Eventful.Host

open Clock Page Binding

variable {start h h' h₀ : Host} {tr earlier : History} {m : Moment} {c limit n delay : Nat} {t : Timer Alarm}

/-! ## Instants -/

/-- A delay leads to the instant that it says, or else its low 64 bits lead to one before. -/
theorem instant_eq_iff (k : Clock Alarm) (delay : Nat) :
    k.instant delay = min (k.now + delay) (2 ^ 64 - 1) ↔ delay < 2 ^ 64 ∨ 2 ^ 64 - 1 ≤ k.now + delay % 2 ^ 64 := by
  show min (k.now + delay % 2 ^ 64) (2 ^ 64 - 1) = _ ↔ _
  omega

/-! ## Timers of a session -/

theorem lasts_sound (c : Nat) (tr : History) : Lasts (fun h => Sound (h.clock c)) tr :=
  lasts_clock (fun _ _ _ hk => sound_start hk _ _) (fun _ _ hk => sound_cancel hk _) (fun _ _ _ ht hk => sound_takeFirst hk ht)
    fun _ _ _ hnone hk => sound_moveTo hk fun t ht => Nat.le_of_lt (takeDue?_eq_none.mp hnone t ht)

theorem sound_of_new (url : String) (globals : Globals) (scopes : List Value) (c : Nat) :
    Sound ((Host.new url globals scopes).clock c) := by
  cases c with
  | zero => exact sound_new
  | succ c => exact sound_new

/-- A timer rings as it was filed, on a clock that has come to its instant. -/
theorem filed_till_ring (hc : Chained start (.begins (.ring c t) h :: tr)) (hs : Sound (start.clock c)) :
    t.due ≤ (h.clock c).now ∧ ∀ m ∈ tr, ∀ u ∈ (m.host.clock c).timers, u.id = t.id → u = t := by
  obtain ⟨h₀, k, -, hl, ht, hk⟩ := taken_of_ring hc.1
  obtain ⟨hmem, -, rfl⟩ := takeFirst?_eq_some ht
  refine ⟨hk ▸ Nat.le_max_right _ _, fun m hm u hu hid => ?_⟩
  have hsound := hc.2.always (lasts_sound c tr) hs m hm
  rcases ((later_reached hc.2 c hm).trans hl).timers t hmem with hold | ⟨hnew, -⟩
  · exact sound_unique hsound hu hold hid
  · have := hsound.issued u hu
    omega

/-! ## Advances of a session -/

/-- An advance to an instant came to its end. -/
structure Passed (c limit : Nat) (h : Host) (tr : History) (h' : Host) : Prop where
  reached : limit ≤ (h'.clock c).now
  left : ∀ u ∈ (h'.clock c).timers, limit < u.due
  /-- Unless a callback moved the clock past the instant, the clock stands there now. -/
  exact : (∀ u h₁, .ends (.ring c u) () h₁ ∈ tr → (h₁.clock c).now ≤ max (h.clock c).now limit) →
    (h'.clock c).now = max (h.clock c).now limit

theorem reached_of_sweep {ring : Callbacks} (hs : Sweep ring c limit h n h' tr) (hc : c < h'.clocks.length) :
    limit ≤ (h'.clock c).now := by
  induction hs with
  | @rest h _ =>
    have hthere : c < h.clocks.length := by simpa only [moved, setClock, List.length_set] using hc
    rw [clock_moved hthere]
    exact Nat.le_max_right _ _
  | next _ _ _ ih => exact ih hc

theorem within_of_sweep {b : Nat} (hs : Sweep (ringing c) c limit h n h' tr) (hlimit : limit ≤ b)
    (hnow : (h.clock c).now ≤ b) (hrings : ∀ u h₁, .ends (.ring c u) () h₁ ∈ tr → (h₁.clock c).now ≤ b) :
    (h'.clock c).now ≤ b := by
  induction hs with
  | @rest h _ =>
    rcases clock_setClock h c ((h.clock c).moveTo limit) c with e | ⟨-, e⟩
    · exact (congrArg Clock.now e).trans_le hnow
    · exact (congrArg Clock.now e).trans_le (Nat.max_le.mpr ⟨hnow, hlimit⟩)
  | next _ hring _ ih =>
    obtain ⟨tr₁, hcame, rfl⟩ := hring
    obtain ⟨inner, -, rfl⟩ := came_iff.mp hcame
    exact ih (hrings _ _ (List.mem_append_right _ (List.mem_filter.mpr ⟨List.mem_cons_self, rfl⟩)))
      fun u h₁ hu => hrings u h₁ (List.mem_append_left _ hu)

theorem passed_of_came (hcame : (Task.advance c limit).Came h n h' tr) (hc : c < h'.clocks.length)
    (hl : Later (h.clock c) (h'.clock c)) : Passed c limit h tr h' := by
  have hs := sweep_of_came hcame
  refine ⟨reached_of_sweep hs hc, over_of_sweep hs, fun hrings => ?_⟩
  refine Nat.le_antisymm ?_ (Nat.max_le.mpr ⟨hl.now, reached_of_sweep hs hc⟩)
  exact within_of_sweep hs (Nat.le_max_right _ _) (Nat.le_max_left _ _)
    fun u h₁ hu => hrings u h₁ (List.mem_filter.mp hu).1

/-! ## Filing -/

/-- No session loses a clock. -/
theorem lasts_length (n : Nat) (tr : History) : Lasts (fun h => n ≤ h.clocks.length) tr where
  stroke hs hn := by
    cases hs with
    | aside ha => exact ha.clocks ▸ hn
    | start c | cancel c => exact hn.trans_eq (List.length_set ..).symm
    | clock => exact Nat.le_trans hn (List.length_append ▸ Nat.le_add_right _ _)
    | observe | disconnect | runtime | enrol | conclude => exact hn
  ring _ hn := hn.trans_eq (List.length_set ..).symm
  pass _ _ hn := hn.trans_eq (List.length_set ..).symm

theorem clockOf_lt {F : Nat → Prop} (hb : Books F h) (cl : ClockOf) : h.clockOf cl < h.clocks.length := by
  cases cl with
  | none => exact hb.timers.session
  | some rt =>
    show ((h.runtime? rt).map (·.clock)).getD 0 < _
    cases hr : h.runtime? rt with
    | none => exact hb.timers.session
    | some r => exact hb.timers.place ⟨r, hr, rfl⟩

/-- The clock has filed a timer where the delay leads to from now. -/
def Files (h : Host) (c delay id : Nat) (a : Alarm) : Prop :=
  ∃ t ∈ (h.clock c).timers, t.id = id ∧ t.action = a ∧ t.due = (h.clock c).instant delay

theorem files_startTimer (hc : c < h.clocks.length) (delay : Nat) (a : Alarm) :
    Files (h.startTimer c delay a).2 c delay (h.startTimer c delay a).1 a := by
  unfold Files
  rw [startTimer_clock hc]
  exact ⟨_, List.mem_append_right _ (List.mem_singleton.mpr rfl), rfl, rfl, rfl⟩

theorem files_timeout {cl : ClockOf} {s : Script} {r : Answer} (hc : h₀.clockOf cl < h₀.clocks.length)
    (hcame : (Task.act (.timeout cl delay s)).Came h₀ r h tr) : ∃ id, r = .count id ∧ Files h (h.clockOf cl) delay id (.script s) := by
  obtain ⟨_, hbody, -⟩ := came_iff.mp hcame
  obtain ⟨rfl, rfl, -⟩ := came_change.mp hbody
  exact ⟨_, rfl, files_startTimer hc delay (.script s)⟩

theorem files_schedule {d : Nat} {k : Debouncer} (hc : 0 < h.clocks.length) (hk : h.debouncer? d = some k) (e : Event) (s : Script) :
    ∃ id, (h.schedule d e s).debouncer? d = some { k with waiting := some id } ∧
      Files (h.schedule d e s) 0 k.wait id (.debouncer d e s) := by
  obtain ⟨hd, hheld⟩ := Option.filter_eq_some_iff.mp hk
  have hcancelled : (h.cancelWaiting 0 k.waiting).2.clocks.length = h.clocks.length ∧
      (h.cancelWaiting 0 k.waiting).2.debouncers = h.debouncers := by
    cases k.waiting with
    | none => exact ⟨rfl, rfl⟩
    | some id => exact ⟨List.length_set .., rfl⟩
  unfold schedule
  rw [hk]
  refine ⟨_, ?_, files_startTimer (hcancelled.1 ▸ hc) k.wait (.debouncer d e s)⟩
  unfold debouncer? editDebouncer startTimer
  dsimp only
  rw [setClock, hcancelled.2, List.getElem?_modify_eq, hd]
  exact Option.filter_eq_some_iff.mpr ⟨rfl, hheld⟩

theorem came_answer {f : Host → Answer} {r : Answer} : (answer f).Came h₀ r h tr ↔ r = f h₀ ∧ h = h₀ ∧ tr = [] := by
  unfold answer
  rw [came_get]
  exact came_done

theorem files_scheduled {d : Nat} {source : Source} {s : Script} {r : Answer} {k : Debouncer} (hc : 0 < h₀.clocks.length)
    (hcame : (Task.act (.schedule d source s)).Came h₀ r h tr) (hr : r ≠ .nothing) (hk : h.debouncer? d = some k) :
    ∃ id e, k.waiting = some id ∧ Files h 0 k.wait id (.debouncer d e s) := by
  obtain ⟨_, hbody, -⟩ := came_iff.mp hcame
  obtain ⟨found, h₁, _, _, hevent, hrest, -⟩ := came_bind.mp hbody
  have hsame : h₁ = h₀ := by
    cases source with
    | event e => exact (came_done.mp hevent).2.1
    | last => exact (came_done.mp ((came_get (f := fun h => .done h.last)).mp hevent)).2.1
  subst hsame
  cases found with
  | none => exact absurd (came_done.mp hrest).1 hr
  | some e =>
    obtain ⟨-, rfl, -⟩ := came_answer.mp (came_first.mp hrest)
    cases hd : h₁.debouncer? d with
    | none =>
      have hidle : h₁.schedule d e s = h₁ := by
        unfold schedule
        rw [hd]
      rw [hidle, hd] at hk
      cases hk
    | some k₀ =>
      obtain ⟨id, hk', hfiles⟩ := files_schedule hc hd e s
      cases hk.symm.trans hk'
      exact ⟨id, e, rfl, hfiles⟩

/-! ## Waits -/

/-- The binding that is evaluated is the one that its event reached. -/
theorem same_plan {F : Nat → Prop} {rt : Nat} {b b' : Bound} {r : Runtime Script} {e e₀ : Event}
    (ht : Told F (.begins (.effect rt b e) h :: tr)) (hm : m ∈ tr) (hf : m.Fires rt b.id e₀)
    (hlive : m.host.live? rt b.id = some (r, b')) : b'.plan = b.plan := by
  obtain ⟨⟨-, ⟨b₁, hkeeps, hsame, -⟩, -⟩, -, honward, hearlier⟩ := ht
  obtain ⟨_, hfit⟩ := hearlier.mem hm
  have hbooks := books_of_fires hfit hf
  obtain ⟨hr, -, hreach, hid⟩ := (live?_eq_some hbooks.runtimes).mp hlive
  have hissued : b₁.id ≤ r.lastId := hsame.id ▸ hid ▸ (hbooks.runtimes hr).issued hreach
  obtain ⟨b₂, h₂, hsame₂, -⟩ := (honward m hm).reached hr hkeeps hissued
  cases keeps_unique hbooks.runtimes h₂ ⟨r, hr, hreach⟩ (hsame₂.id.symm.trans (hsame.id.trans hid.symm))
  exact hsame₂.plan.symm.trans hsame.plan

/-- A debounced binding is evaluated when the clock has come to where the wait of the event
    that reached it last led to. -/
theorem waited_of_effect {F : Nat → Prop} {rt wait : Nat} {b : Bound} {e : Event}
    (ht : Told F (.begins (.effect rt b e) h :: tr)) (hc : Chained start (.begins (.effect rt b e) h :: tr))
    (hs : ∀ c, Sound (start.clock c)) (hw : b.plan.wait? = some wait) :
    ∃ c m₁ before m, tr = m₁ :: before ∧ Latest (·.Turns rt b.id) m before ∧
      m.Arms rt b.id c ((m.host.clock c).instant wait) e ∧ (m.host.clock c).instant wait ≤ (h.clock c).now := by
  have hwaits : ¬Waitless b.plan.guards := by
    obtain ⟨after, hg⟩ := guards_of_wait? hw
    intro hno
    exact hno wait (hg ▸ List.mem_append_right _ List.mem_cons_self)
  obtain ⟨m₁, before, rfl, hrings⟩ := rings_of_evaluated ht.1 hwaits
  cases m₁ with
  | ends _ _ _ => exact hrings.elim
  | begins t h₁ =>
    cases t with
    | ring c t =>
      obtain ⟨h₀, k, hkept, htake, -, -⟩ := ht.2.2.2.1
      obtain ⟨m, hl, harms, -⟩ := hkept.clocked.armed (takeFirst?_eq_some htake).1 hrings
      obtain ⟨r, b', e₀, wait', hf, hlive, -, hwait, -, rfl, hdue, -⟩ := id harms
      rw [same_plan ht (List.mem_cons_of_mem _ hl.mem) hf hlive, hw] at hwait
      cases hwait
      have hnow : (h₁.clock r.clock).now ≤ (h.clock r.clock).now :=
        (later_reached hc r.clock (List.mem_cons_of_mem _ List.mem_cons_self)).now
      rw [hdue] at harms
      exact ⟨_, _, _, m, rfl, hl, harms, hdue ▸ (filed_till_ring hc.2 (hs _)).1.trans hnow⟩
    | _ => exact hrings.elim

/-! ## Sessions -/

/-- What a session shows at one moment of the instants that were set before. -/
structure OnTime (m : Moment) (earlier : History) : Prop where
  rung : ∀ c t h, m = .begins (.ring c t) h →
    t.due ≤ (h.clock c).now ∧ ∀ m' ∈ earlier, ∀ u ∈ (m'.host.clock c).timers, u.id = t.id → u = t
  started : ∀ cl delay s r h, m = .ends (.act (.timeout cl delay s)) r h →
    ∃ id, r = .count id ∧ Files h (h.clockOf cl) delay id (.script s)
  scheduled : ∀ d source s r h k, m = .ends (.act (.schedule d source s)) r h → r ≠ .nothing → h.debouncer? d = some k →
    ∃ id e, k.waiting = some id ∧ Files h 0 k.wait id (.debouncer d e s)
  /-- The event is the one that the last event to begin the wait left. -/
  waited : ∀ rt b e h wait, m = .begins (.effect rt b e) h → b.plan.wait? = some wait →
    ∃ c m₁ before m', earlier = m₁ :: before ∧ Latest (·.Turns rt b.id) m' before ∧
      m'.Arms rt b.id c ((m'.host.clock c).instant wait) e ∧ (m'.host.clock c).instant wait ≤ (h.clock c).now
  passed : ∀ cl delta r h, m = .ends (.act (.advance cl delta)) r h →
    ∃ h₀ inner before, earlier = inner ++ .begins (.act (.advance cl delta)) h₀ :: before ∧
      Passed (h₀.clockOf cl) ((h₀.clock (h₀.clockOf cl)).instant delta) h₀ inner h

theorem on_time {F : Nat → Prop} {later : History} (ht : Told F (later ++ m :: earlier))
    (hc : Chained start (later ++ m :: earlier)) (hw : Whole (later ++ m :: earlier)) (hs : ∀ c, Sound (start.clock c)) :
    OnTime m earlier := by
  have ht := ht.split.1
  have hc : Chained start (m :: earlier) := hc.split
  have hw : Whole (m :: earlier) := hw.drop
  -- What an action did it did from a host that has the clocks that it is about.
  have hacted {a : Action} {r : Answer} {h : Host} (e : m = .ends (.act a) r h) :
      ∃ h₀ inner before, earlier = inner ++ .begins (.act a) h₀ :: before ∧
        (Task.act a).Came h₀ r h (.ends (.act a) r h :: (inner ++ [.begins (.act a) h₀])) ∧
          (∀ cl, h₀.clockOf cl < h₀.clocks.length) ∧ .begins (.act a) h₀ ∈ m :: earlier := by
    subst e
    obtain ⟨h₀, inner, before, rfl, hcame⟩ := hw _ _ _ _ [] _ rfl
    have hm : .begins (.act a) h₀ ∈ inner ++ .begins (.act a) h₀ :: before := List.mem_append_right _ List.mem_cons_self
    obtain ⟨_, hfit⟩ := ht.2.2.2.mem hm
    have hready : Ready F (.act a) h₀ _ := hfit
    exact ⟨h₀, inner, before, rfl, hcame, clockOf_lt hready.books, List.mem_cons_of_mem _ hm⟩
  constructor
  · rintro c t h rfl
    exact filed_till_ring hc (hs c)
  · intro cl delay s r h e
    obtain ⟨h₀, _, _, -, hcame, hthere, -⟩ := hacted e
    exact files_timeout (hthere cl) hcame
  · intro d source s r h k e hr hk
    obtain ⟨h₀, _, _, -, hcame, hthere, -⟩ := hacted e
    exact files_scheduled (hthere none) hcame hr hk
  · rintro rt b e h wait rfl hwait
    exact waited_of_effect ht hc hs hwait
  · intro cl delta r h e
    obtain ⟨h₀, inner, before, hearlier, hcame, hthere, hm⟩ := hacted e
    obtain ⟨n, inner', hadv, -, hrecord⟩ := came_advanceBy.mp hcame
    obtain rfl : inner = inner' := List.append_cancel_right (List.cons.inj hrecord).2
    subst e
    have hlength : h₀.clocks.length ≤ h.clocks.length :=
      hc.since (R := fun h h' => h.clocks.length ≤ h'.clocks.length) (fun _ => Nat.le_refl _)
        (fun h => lasts_length h.clocks.length _) _ hm
    exact ⟨h₀, inner, before, hearlier, passed_of_came hadv ((hthere cl).trans_le hlength) (later_reached hc _ hm)⟩

/-- A delay leads a clock to the instant that is so many milliseconds from now, or to the
    last one, if it counts in 64 bits; a larger one may lead to an instant before. The words
    of a modifier chain say as many milliseconds as count in 64 bits, and a thousand times as
    many by seconds. In every session timers are filed, and waits of debounced bindings end,
    where their delays lead; neither is over while the clock is before that instant. And an
    advance by a time comes to where the time leads, with nothing due by then left; it goes
    no further unless a callback does. -/
theorem session_on_time (depth : Nat) (as : List Action) (url : String) (globals : Globals) (scopes : List Value) :
    (∀ (k : Clock Alarm) (delay : Nat), k.instant delay = min (k.now + delay) (2 ^ 64 - 1) ↔
      delay < 2 ^ 64 ∨ 2 ^ 64 - 1 ≤ k.now + delay % 2 ^ 64) ∧
    (∀ ds n, Directive.count? ds = some n → n < 2 ^ 64 ∧
      Directive.Word.ofText (String.ofList (ds ++ ['m', 's'])) = .duration n ∧
        Directive.Word.ofText (String.ofList (ds ++ ['s'])) = .duration (n * 1000)) ∧
    ∀ later m earlier, (play depth as (.new url globals scopes) []).2 = later ++ m :: earlier → OnTime m earlier := by
  have ht := session_told depth as url globals scopes fun m _ => fair_nobody m
  have hc := session_chained depth as (.new url globals scopes)
  have hw := session_whole depth as (.new url globals scopes)
  refine ⟨instant_eq_iff, fun ds n hn => ⟨(Directive.count?_eq_some hn).1, Directive.ofText_duration hn⟩, fun later m earlier e => ?_⟩
  rw [e] at ht hc hw
  exact on_time ht hc hw (sound_of_new url globals scopes)

/-- A binding that waits for 2^64 + 384 ms, and a click. -/
def longWait : List Action :=
  [.newRuntime ⟨none, false, none, .custom fun _ _ => .done (.ok .undefined)⟩,
    .bind 0 3 "@click.debounce.18446744073709552s" "b = b + 1" 0, .click 3, .advance none 384]

def longWaitHistory : History := (play 4 longWait (.new "" .browser []) []).2

theorem longWait_on_time : Directive.Word.ofText "18446744073709552s" = .duration (2 ^ 64 + 384) ∧
    ∃ later b e h earlier, longWaitHistory = later ++ .begins (.effect 0 b e) h :: earlier ∧
      OnTime (.begins (.effect 0 b e) h) earlier := by
  obtain ⟨-, hwords, htime⟩ := session_on_time 4 longWait "" .browser []
  have hread : Directive.count? "18446744073709552".toList = some 18446744073709552 := by decide
  exact ⟨(hwords _ _ hread).2.2, _, _, _, _, _, (List.take_append_drop 6 _).symm, htime _ _ _ (List.take_append_drop 6 _).symm⟩

/-- The binding waits from 0 on, and it is evaluated at 384. -/
theorem longWait_early : ∃ later b e h earlier, longWaitHistory = later ++ .begins (.effect 0 b e) h :: earlier ∧
    b.plan.wait? = some (2 ^ 64 + 384) ∧ (h.clock 0).now = 384 ∧ 384 < min (0 + (2 ^ 64 + 384)) (2 ^ 64 - 1) ∧
      ∃ m ∈ earlier, m.Arms 0 b.id 0 384 e ∧ (m.host.clock 0).now = 0 := by
  refine ⟨_, _, _, _, _, (List.take_append_drop 6 longWaitHistory).symm, rfl, by decide +kernel, by omega, ?_⟩
  refine ⟨_, List.mem_of_getElem? (i := 5) rfl, ⟨_, _, _, _, ⟨rfl, rfl⟩, rfl, rfl, rfl, ?_, rfl, by decide +kernel, rfl⟩, rfl⟩
  exact fun g hg => by cases hg

end Eventful.Host
