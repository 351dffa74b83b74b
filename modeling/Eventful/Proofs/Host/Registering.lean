import Eventful.Host.Run
import Eventful.Proofs.Host.Withdrawing

/-
  Eventful.Proofs.Host.Registering — what comes into a host is entered in its books.

  A tracker listens for the event names of its entries (`register`), a binding is entered
  where its plan says (`goes_bind`), a debounced one starts its wait (`goes_arm`), and a
  runtime begins with nothing (`goes_addRuntime`). A reset is the one edit that takes
  everything of a tracker away; a runtime unbinds first what it has there
  (`goes_resetOutside`).
-/

namespace Eventful.Host

open Page Binding

variable {F : Nat → Prop} {h h' : Host} {rt k : Nat} {r : Runtime Script}

/-! ## Entries -/

/-- A tracker has one more entry, and a listener for its event name. -/
structure Registered (k : Nat) (w : Entry Waiter) (h h' : Host) : Prop where
  shape : ∃ ls ts, h' = { h.setListeners ls with trackers := ts }
  length : h'.trackers.length = h.trackers.length
  same : ∀ {k'}, k' ≠ k → trackerAt h'.trackers k' = trackerAt h.trackers k'
  entries : (trackerAt h'.trackers k).entries = (trackerAt h.trackers k).entries ++ [w]
  held : (trackerAt h'.trackers k).held = (trackerAt h.trackers k).held
  served : (trackerAt h'.trackers k).isInstalled w.event = true
  installs :
    (h'.page.listeners = h.page.listeners ∧ (trackerAt h'.trackers k).installed = (trackerAt h.trackers k).installed) ∨
    ((trackerAt h.trackers k).isInstalled w.event = false ∧
      h'.page.listeners = (h.page.listeners.add .document w.event capturing (.tracker k)).2 ∧
      (trackerAt h'.trackers k).installed =
        (trackerAt h.trackers k).installed ++ [(w.event, h.page.listeners.lastId + 1)])

theorem registered (hk : k < h.trackers.length) (w : Entry Waiter) : Registered k w h (h.register k w) := by
  unfold register
  dsimp only
  split
  · rename_i hi
    have hat : ∀ k', trackerAt (h.setTracker k ((h.tracker k).add w)).trackers k' =
        if k = k' then (h.tracker k).add w else trackerAt h.trackers k' := fun k' => trackerAt_set _ k' hk
    refine ⟨⟨h.page.listeners, _, rfl⟩, List.length_set, fun hne => ?_, ?_, ?_, ?_, .inl ⟨rfl, ?_⟩⟩
    · rw [hat, if_neg (Ne.symm hne)]
    all_goals rw [hat, if_pos rfl]
    · rfl
    · rfl
    · exact hi
    · rfl
  · rename_i hi
    have hat : ∀ t k', trackerAt
        ((h.listen .document w.event ⟨true, false, false⟩ (.tracker k)).2.setTracker k t).trackers k' =
        if k = k' then t else trackerAt h.trackers k' := fun t k' => trackerAt_set t k' hk
    refine ⟨⟨_, _, rfl⟩, List.length_set, fun hne => ?_, ?_, ?_, ?_,
      .inr ⟨(Bool.not_eq_true _).mp hi, rfl, ?_⟩⟩
    · rw [hat, if_neg (Ne.symm hne)]
    all_goals rw [hat, if_pos rfl]
    · rfl
    · rfl
    · simp [Tracker.isInstalled]
    · rfl

theorem Registered.listenersLater {w : Entry Waiter} (hw : Registered k w h h') :
    ListenersLater h.page.listeners h'.page.listeners := by
  rcases hw.installs with ⟨e, -⟩ | ⟨-, e, -⟩
  · rw [e]; exact .rfl _
  · rw [e]; exact later_add _ _ _ _ _

theorem Registered.listeners {w : Entry Waiter} (hw : Registered k w h h')
    (hb : ListenerBooks F h.runtimes h.trackers h.page.globals h.page.listeners) :
    ListenerBooks F h.runtimes h'.trackers h.page.globals h'.page.listeners := by
  rcases hw.installs with ⟨e, hi⟩ | ⟨-, e, hi⟩
  · rw [e]
    refine hb.trackers fun k' => ?_
    by_cases hk : k' = k
    · subst hk; exact hi
    · rw [hw.same hk]
  · rw [e]
    exact hb.install w.event (fun hk => by rw [hw.same hk]) hi

theorem Registered.installed {w : Entry Waiter} (hw : Registered k w h h') {name : String}
    (hn : (trackerAt h.trackers k).isInstalled name = true) : (trackerAt h'.trackers k).isInstalled name = true := by
  unfold Tracker.isInstalled at hn ⊢
  rcases hw.installs with ⟨-, hi⟩ | ⟨-, -, hi⟩
  · rw [hi]; exact hn
  · rw [hi, List.any_append, hn]; rfl

theorem Registered.names {w : Entry Waiter} (hw : Registered k w h h')
    (hn : ((trackerAt h.trackers k).installed.map (·.1)).Nodup) :
    ((trackerAt h'.trackers k).installed.map (·.1)).Nodup := by
  rcases hw.installs with ⟨-, hi⟩ | ⟨hnew, -, hi⟩
  · rw [hi]; exact hn
  · rw [hi, List.map_append, List.nodup_append]
    refine ⟨hn, by simp, fun x hx y hy e => ?_⟩
    obtain ⟨i, hi', rfl⟩ := List.mem_map.mp hx
    simp only [List.map_cons, List.map_nil, List.mem_singleton] at hy
    have : (trackerAt h.trackers k).isInstalled w.event = true :=
      List.any_eq_true.mpr ⟨i, hi', by rw [e, hy]; exact beq_self_eq_true _⟩
    rw [hnew] at this
    cases this

/-- A script's entry on a tracker that no runtime of `F` owns. -/
theorem goes_register (hb : Books F h) (hk : k < h.trackers.length) (hF : Foreign F h k) {w : Entry Waiter}
    {s : Script} (hs : w.action = .script s) : Goes F h (h.register k w) := by
  have hw := registered hk w
  have hl := hw.listeners hb.listeners
  have hlater := hw.listenersLater
  have hentries : EntryBooks F h.runtimes (h.register k w).trackers h.sharedTrackers := by
    refine hb.entries.foreign (Nat.le_of_eq hw.length.symm) ?_ ?_ ?_
    · intro rt' k' hF' ho
      refine hw.same fun e => ?_
      subst e
      exact hF rt' hF' ho
    · intro k' w' rt' id hw' ha
      by_cases e : k' = k
      · subst e
        rw [hw.entries] at hw'
        rcases List.mem_append.mp hw' with hw' | hw'
        · exact hw'
        · rw [List.mem_singleton.mp hw', hs] at ha; cases ha
      · rw [hw.same e] at hw'; exact hw'
    · intro k'
      by_cases e : k' = k
      · subst e; exact hw.held
      · rw [hw.same e]
  obtain ⟨ls, ts, e⟩ := hw.shape
  rw [e] at hl hlater hentries ⊢
  exact ⟨⟨⟨hb.runtimes, hl, hentries, hb.timers⟩, ⟨.rfl _, hlater⟩, .rfl _⟩, .rfl _ _⟩

/-! ## Bindings -/

/-- A binding comes, and is entered where its plan says. -/
theorem goes_with1 (hb : Books F h) (hr : h.runtimes[rt]? = some r) (hs : r.status ≠ .ended) {b : Bound}
    (hn : Runtime.New r b) {ls : Listeners Reaction} {ts : List (Tracker Waiter)}
    (hl : ListenerBooks F (h.runtimes.modify rt (·.with1 b)) ts h.page.globals ls)
    (hlater : ListenersLater h.page.listeners ls)
    (he : EntryBooks F (h.runtimes.modify rt (·.with1 b)) ts h.sharedTrackers) :
    Goes F h (({ h.setListeners ls with trackers := ts } : Host).editRuntime rt (·.with1 b)) := by
  have hrs : RuntimesLater h.runtimes (h.runtimes.modify rt (·.with1 b)) := by
    refine later_modify _ rt fun r' hr' => ?_
    cases hr.symm.trans hr'
    exact Runtime.later_with1 hn.id
  have htimers := hb.timers.bind hr hn.waiting
  refine ⟨⟨⟨sound_modify hb.runtimes rt fun r' hr' => ?_, hl, he, htimers⟩, ⟨hrs, hlater⟩,
    calm_modify _ rt fun r' hr' => Runtime.calm_with1 hn.fired⟩,
    still_of_waits hb.timers htimers hb.runtimes hrs (fun ht _ => ht) (fun {rt' b₀ b'} hkeeps hbinds hid => ?_)
      fun hleaves _ => ⟨_, leaves_with1.mp hleaves, rfl⟩⟩
  · cases hr.symm.trans hr'
    exact (hb.runtimes hr).with1 hn hs
  · rcases (binds_with1 hr).mp hbinds with hbinds | ⟨rfl, rfl⟩
    · rw [keeps_unique hb.runtimes hbinds.keeps hkeeps hid]
    · -- The new id is nobody's yet.
      obtain ⟨r', hr', hreach⟩ := hkeeps
      cases hr.symm.trans hr'
      have := (hb.runtimes hr).issued hreach
      have := hn.id
      omega

theorem held?_eq_some : h.held? rt = some r ↔ h.runtimes[rt]? = some r ∧ r.status = .held := by
  unfold held? runtime?
  rw [Option.filter_eq_some_iff]
  simp

theorem register_runtimes (h : Host) (k : Nat) (w : Entry Waiter) : (h.register k w).runtimes = h.runtimes := by
  unfold register
  dsimp only
  split <;> rfl

theorem bind_ok {n : NodeId} {d : Directive} {scope id : Nat} (hbind : h.bind rt n d scope = .ok (id, h')) :
    ∃ r plan, h.runtimes[rt]? = some r ∧ r.status = .held ∧ Directive.Plan.build r.config d = .ok plan ∧
      h.page.globals.has (plan.place.target n) = true ∧ id = r.lastId + 1 ∧
      ((plan.isOutside = true ∧
          h' = (h.register r.tracker ⟨id, n, plan.event, .binding rt id⟩).editRuntime rt
            (·.with1 ⟨id, n, d, plan, scope, none, false, none, 0⟩)) ∨
        (plan.isOutside = false ∧
          h' = (h.listen (plan.place.target n) plan.event plan.options (.binding rt id)).2.editRuntime rt
            (·.with1 ⟨id, n, d, plan, scope, some (h.page.listeners.lastId + 1), false, none, 0⟩))) := by
  unfold bind at hbind
  cases hheld : h.held? rt with
  | none => rw [hheld] at hbind; cases hbind
  | some r =>
    obtain ⟨hr, hs⟩ := held?_eq_some.mp hheld
    rw [hheld] at hbind
    dsimp only at hbind
    split at hbind
    · cases hbind
    · split at hbind
      · cases hbind
      · rename_i plan hplan
        split at hbind
        · cases hbind
        · rename_i hg
          have hg : h.page.globals.has (plan.place.target n) = true := by simpa using hg
          refine ⟨r, plan, hr, hs, hplan, hg, ?_⟩
          cases ho : plan.isOutside with
          | true =>
            simp only [ho, if_true, Except.ok.injEq, Prod.mk.injEq] at hbind
            obtain ⟨rfl, rfl⟩ := hbind
            refine ⟨rfl, .inl ⟨rfl, editRuntime_congr (r := r) ?_ rfl⟩⟩
            rw [register_runtimes]
            exact hr
          | false =>
            simp only [ho, Bool.false_eq_true, if_false, Except.ok.injEq, Prod.mk.injEq] at hbind
            obtain ⟨rfl, rfl⟩ := hbind
            refine ⟨rfl, .inr ⟨rfl, ?_⟩⟩
            exact editRuntime_congr
              (h := (h.listen (plan.place.target n) plan.event plan.options (.binding rt (r.lastId + 1))).2) hr rfl

theorem goes_bind (hb : Books F h) {n : NodeId} {d : Directive} {scope id : Nat}
    (hbind : h.bind rt n d scope = .ok (id, h')) : Goes F h h' := by
  obtain ⟨r, plan, hr, hs, hplan, hg, rfl, hcase⟩ := bind_ok hbind
  have hs : r.status ≠ .ended := by rw [hs]; decide
  rcases hcase with ⟨ho, rfl⟩ | ⟨hin, rfl⟩
  · have hw := registered (hb.entries.places.place ⟨r, hr, rfl⟩) ⟨r.lastId + 1, n, plan.event, .binding rt (r.lastId + 1)⟩
    have hl := hw.listeners hb.listeners
    have hlater := hw.listenersLater
    have hentries := hb.entries.bindOutside hr (hb.runtimes hr)
      (b := ⟨r.lastId + 1, n, d, plan, scope, none, false, none, 0⟩) ho rfl hw.length hw.same hw.entries hw.held
      hw.installed hw.served hw.names
    obtain ⟨ls, ts, e⟩ := hw.shape
    rw [e] at hl hlater hentries ⊢
    exact goes_with1 hb hr hs ⟨rfl, hplan, fun _ => rfl, rfl, rfl⟩ (hl.bindOutside hr ho rfl hg) hlater hentries
  · have hnew : Runtime.New r ⟨r.lastId + 1, n, d, plan, scope, some (h.page.listeners.lastId + 1), false, none, 0⟩ :=
      ⟨rfl, hplan, fun ho => absurd (hin.symm.trans ho) Bool.false_ne_true, rfl, rfl⟩
    exact goes_with1 hb hr hs hnew (hb.listeners.bindInside hr hin rfl hg) (later_add _ _ _ _ _)
      (hb.entries.bindInside hr hin)

theorem goes_bindAttr (hb : Books F h) {n : NodeId} {attr expression : String} {scope id : Nat}
    (hbind : h.bindAttr rt n attr expression scope = .ok (id, h')) : Goes F h h' := by
  unfold bindAttr at hbind
  split at hbind
  · cases hbind
  · split at hbind
    · cases hbind
    · exact goes_bind hb hbind

theorem goes_bindEach (hb : Books F h) (rt : Nat) (n : NodeId) (scope : Nat) (bound : List Nat)
    (attrs : List (String × String)) : Goes F h (h.bindEach rt n scope bound attrs).2 := by
  induction attrs generalizing h bound with
  | nil => exact .rfl hb
  | cons a rest ih =>
    unfold bindEach
    split
    · rename_i id h₁ hbind
      have hg := goes_bindAttr hb hbind
      exact hg.trans (ih hg.books _)
    · exact goes_unbindAll hb rt bound

theorem goes_bindAttrs (hb : Books F h) (rt : Nat) (n : NodeId) (scope : Nat) :
    Goes F h (h.bindAttrs rt n scope).2 := by
  unfold bindAttrs
  split
  · exact goes_bindEach hb rt n scope [] _
  · exact .rfl hb

/-! ## Waiting -/

theorem live?_eq_some (hs : ∀ {rt : Nat} {r : Runtime Script}, h.runtimes[rt]? = some r → r.Sound) {id : Nat}
    {b : Bound} :
    h.live? rt id = some (r, b) ↔ h.runtimes[rt]? = some r ∧ r.status ≠ .ended ∧ r.Reaches b ∧ b.id = id := by
  unfold live? alive? runtime?
  simp only [Option.bind_eq_some_iff, Option.filter_eq_some_iff, Option.map_eq_some_iff, Prod.mk.injEq, bne_iff_ne]
  constructor
  · intro ⟨r', ⟨hr, hne⟩, b', hb, e₁, e₂⟩
    subst e₁ e₂
    exact ⟨hr, hne, (hs hr).reachable?_eq_some.mp hb⟩
  · intro ⟨hr, hne, hb⟩
    exact ⟨r, ⟨hr, hne⟩, b, (hs hr).reachable?_eq_some.mpr hb, rfl, rfl⟩

/-- A clock on which a wait starts anew: the old timer goes, the new one comes. -/
def rearmed (k : Clock Alarm) (old : Option Nat) (wait : Nat) (a : Alarm) : Clock Alarm :=
  { k with
    timers := (k.timers.filter fun t => !(old == some t.id)) ++ [⟨k.lastId + 1, k.instant wait, a⟩]
    lastId := k.lastId + 1 }

/-- A wait that starts anew touches the clock and the binding, and nothing else. -/
theorem arm_exact {id : Nat} {b : Bound} (hlive : h.live? rt id = some (r, b)) (wait : Nat) (e : Page.Event) :
    h.arm rt id wait e =
      ({ h with clocks := h.clocks.set r.clock (rearmed (h.clock r.clock) b.waiting wait (.binding rt id e)) } :
        Host).editRuntime rt (·.edit id fun b => { b with waiting := some ((h.clock r.clock).lastId + 1) }) := by
  have hc := cancelled h r.clock b.waiting
  obtain ⟨cs, ecs⟩ := hc.shape
  have hwritten := hc.written
  have hclock := hc.clock r.clock
  rw [if_pos rfl, ecs] at hclock
  rw [ecs] at hwritten
  replace hclock : clockAt cs r.clock = { clockAt h.clocks r.clock with
    timers := (clockAt h.clocks r.clock).timers.filter fun t => !(b.waiting == some t.id) } := hclock
  have hstart : (clockAt cs r.clock).start wait (Alarm.binding rt id e) =
      ((h.clock r.clock).lastId + 1, rearmed (h.clock r.clock) b.waiting wait (.binding rt id e)) := by
    rw [hclock]
    rfl
  unfold arm
  rw [hlive]
  dsimp only
  rw [ecs]
  show (({ h with clocks := cs.set r.clock ((clockAt cs r.clock).start wait (Alarm.binding rt id e)).2 } : Host).editRuntime rt
    (·.edit id fun b => { b with waiting := some ((clockAt cs r.clock).start wait (Alarm.binding rt id e)).1 })) = _
  rw [hstart, show cs.set r.clock _ = _ from hwritten _]

/-- What a wait that starts anew comes to. -/
theorem arm_eq (hb : Books F h) {id : Nat} {b : Bound} (hlive : h.live? rt id = some (r, b)) (wait : Nat)
    (e : Page.Event) :
    ∃ k, h.arm rt id wait e = ({ h with clocks := h.clocks.set r.clock k } : Host).editRuntime rt
          (·.edit id fun b => { b with waiting := some k.lastId }) ∧
      k.Sound ∧ k.lastId = (h.clock r.clock).lastId + 1 ∧
      k.timers = ((h.clock r.clock).timers.filter fun t => !(b.waiting == some t.id)) ++
        [⟨k.lastId, (h.clock r.clock).instant wait, .binding rt id e⟩] := by
  refine ⟨_, arm_exact hlive wait e, ?_, rfl, rfl⟩
  exact Clock.sound_start ((hb.timers.sound r.clock).filter fun t => !(b.waiting == some t.id)) wait _

/-- A debounced binding starts its wait anew; one of a runtime of `F` has to be bound for that. -/
theorem steps_arm (hb : Books F h) (rt id wait : Nat) (e : Page.Event)
    (hdebounced : ∀ {b}, Keeps h.runtimes rt b → b.id = id → ∃ wait, .debounce wait ∈ b.plan.guards)
    (hbound : ∀ {k}, F rt → Owns h.runtimes rt k → ∃ b, Binds h.runtimes rt b ∧ b.id = id) :
    Steps F h (h.arm rt id wait e) := by
  cases hlive : h.live? rt id with
  | none =>
    have harm : h.arm rt id wait e = h := by
      unfold arm
      rw [hlive]
    rw [harm]
    exact (Goes.rfl hb).toSteps
  | some p =>
    obtain ⟨r, b⟩ := p
    obtain ⟨k, harm, hk, hlast, htimers⟩ := arm_eq hb hlive wait e
    obtain ⟨hr, -, hreach, rfl⟩ := (live?_eq_some hb.runtimes).mp hlive
    have hkeeps : Keeps h.runtimes rt b := ⟨r, hr, hreach⟩
    rw [harm]
    refine steps_wait hb rt b.id (some k.lastId) (hb.timers.arm hb.runtimes hkeeps (fun hF ho => ?_) ⟨r, hr, rfl⟩
      (hdebounced hkeeps rfl) hk hlast (fun {t} => by simp) htimers)
    obtain ⟨b', hb', hid⟩ := hbound hF ho
    exact keeps_unique hb.runtimes hb'.keeps hkeeps hid ▸ hb'

/-! ## Runtimes -/

theorem goes_addRuntime (hb : Books F h) (config : Directive.Config) (s : Setup) :
    Goes F h (h.addRuntime config s).2 := by
  -- A clock and a tracker may come first, empty both.
  have hclock : ∃ c cs, (if s.ownClock then (h.clocks.length, ({ h with clocks := h.clocks ++ [.new] } : Host))
      else (0, h)) = (c, { h with clocks := cs }) ∧ h.clocks.length ≤ cs.length ∧ c < cs.length ∧
      ∀ c', clockAt cs c' = clockAt h.clocks c' := by
    split
    · exact ⟨_, _, rfl, by simp, by simp, clockAt_append _⟩
    · exact ⟨_, h.clocks, rfl, Nat.le_refl _, hb.timers.session, fun _ => rfl⟩
  obtain ⟨c, cs, ec, hlen, hc, hcs⟩ := hclock
  unfold addRuntime
  dsimp only
  rw [ec]
  dsimp only
  have hadd : ∀ {r : Runtime Script} {ts : List (Tracker Waiter)}, r.bindings = [] → r.leaving = [] → r.clock = c →
      ListenerBooks F (h.runtimes ++ [r]) ts h.page.globals h.page.listeners →
      EntryBooks F (h.runtimes ++ [r]) ts h.sharedTrackers →
      Goes F h { h with
        page := (h.page.observe (.runtime h.runtimes.length)).2, clocks := cs, trackers := ts,
        runtimes := h.runtimes ++ [r] } := by
    intro r ts hr hl hrc hlisteners hentries
    subst hrc
    have htimers := hb.timers.addRuntime hr hl hlen hcs hc
    refine ⟨⟨⟨fun {rt r'} hr' => ?_, hlisteners, hentries, htimers⟩, ⟨later_append _ r, .rfl _⟩, calm_append _ hr hl⟩,
      still_of_waits hb.timers htimers hb.runtimes (later_append _ r) (fun {c' t rt id e} ht _ => ?_)
        (fun hkeeps hbinds hid => ?_) fun hleaves _ => ⟨_, (leaves_append hl).mp hleaves, rfl⟩⟩
    · rcases append_eq_some.mp hr' with hr' | ⟨-, rfl⟩
      · exact hb.runtimes hr'
      · exact Runtime.sound_bare hr hl
    · rw [hcs] at ht
      exact ht
    · rw [keeps_unique hb.runtimes ((binds_append hr).mp hbinds).keeps hkeeps hid]
  cases hshared : s.tracker.bind (h.sharedTrackers[·]?) with
  | some t =>
    dsimp only
    have ht : t ∈ h.sharedTrackers := by
      obtain ⟨i, -, hi⟩ := Option.bind_eq_some_iff.mp hshared
      exact List.mem_of_getElem? hi
    exact hadd rfl rfl rfl (hb.listeners.addRuntime rfl (fun _ => rfl) fun ho => by cases ho)
      (hb.entries.addRuntime rfl (fun _ => rfl) (hb.entries.places.addUser ht rfl) (.inr rfl))
  | none =>
    dsimp only
    have he : trackerAt h.trackers h.trackers.length = .empty := trackerAt_of_le (Nat.le_refl _)
    refine hadd rfl rfl rfl (hb.listeners.addRuntime rfl (fun k => by rw [trackerAt_append]) fun _ => by rw [he]; rfl)
      (hb.entries.addRuntime rfl (fun k => trackerAt_append _ k) ?_ (.inl he))
    rw [List.length_append]
    exact hb.entries.places.addOwner rfl

/-! ## Resets -/

theorem unlistened (es : List (String × Nat)) (h : Host) :
    ∃ ls, es.foldl (fun h e => (h.unlisten e.2).2) h = h.setListeners ls ∧
      (h.page.listeners.Sound → Listeners.Filtered (fun l => !es.any (·.2 == l.id)) h.page.listeners ls) := by
  induction es generalizing h with
  | nil => exact ⟨_, rfl, fun hs => Listeners.filtered_all hs⟩
  | cons e es ih =>
    obtain ⟨ls, heq, hls⟩ := ih (h.unlisten e.2).2
    refine ⟨ls, heq, fun hs => ?_⟩
    have hf := Listeners.filtered_remove hs e.2
    refine (hf.trans (hls hf.sound)).congr fun l => ?_
    simp [bne, Bool.beq_comm]

/-- A tracker is reset that has nothing to keep. -/
theorem goes_resetTracker (hb : Books F h) {k : Nat}
    (none : ∀ {rt b}, F rt → Owns h.runtimes rt k → Binds h.runtimes rt b → b.plan.isOutside = false) :
    Goes F h (h.resetTracker k) := by
  obtain ⟨ls, heq, hls⟩ := unlistened (h.tracker k).installed h
  have hf := hls hb.listeners.sound
  unfold resetTracker
  dsimp only
  rw [heq]
  change Goes F h ((h.setListeners ls).setTracker k (h.tracker k).reset)
  by_cases hk : k < h.trackers.length
  · have hat : ∀ k', trackerAt ((h.setListeners ls).setTracker k (h.tracker k).reset).trackers k' =
        if k = k' then (h.tracker k).reset else trackerAt h.trackers k' := fun k' => trackerAt_set _ k' hk
    have hne : ∀ {k'}, k' ≠ k →
        trackerAt ((h.setListeners ls).setTracker k (h.tracker k).reset).trackers k' = trackerAt h.trackers k' :=
      fun hne => (hat _).trans (if_neg (Ne.symm hne))
    have hone := (hat k).trans (if_pos rfl)
    refine ⟨⟨⟨hb.runtimes, ?_, hb.entries.reset (by simp [setTracker, setListeners]) hne hone none, hb.timers⟩,
      ⟨.rfl _, later_filtered hf⟩, .rfl _⟩, .rfl _ _⟩
    refine hb.listeners.reset hf (fun {l} => ?_) (fun hne' => by rw [hne hne']) (by rw [hone]; rfl)
    simp only [Bool.not_eq_false', List.any_eq_true, beq_iff_eq]
    constructor
    · rintro ⟨e, he, hid⟩
      exact ⟨e.1, hid ▸ he⟩
    · rintro ⟨name, he⟩
      exact ⟨_, he, rfl⟩
  · have he : h.tracker k = .empty := trackerAt_of_le (Nat.le_of_not_lt hk)
    rw [he] at heq
    have heq : h = h.setListeners ls := heq
    rw [← heq]
    unfold setTracker
    rw [set_of_le _ (Nat.le_of_not_lt hk)]
    exact .rfl hb

theorem goes_resetOutside (hb : Books F h) (rt : Nat) : Goes F h (h.resetOutside rt) := by
  unfold resetOutside runtime?
  split
  · exact .rfl hb
  · rename_i r hr
    have hg := goes_unbindAll hb rt r.outsideBindings
    refine hg.trans (goes_resetTracker hg.books fun {rt' b} hF ho hbound => ?_)
    obtain ⟨hbound, hn⟩ := (binds_unbindAll hb).mp hbound
    obtain ⟨r', hr', h₀⟩ := hbound
    have hrt := hb.entries.places.alone (hg.onward.owned hr' ho) ⟨r, hr, rfl⟩
    subst hrt
    cases hr.symm.trans hr'
    refine (Bool.not_eq_true _).mp fun hout => hn ⟨rfl, ?_⟩
    exact List.mem_map_of_mem (List.mem_filter.mpr ⟨h₀, hout⟩)

end Eventful.Host
