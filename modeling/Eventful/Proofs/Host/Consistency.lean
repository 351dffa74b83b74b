import Eventful.Proofs.Host.Conduct

/-
  Eventful.Proofs.Host.Consistency — the registrations of a runtime with its own tracker.

  A binding lives in four places: the runtime's table, the listener store, the tracker and
  the clock. `Consistent` says that the other three hold exactly what the table asks for:
  one listener for every binding that listens, one entry and one document listener for
  every `.outside` binding, and nothing that no binding asks for.

  - `session_consistent`: so it is at every moment of every session, inside callbacks and
    between them, as long as nobody removes the runtime's registrations behind its back.
    At every moment but that at which a timer begins to ring, a binding that waits has its
    timer pending as well (`Armed`).
-/

namespace Eventful.Host

open Page Binding

variable {h : Host} {rt k : Nat} {r : Runtime Script} {b : Bound} {l : Listener Reaction}

/-! ## One row of a key -/

theorem filter_key {α β : Type} [BEq β] [LawfulBEq β] {f : α → β} {as : List α} (hn : (as.map f).Nodup) {a : α}
    (ha : a ∈ as) : as.filter (f · == f a) = [a] := by
  induction as with
  | nil => cases ha
  | cons x as ih =>
    obtain ⟨hx, hn⟩ := List.nodup_cons.mp hn
    rcases List.mem_cons.mp ha with rfl | ha
    · have hnone : as.filter (f · == f a) = [] := by
        refine List.filter_eq_nil_iff.mpr fun y hy e => hx ?_
        exact beq_iff_eq.mp e ▸ List.mem_map_of_mem hy
      rw [List.filter_cons, if_pos (beq_self_eq_true _), hnone]
    · have hne : ¬(f x == f a) = true := fun e => hx (beq_iff_eq.mp e ▸ List.mem_map_of_mem ha)
      rw [List.filter_cons, if_neg hne, ih hn ha]

theorem ids_of_sound {ls : Listeners Reaction} (hs : ls.Sound) (t : Target) : ((ls.of t).map (·.id)).Nodup :=
  List.pairwise_map.mpr ((hs.ordered t).imp Nat.ne_of_lt)

/-! ## What is asked for -/

/-- The binding waits as this listener of the store, and as no other. -/
structure Heard (ls : Listeners Reaction) (g : Globals) (rt : Nat) (b : Bound) (l : Listener Reaction) : Prop where
  listener : b.listener = some l.id
  filed : (ls.of (b.plan.place.target b.element)).filter (·.id == l.id) = [l]
  event : l.event = b.plan.event
  options : l.options = b.plan.options
  action : l.action = .binding rt b.id
  only : ∀ {t l'}, ls.Stands t l' → l'.action = .binding rt b.id → t = b.plan.place.target b.element ∧ l' = l
  present : g.has (b.plan.place.target b.element) = true

/-- The tracker hears of an event name by this capturing document listener, and by no other. -/
structure Installed (ls : Listeners Reaction) (k : Nat) (tracker : Tracker Waiter) (name : String)
    (l : Listener Reaction) : Prop where
  listed : tracker.installed.filter (·.1 == name) = [(name, l.id)]
  filed : (ls.of .document).filter (·.id == l.id) = [l]
  event : l.event = name
  options : l.options = ⟨true, false, false⟩
  action : l.action = .tracker k
  only : ∀ {t l'}, ls.Stands t l' → l'.action = .tracker k → l'.event = name → t = .document ∧ l' = l

/-- The `.outside` binding waits as one entry of the tracker, and as no listener. -/
structure Entered (ls : Listeners Reaction) (rt k : Nat) (tracker : Tracker Waiter) (b : Bound) : Prop where
  listener : b.listener = none
  unheard : ∀ {t l}, ls.Stands t l → l.action ≠ .binding rt b.id
  entry : tracker.entries.filter (·.binding == b.id) = [⟨b.id, b.element, b.plan.event, .binding rt b.id⟩]
  installed : ∃ l, Installed ls k tracker b.plan.event l

/-- What is registered for the runtime `r` at `rt` is what its bindings ask for. -/
structure Consistent (h : Host) (rt : Nat) (r : Runtime Script) : Prop where
  store : h.page.listeners.Sound
  ids : (r.bindings.map (·.id)).Nodup
  inside : ∀ b ∈ r.bindings, b.plan.isOutside = false → ∃ l, Heard h.page.listeners h.page.globals rt b l
  apart : ∀ b ∈ r.bindings, ∀ b' ∈ r.bindings, ∀ id, b.listener = some id → b'.listener = some id → b' = b
  outside : ∀ b ∈ r.bindings, b.plan.isOutside = true →
    Entered h.page.listeners rt r.tracker (h.tracker r.tracker) b
  /-- No listener but a bound binding's. -/
  listeners : ∀ {t l id}, h.page.listeners.Stands t l → l.action = .binding rt id →
    ∃ b ∈ r.bindings, b.id = id ∧ b.plan.isOutside = false ∧ Heard h.page.listeners h.page.globals rt b l
  /-- No listener of the tracker but the one of an event name. -/
  trackers : ∀ {t l}, h.page.listeners.Stands t l → l.action = .tracker r.tracker →
    Installed h.page.listeners r.tracker (h.tracker r.tracker) l.event l
  /-- No entry but a bound binding's. -/
  entries : ∀ w ∈ (h.tracker r.tracker).entries,
    ∃ b ∈ r.bindings, b.plan.isOutside = true ∧ w = ⟨b.id, b.element, b.plan.event, .binding rt b.id⟩
  elsewhere : ∀ {k w id}, w ∈ (h.tracker k).entries → w.action = .binding rt id → k = r.tracker
  /-- No timer but the one that a bound binding waits for. -/
  timers : ∀ {c t id e}, t ∈ (h.clock c).timers → t.action = .binding rt id e →
    c = r.clock ∧ (h.clock c).timers.filter (·.id == t.id) = [t] ∧ ∃ b ∈ r.bindings, b.id = id ∧ b.waiting = some t.id
  /-- No binding waits for another's timer. -/
  waits : ∀ b ∈ r.bindings, ∀ t ∈ (h.clock r.clock).timers, b.waiting = some t.id →
    ∃ e, t.action = .binding rt b.id e

/-- Every binding that waits has its timer pending. -/
def Armed (h : Host) (rt : Nat) (r : Runtime Script) : Prop :=
  ∀ b ∈ r.bindings, ∀ i, b.waiting = some i →
    ∃ due e, (h.clock r.clock).timers.filter (·.id == i) = [⟨i, due, .binding rt b.id e⟩]

/-! ## The books have it -/

section

variable {F : Nat → Prop} {rs : Runtimes} {ts : List (Tracker Waiter)} {g : Globals} {ls : Listeners Reaction}

theorem heard_of_stands (hs : ∀ {rt : Nat} {r : Runtime Script}, rs[rt]? = some r → r.Sound)
    (hb : ListenerBooks F rs ts g ls) (hbound : Binds rs rt b) {t : Target} (hl : ls.Stands t l) (hfits : Fits rt b t l) :
    Heard ls g rt b l where
  listener := hfits.listener
  filed := filter_key (f := (·.id)) (ids_of_sound hb.sound _) (hfits.target ▸ hl)
  event := hfits.event
  options := hfits.options
  action := hfits.action
  only := by
    intro t' l' hl' ha
    -- The other listener's binding has the same id, so it is this one, and holds one id.
    obtain ⟨b', hb', hfits'⟩ := hb.backed hl' ha
    have hid : b'.id = b.id := by
      have := hfits'.action.symm.trans ha
      injection this
    cases keeps_unique hs hb'.keeps hbound.keeps hid
    have e : l'.id = l.id := Option.some.inj (hfits'.listener.symm.trans hfits.listener)
    exact ⟨hfits'.target, (hb.sound.distinct hl' hl e).2⟩
  present := hb.present hbound

theorem installed_of_listed (hb : ListenerBooks F rs ts g ls) (hF : F rt) (ho : Owns rs rt k)
    (hn : ((trackerAt ts k).installed.map (·.1)).Nodup) {name : String} {id : Nat}
    (hi : (name, id) ∈ (trackerAt ts k).installed) :
    Installed ls k (trackerAt ts k) name ⟨id, name, capturing, .tracker k⟩ where
  listed := filter_key (f := (·.1)) hn hi
  filed := filter_key (f := (·.id)) (ids_of_sound hb.sound _) (hb.standing hF ho hi)
  event := rfl
  options := rfl
  action := rfl
  only := by
    intro t l hl ha he
    obtain ⟨ht, -, hi'⟩ := hb.serves hl ha
    have hid : (l.event, l.id) = (name, id) := List.inj_on_of_nodup_map hn hi' hi he
    exact ⟨ht, (hb.sound.distinct hl (hb.standing hF ho hi) (congrArg Prod.snd hid)).2⟩

end

theorem consistent_of_books (hb : Books (· = rt) h) (hr : h.runtimes[rt]? = some r) (ho : r.ownsTracker = true) :
    Consistent h rt r := by
  have hbinds : ∀ {b}, b ∈ r.bindings → Binds h.runtimes rt b := fun h₀ => ⟨r, hr, h₀⟩
  have hmem : ∀ {b}, Binds h.runtimes rt b → b ∈ r.bindings := by
    intro b ⟨r', hr', h₀⟩
    cases hr.symm.trans hr'
    exact h₀
  have howns : Owns h.runtimes rt r.tracker := ⟨r, hr, ho, rfl⟩
  have hown := hb.entries.own (F := (· = rt)) rfl howns
  have hticks : ∀ {c}, Ticks h.runtimes rt c → c = r.clock := fun ht => ht.unique ⟨r, hr, rfl⟩
  refine ⟨hb.listeners.sound, (hb.runtimes hr).boundIds, ?_, ?_, ?_, ?_, ?_, ?_, ?_, ?_, ?_⟩
  · intro b h₀ hin
    obtain ⟨t, l, hl, hfits⟩ := hb.listeners.filed rfl (hbinds h₀) hin
    exact ⟨l, heard_of_stands hb.runtimes hb.listeners (hbinds h₀) hl hfits⟩
  · intro b h₀ b' h₀' id he he'
    have hin : b.plan.isOutside = false := by
      refine (Bool.not_eq_true _).mp fun hout => ?_
      cases ((hb.runtimes hr).outsideUnheard (.inl h₀) hout).symm.trans he
    obtain ⟨t, l, hl, hfits⟩ := hb.listeners.filed rfl (hbinds h₀) hin
    have hid : l.id = id := Option.some.inj (hfits.listener.symm.trans he)
    have ha := hfits.action.symm.trans ((hb.listeners.mine (hbinds h₀') he').2 hl hid)
    injection ha with _ hid'
    exact (hb.runtimes hr).unique (.inl h₀') (.inl h₀) hid'.symm
  · intro b h₀ hout
    have hentry := hown.entered (hbinds h₀) hout
    obtain ⟨⟨name, id⟩, hi, he⟩ := List.any_eq_true.mp (hown.served hentry)
    cases beq_iff_eq.mp he
    refine ⟨(hb.runtimes hr).outsideUnheard (.inl h₀) hout, ?_, ?_, _, installed_of_listed hb.listeners rfl howns hown.names hi⟩
    · intro t l hl ha
      obtain ⟨b', hb', hfits⟩ := hb.listeners.backed hl ha
      have hid : b'.id = b.id := by
        have := hfits.action.symm.trans ha
        injection this
      cases keeps_unique hb.runtimes hb'.keeps (hbinds h₀).keeps hid
      exact absurd (hfits.inside.symm.trans hout) Bool.false_ne_true
    · exact filter_key (f := (·.binding)) hown.distinct hentry
  · intro t l id hl ha
    obtain ⟨b, hbound, hfits⟩ := hb.listeners.backed hl ha
    refine ⟨b, hmem hbound, ?_, hfits.inside, heard_of_stands hb.runtimes hb.listeners hbound hl hfits⟩
    have := hfits.action.symm.trans ha
    injection this
  · intro t l hl ha
    obtain ⟨-, -, hi⟩ := hb.listeners.serves hl ha
    have hin := installed_of_listed hb.listeners rfl howns hown.names hi
    rw [← (hin.only hl ha rfl).2] at hin
    exact hin
  · intro w hw
    obtain ⟨id, ha⟩ := hown.mine hw
    obtain ⟨b, hbound, -, hout, rfl⟩ := hb.entries.backed hw ha
    exact ⟨b, hmem hbound, hout, rfl⟩
  · intro k w id hw ha
    obtain ⟨b, -, huses, -, -⟩ := hb.entries.backed hw ha
    exact huses.unique ⟨r, hr, rfl⟩
  · intro c t id e ht ha
    obtain ⟨b, hkeeps, htick, rfl, hw⟩ := hb.timers.backed ht ha
    refine ⟨hticks htick, filter_key (f := (·.id)) (hb.timers.sound c).ids ht, ?_⟩
    rcases keeps_iff.mp hkeeps with hbound | hleaves
    · exact ⟨b, hmem hbound, rfl, hw⟩
    · cases (hb.timers.left rfl howns hleaves).symm.trans hw
  · intro b h₀ t ht hw
    exact (hb.timers.mine (hbinds h₀).keeps ⟨r, hr, rfl⟩ hw).2 ht rfl

theorem armed_of_books (hb : Books (· = rt) h) (hr : h.runtimes[rt]? = some r) : Armed h rt r := by
  intro b h₀ i hw
  have hbound : Binds h.runtimes rt b := ⟨r, hr, h₀⟩
  have hticks : Ticks h.runtimes rt r.clock := ⟨r, hr, rfl⟩
  obtain ⟨t, ht, rfl⟩ := hb.timers.armed rfl hbound hticks hw
  obtain ⟨e, ha⟩ := (hb.timers.mine hbound.keeps hticks hw).2 ht rfl
  refine ⟨t.due, e, ?_⟩
  rw [← ha]
  exact filter_key (f := (·.id)) (hb.timers.sound r.clock).ids ht

/-- A clock loses a timer when it rings, and no other clock changes. -/
theorem clock_take {c : Nat} {t : Timer Alarm} {q : Clock Alarm} (ht : (h.clock c).takeFirst? = some (t, q)) (c' : Nat) :
    ∃ p : Timer Alarm → Bool, ((h.setClock c q).clock c').timers = (h.clock c').timers.filter p := by
  obtain ⟨hm, -, hq⟩ := Clock.takeFirst?_eq_some ht
  by_cases hc : c < h.clocks.length
  · have hat : (h.setClock c q).clock c' = if c = c' then q else h.clock c' := clockAt_set q c' hc
    rw [hat]
    split
    · rename_i e
      subst e
      exact ⟨_, by rw [hq]⟩
    · exact ⟨fun _ => true, (List.filter_eq_self.mpr fun _ _ => rfl).symm⟩
  · have he : h.clock c = .new := clockAt_of_le (Nat.le_of_not_lt hc)
    rw [he] at hm
    cases hm

/-- Nothing that stays depends on a timer that was just taken. -/
theorem Consistent.take {c : Nat} {t : Timer Alarm} {q : Clock Alarm} (hc : Consistent h rt r)
    (ht : (h.clock c).takeFirst? = some (t, q)) : Consistent (h.setClock c q) rt r := by
  refine ⟨hc.store, hc.ids, hc.inside, hc.apart, hc.outside, hc.listeners, hc.trackers, hc.entries, hc.elsewhere,
    ?_, ?_⟩
  · intro c' u id e hu ha
    obtain ⟨p, hp⟩ := clock_take ht c'
    rw [hp] at hu ⊢
    obtain ⟨hu, hpu⟩ := List.mem_filter.mp hu
    obtain ⟨ec, hone, hb⟩ := hc.timers hu ha
    refine ⟨ec, ?_, hb⟩
    rw [List.filter_filter, List.filter_congr fun x _ => Bool.and_comm (x.id == u.id) (p x), ← List.filter_filter, hone]
    exact List.filter_eq_self.mpr fun x hx => List.mem_singleton.mp hx ▸ hpu
  · intro b h₀ u hu hw
    obtain ⟨p, hp⟩ := clock_take ht r.clock
    rw [hp] at hu
    exact hc.waits b h₀ u (List.mem_filter.mp hu).1 hw

/-! ## At every moment -/

/-- The moment is the one at which a timer begins to ring. -/
def Moment.IsRing : Moment → Prop
  | .begins (.ring _ _) _ => True
  | _ => False

/-- The books are in order, or they were when the timer that begins to ring was taken. -/
theorem fit_cases {F : Nat → Prop} {m : Moment} {tr : History} (hm : Fit F m tr) :
    Books F m.host ∨ (m.IsRing ∧ ∃ h₀ c t q, Books F h₀ ∧ (h₀.clock c).takeFirst? = some (t, q) ∧
      m.host = h₀.setClock c q) := by
  cases m with
  | ends t r h => exact .inl hm.1.books
  | begins t h =>
    cases t with
    | listen l e => exact .inl hm.1.books
    | outside w e => exact .inl hm.1.books
    | effect rt b e => exact .inl hm.1.books
    | ring c t =>
      obtain ⟨h₀, q, hk, ht, e, -⟩ := hm
      exact .inr ⟨trivial, h₀, c, t, q, hk.books, ht, e⟩
    | _ => exact .inl (Kept.books hm)

/-- The books are those of the bindings, also when a timer was just taken. -/
theorem consistent_of_fit {m : Moment} {tr : History} (hm : Fit (· = rt) m tr) (hr : m.host.runtimes[rt]? = some r)
    (ho : r.ownsTracker = true) : Consistent m.host rt r := by
  rcases fit_cases hm with hb | ⟨-, h₀, c, t, q, hb, ht, e⟩
  · exact consistent_of_books hb hr ho
  · rw [e] at hr ⊢
    exact (consistent_of_books hb hr ho).take ht

/-- At every moment of a session that spares the runtime at `rt`, its listeners, its entries
    and its timers are those of its bindings. -/
theorem session_consistent (depth : Nat) (as : List Action) (url : String) (globals : Globals) (scopes : List Value)
    (rt : Nat) (hf : ∀ m ∈ (play depth as (.new url globals scopes) []).2, Fair (· = rt) m) (m : Moment)
    (hm : m ∈ (play depth as (.new url globals scopes) []).2) (r : Runtime Script)
    (hr : m.host.runtimes[rt]? = some r) (ho : r.ownsTracker = true) :
    Consistent m.host rt r ∧ (¬m.IsRing → Armed m.host rt r) := by
  obtain ⟨_, hfit⟩ := (session_told depth as url globals scopes hf).mem hm
  refine ⟨consistent_of_fit hfit hr ho, fun hn => ?_⟩
  rcases fit_cases hfit with hb | ⟨hring, -⟩
  · exact armed_of_books hb hr
  · exact absurd hring hn

/-- A runtime with a listening and an `.outside` binding on the body, and a click there. -/
def clickedBindings : List Action :=
  [.newRuntime ⟨none, false, none, .custom fun _ _ => .done (.ok .undefined)⟩,
    .bindDirective 0 3 ⟨"x-on:click", "click", [], "open = true"⟩ 0,
    .bindDirective 0 3 ⟨"x-on:click.outside", "click", [.outside], "open = false"⟩ 0,
    .click 3]

/-- In the midst of the click. -/
theorem clickedBindings_consistent : ∃ b e h r,
    Moment.begins (.effect 0 b e) h ∈ (play 3 clickedBindings (.new "" .browser []) []).2 ∧
      h.runtimes[0]? = some r ∧ r.bindings.map (·.plan.isOutside) = [false, true] ∧ Consistent h 0 r ∧ Armed h 0 r := by
  have hf : ∀ m ∈ (play 3 clickedBindings (.new "" .browser []) []).2, Fair (· = 0) m := by
    repeat' first | exact List.forall_mem_nil _ | refine List.forall_mem_cons.mpr ⟨trivial, ?_⟩
  have hm := session_consistent 3 clickedBindings "" .browser [] 0 hf _ (List.mem_of_getElem? (i := 3) rfl) _ rfl rfl
  exact ⟨_, _, _, _, List.mem_of_getElem? (i := 3) rfl, rfl, rfl, hm.1, hm.2 id⟩

end Eventful.Host
