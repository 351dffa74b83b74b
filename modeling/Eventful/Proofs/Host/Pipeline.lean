import Eventful.Proofs.Directive.Chain
import Eventful.Proofs.Directive.Keys
import Eventful.Proofs.Host.Once
import Eventful.Proofs.Host.Walks

/-
  Eventful.Proofs.Host.Pipeline — what a binding does with an event that reaches it.

  The words in the attribute say it all, in whatever order they stand (`Piped`): which
  events are turned away, what is done to the others, and whether the expression is
  evaluated before the event goes on or an event waits for it.

  - `session_piped`: so does every binding of a session, whatever its evaluation may do.
-/

namespace Eventful.Host

open Page Binding Directive

variable {h h' : Host} {tr earlier : History} {rt : Nat} {r : Runtime Script} {b : Bound} {e e' : Event} {cs : List Call}
  {words : List String} {c : Config} {attr expression : String}

/-! ## What words say -/

/-- The binding stops events; an outside one does not. -/
def Stops (words : List String) : Prop := "stop" ∈ words ∧ "outside" ∉ words ∧ "away" ∉ words

/-- The binding waits for events that start outside of its element. -/
def Outward (words : List String) : Prop := "outside" ∈ words ∨ "away" ∈ words

instance (words : List String) : Decidable (Stops words) := inferInstanceAs (Decidable (_ ∧ _ ∧ _))

instance (words : List String) : Decidable (Outward words) := inferInstanceAs (Decidable (_ ∨ _))

/-- The event as the binding marks it. -/
def marked (words : List String) (e : Event) : Event :=
  let e := if Stops words then e.stop else e
  if "prevent" ∈ words then e.prevent else e

/-- The event as the outcome of the expression leaves it. -/
def answered (e : Event) : Outcome → Event
  | .ok (.boolean false) => e.prevent
  | _ => e

/-- The event does not start outside of the element, or the element is not to be seen. -/
def Missed (words : List String) (h : Host) (b : Bound) (e : Event) : Prop :=
  Outward words ∧ acceptsOutside h.page.tree b.element e.target = false

/-- An error hook is called. -/
def Call.Reports (c : Call) : Prop := ∃ s f h h', c = ⟨.hook s f, h, (), h'⟩

/-- What a binding with these words in its attribute does with an event that reaches it in
    `h`: the calls that it makes, the event as it comes back, and the host as that is left. -/
structure Piped (words : List String) (rt : Nat) (r : Runtime Script) (b : Bound) (e : Event) (h : Host) (cs : List Call)
    (e' : Event) (h' : Host) : Prop where
  /-- An event that the key names do not want changes nothing. -/
  refused : ¬Wants (keyNames words) e → cs = [] ∧ e' = e ∧ h' = h
  stopped : Wants (keyNames words) e → (e'.stopped = true ↔ e.stopped = true ∨ Stops words)
  /-- A binding that prevents is never passive. -/
  prevented : Wants (keyNames words) e → "prevent" ∈ words →
    b.plan.options.passive = false ∧ e.passive = false ∧ (e.cancelable = true → e'.prevented = true)
  missed : Wants (keyNames words) e → Missed words h b e → cs = [] ∧ e' = marked words e ∧ h' = h
  /-- Without `debounce` the expression is evaluated once and at once. -/
  evaluated : Wants (keyNames words) e → ¬Missed words h b e → "debounce" ∉ words →
    ∃ out h₁ reports, cs = ⟨.effect rt b (marked words e), begun h rt b, out, h₁⟩ :: reports ∧
      (∀ c ∈ reports, c.Reports) ∧ e' = answered (marked words e) out
  /-- With `debounce` the wait starts anew with a copy of the event, and the event goes on
      before anything is evaluated. -/
  waits : Wants (keyNames words) e → ¬Missed words h b e → "debounce" ∈ words →
    cs = [] ∧ e' = marked words e ∧
      h' = ({ h with clocks := h.clocks.set r.clock (rearmed (h.clock r.clock) b.waiting
          ((Modifier.waits b.directive.modifiers).head?.getD r.config.defaultWait)
          (.binding rt b.id (marked words e))) } : Host).editRuntime rt
        (·.edit b.id fun b => { b with waiting := some ((h.clock r.clock).lastId + 1) })

/-! ## Guards one after the other -/

section

variable {rest : List Guard} {x : Bool}

theorem passes_of_isEmpty {f : KeyFilter} (hf : f.isEmpty = true) : f.passes e = true := by
  obtain ⟨hkeys, hheld⟩ := Bool.and_eq_true_iff.mp hf
  unfold KeyFilter.passes
  rw [hkeys, List.isEmpty_iff.mp hheld]
  rfl

theorem passGuards_key (f : KeyFilter) :
    passGuards rt b e ((if f.isEmpty then [] else [.key f]) ++ rest) =
      if f.passes e then passGuards rt b e rest else pure e := by
  cases hf : f.isEmpty with
  | true =>
    rw [passes_of_isEmpty hf]
    rfl
  | false => rfl

theorem passGuards_stop :
    passGuards rt b e ((if x then [.stop] else []) ++ rest) = passGuards rt b (if x then e.stop else e) rest := by
  cases x <;> rfl

theorem passGuards_prevent :
    passGuards rt b e ((if x then [.prevent] else []) ++ rest) = passGuards rt b (if x then e.prevent else e) rest := by
  cases x <;> rfl

theorem gives_outside (hg : (passGuards rt b e ((if x then [.outside] else []) ++ rest)).Gives h cs e' h') :
    (x = true ∧ acceptsOutside h.page.tree b.element e.target = false ∧ cs = [] ∧ e' = e ∧ h' = h) ∨
      (¬(x = true ∧ acceptsOutside h.page.tree b.element e.target = false) ∧
        (passGuards rt b e rest).Gives h cs e' h') := by
  cases x with
  | false => exact .inr ⟨fun hx => Bool.false_ne_true hx.1, hg⟩
  | true =>
    change Proc.Gives (if acceptsOutside h.page.tree b.element e.target then passGuards rt b e rest else pure e) h cs e' h'
      at hg
    cases ha : acceptsOutside h.page.tree b.element e.target with
    | true =>
      rw [ha] at hg
      exact .inr ⟨fun hx => Bool.false_ne_true hx.2.symm, hg⟩
    | false =>
      rw [ha] at hg
      exact .inl ⟨rfl, rfl, hg⟩

theorem passGuards_last (wait : Option Nat) :
    passGuards rt b e ((wait.map Guard.debounce).toList ++ (if x then [.once] else [])) =
      match wait with
      | some wait => do
        modify (·.arm rt b.id wait e)
        return e
      | none => complete rt b.id e := by
  cases wait with
  | some wait => rfl
  | none => cases x <;> rfl

end

theorem reports_of_gives {f : Failure} {ss : List Script} (hg : (report f ss).Gives h cs () h') : ∀ c ∈ cs, c.Reports := by
  induction ss generalizing h cs with
  | nil =>
    obtain ⟨rfl, -, -⟩ := hg
    exact List.forall_mem_nil _
  | cons s rest ih =>
    obtain ⟨r, h₁, cs, rfl, hrest⟩ := gives_call.mp hg
    exact List.forall_mem_cons.mpr ⟨⟨s, f, h, h₁, rfl⟩, ih hrest⟩

/-- What an evaluation calls: the expression, and error hooks after it. -/
theorem gives_complete (hlive : live? h rt b.id = some (r, b)) (hfresh : (b.plan.isOnce && b.fired) = false)
    (hg : (complete rt b.id e).Gives h cs e' h') :
    ∃ out h₁ reports, cs = ⟨.effect rt b e, begun h rt b, out, h₁⟩ :: reports ∧ (∀ c ∈ reports, c.Reports) ∧
      e' = answered e out := by
  unfold complete at hg
  rw [gives_get, hlive] at hg
  simp only [hfresh] at hg
  obtain ⟨out, h₁, reports, rfl, hrest⟩ := hg
  refine ⟨out, h₁, reports, rfl, ?_⟩
  cases out with
  | error fault =>
    obtain ⟨_, h₂, calls₁, calls₂, rfl, hreport, hrest⟩ := gives_bind.mp (show Proc.Gives (report _ _ >>= _) h₁ _ _ _ from hrest)
    obtain ⟨rfl, rfl⟩ := gives_windUp hrest
    rw [List.append_nil]
    exact ⟨reports_of_gives hreport, rfl⟩
  | ok v =>
    have hother : ∀ e₁, (windUp rt b.id b.plan.isOnce e₁).Gives h₁ reports e' h' →
        (∀ c ∈ reports, c.Reports) ∧ e' = e₁ := by
      intro e₁ hg
      obtain ⟨rfl, rfl⟩ := gives_windUp hg
      exact ⟨List.forall_mem_nil _, rfl⟩
    cases v with
    | boolean x =>
      cases x with
      | true => exact hother e hrest
      | false => exact hother e.prevent hrest
    | _ => exact hother e hrest

/-! ## The pipeline -/

theorem wants_congr {names names' : List String} (h : ∀ name, name ∈ names ↔ name ∈ names') : Wants names e ↔ Wants names' e := by
  have hone : ∀ {names names' : List String}, (∀ name, name ∈ names ↔ name ∈ names') → Wants names e → Wants names' e := by
    intro names names' h hw
    refine ⟨fun name hn => hw.held name ((h name).mpr hn), fun key hkey ⟨name, hn, hm⟩ => ?_⟩
    obtain ⟨name', hn', hm', ha⟩ := hw.key key hkey ⟨name, (h name).mpr hn, hm⟩
    exact ⟨name', (h name').mp hn', hm', ha⟩
  exact ⟨hone h, hone fun name => (h name).symm⟩

/-- The words say what the summary of the directive has. -/
structure Spells (words : List String) (s : Summary) : Prop where
  stop : s.stop = true ↔ "stop" ∈ words
  prevent : s.prevent = true ↔ "prevent" ∈ words
  outside : s.outside = true ↔ Outward words
  once : s.once = true ↔ "once" ∈ words
  debounce : s.debounce.isSome = true ↔ "debounce" ∈ words
  keys : ∀ name, name ∈ s.keys ↔ name ∈ keyNames words

theorem spells_of_parse {d : Directive} (hp : Directive.parse c attr expression = .ok d) : Spells (chain c attr) d.summary where
  stop := Summary.stop_ofModifiers.trans (stop_mem_modifiers hp)
  prevent := Summary.prevent_ofModifiers.trans (prevent_mem_modifiers hp)
  outside := Summary.outside_ofModifiers.trans (outside_mem_modifiers hp)
  once := Summary.once_ofModifiers.trans (once_mem_modifiers hp)
  debounce := Summary.debounce_ofModifiers.trans (debounce_mem_modifiers hp)
  keys _ := Summary.mem_keys_ofModifiers.trans (key_mem_modifiers hp)

theorem marked_of_spells {s : Summary} (hs : Spells words s) (e : Event) :
    (if s.prevent then (if s.stop && !s.outside then e.stop else e).prevent else if s.stop && !s.outside then e.stop else e) =
      marked words e := by
  have hstops : (s.stop && !s.outside) = true ↔ Stops words := by
    rw [Bool.and_eq_true, Bool.not_eq_true', ← Bool.not_eq_true, hs.stop, hs.outside, Outward, not_or]
    rfl
  unfold marked
  simp only [hstops, hs.prevent]

theorem stopped_prevent (e : Event) : e.prevent.stopped = e.stopped := by
  unfold Event.prevent
  split <;> rfl

theorem stopped_marked : (marked words e).stopped = true ↔ e.stopped = true ∨ Stops words := by
  have hstop : (if Stops words then e.stop else e).stopped = true ↔ e.stopped = true ∨ Stops words := by
    split
    · rename_i h
      exact ⟨fun _ => .inr h, fun _ => rfl⟩
    · rename_i h
      exact ⟨.inl, fun h' => h'.resolve_right h⟩
  unfold marked
  dsimp only
  split
  · rw [stopped_prevent]
    exact hstop
  · exact hstop

theorem stopped_answered (out : Outcome) : (answered e out).stopped = e.stopped := by
  unfold answered
  split
  · exact stopped_prevent e
  · rfl

theorem prevented_marked (hp : "prevent" ∈ words) (hpassive : e.passive = false) (hc : e.cancelable = true) :
    (marked words e).prevented = true := by
  have hstop : ∀ e' : Event, e'.cancelable = e.cancelable → e'.passive = e.passive → e'.prevent.prevented = true := by
    intro e' h₁ h₂
    unfold Event.prevent
    rw [h₁, h₂, hc, hpassive]
    rfl
  unfold marked
  dsimp only
  rw [if_pos hp]
  split <;> exact hstop _ rfl rfl

theorem prevented_answered (out : Outcome) (hp : e.prevented = true) : (answered e out).prevented = true := by
  unfold answered Event.prevent
  split
  · split
    · rfl
    · exact hp
  · exact hp

theorem target_marked (words : List String) (e : Event) : (marked words e).target = e.target := by
  unfold marked Event.prevent
  dsimp only
  split <;> split <;> first | rfl | split <;> rfl

/-- What can become of an event that the key names want. -/
inductive Taken (words : List String) (rt : Nat) (r : Runtime Script) (b : Bound) (e : Event) (h : Host) :
    List Call → Event → Host → Prop
  | missed : Missed words h b e → Taken words rt r b e h [] (marked words e) h
  | evaluated {out : Outcome} {h₁ h' : Host} {reports : List Call} : ¬Missed words h b e → "debounce" ∉ words →
    (∀ c ∈ reports, c.Reports) →
    Taken words rt r b e h (⟨.effect rt b (marked words e), begun h rt b, out, h₁⟩ :: reports)
      (answered (marked words e) out) h'
  | waits : ¬Missed words h b e → "debounce" ∈ words →
    Taken words rt r b e h [] (marked words e)
      (({ h with clocks := h.clocks.set r.clock (rearmed (h.clock r.clock) b.waiting
          ((Modifier.waits b.directive.modifiers).head?.getD r.config.defaultWait)
          (.binding rt b.id (marked words e))) } : Host).editRuntime rt
        (·.edit b.id fun b => { b with waiting := some ((h.clock r.clock).lastId + 1) }))

/-- It comes back as it was marked, or as the outcome left it then. -/
theorem Taken.event (ht : Taken words rt r b e h cs e' h') :
    e' = marked words e ∨ ∃ out, e' = answered (marked words e) out := by
  cases ht with
  | missed => exact .inl rfl
  | evaluated => exact .inr ⟨_, rfl⟩
  | waits => exact .inl rfl

theorem piped_of_taken (hw : Wants (keyNames words) e) (ht : Taken words rt r b e h cs e' h')
    (hp : "prevent" ∈ words → b.plan.options.passive = false ∧ e.passive = false) : Piped words rt r b e h cs e' h' where
  refused hn := absurd hw hn
  stopped _ := by
    rcases ht.event with rfl | ⟨out, rfl⟩
    · exact stopped_marked
    · rw [stopped_answered]
      exact stopped_marked
  prevented _ hmem := by
    refine ⟨(hp hmem).1, (hp hmem).2, fun hc => ?_⟩
    have hmarked := prevented_marked hmem (hp hmem).2 hc
    rcases ht.event with rfl | ⟨out, rfl⟩
    · exact hmarked
    · exact prevented_answered out hmarked
  missed _ hm := by
    cases ht with
    | missed => exact ⟨rfl, rfl, rfl⟩
    | evaluated hn => exact absurd hm hn
    | waits hn => exact absurd hm hn
  evaluated _ hm hd := by
    cases ht with
    | missed h => exact absurd h hm
    | evaluated _ _ hr => exact ⟨_, _, _, rfl, hr, rfl⟩
    | waits _ h => exact absurd h hd
  waits _ hm hd := by
    cases ht with
    | missed h => exact absurd h hm
    | evaluated _ h => exact absurd hd h
    | waits => exact ⟨rfl, rfl, rfl⟩

/-- The guards after those that mark the event. -/
theorem taken_of_gives (hlive : live? h rt b.id = some (r, b)) (hparse : Directive.parse r.config attr expression = .ok b.directive)
    (hfresh : (b.plan.isOnce && b.fired) = false)
    (hg : (passGuards rt b (marked (chain r.config attr) e) ((if b.directive.summary.outside then [.outside] else []) ++
      (((b.directive.summary.wait? r.config.defaultWait).map Guard.debounce).toList ++
        if b.directive.summary.once then [.once] else []))).Gives h cs e' h') :
    Taken (chain r.config attr) rt r b e h cs e' h' := by
  have hs := spells_of_parse hparse
  have hmissed : (b.directive.summary.outside = true ∧
      acceptsOutside h.page.tree b.element (marked (chain r.config attr) e).target = false) ↔
      Missed (chain r.config attr) h b e := by
    rw [target_marked, hs.outside]
    rfl
  rcases gives_outside hg with ⟨ho, ha, rfl, rfl, rfl⟩ | ⟨hn, hg⟩
  · exact .missed (hmissed.mp ⟨ho, ha⟩)
  · rw [hmissed] at hn
    rw [passGuards_last] at hg
    cases hwait : b.directive.summary.wait? r.config.defaultWait with
    | some wait =>
      rw [hwait] at hg
      obtain ⟨rfl, rfl, rfl⟩ := hg
      obtain ⟨hmem, rfl⟩ := Summary.wait?_ofModifiers.mp hwait
      dsimp only
      rw [arm_exact hlive]
      exact .waits hn ((debounce_mem_modifiers hparse).mp hmem)
    | none =>
      rw [hwait] at hg
      obtain ⟨out, h₁, reports, rfl, hr, rfl⟩ := gives_complete hlive hfresh hg
      refine .evaluated hn (fun hd => ?_) hr
      have := hs.debounce.mpr hd
      rw [Summary.wait?, Option.map_eq_none_iff] at hwait
      rw [hwait] at this
      cases this

theorem piped_of_gives (hlive : live? h rt b.id = some (r, b)) (hparse : Directive.parse r.config attr expression = .ok b.directive)
    (hfresh : "once" ∈ chain r.config attr → b.fired = false) (hbuilt : Plan.build r.config b.directive = .ok b.plan)
    (hpassive : e.passive = true → b.plan.options.passive = true) (hg : (fire rt b.id e).Gives h cs e' h') :
    Piped (chain r.config attr) rt r b e h cs e' h' := by
  have hs := spells_of_parse hparse
  obtain ⟨_, _, _, _, _, _, hguards⟩ := Plan.build_eq_ok hbuilt
  have hfresh' : (b.plan.isOnce && b.fired) = false := by
    cases honce : b.plan.isOnce with
    | false => rfl
    | true => exact hfresh ((once_mem_modifiers hparse).mp ((Plan.isOnce_iff hbuilt).mp honce))
  unfold fire at hg
  rw [gives_get, hlive] at hg
  simp only [hfresh', Bool.false_eq_true, if_false] at hg
  rw [hguards, Plan.guardsOf] at hg
  simp only [List.append_assoc] at hg
  rw [passGuards_key] at hg
  have hwants : (KeyFilter.ofNames b.directive.summary.keys).passes e = true ↔ Wants (keyNames (chain r.config attr)) e :=
    KeyFilter.passes_ofNames.trans (wants_congr hs.keys)
  by_cases hw : Wants (keyNames (chain r.config attr)) e
  · rw [if_pos (hwants.mpr hw), passGuards_stop, passGuards_prevent, marked_of_spells hs] at hg
    refine piped_of_taken hw (taken_of_gives hlive hparse hfresh' hg) fun hmem => ?_
    have hplan : b.plan.options.passive = false := by
      refine (Bool.not_eq_true _).mp fun hp => ?_
      exact ((Plan.passive_iff hbuilt).mp hp).2.1 ((prevent_mem_modifiers hparse).mpr hmem)
    refine ⟨hplan, (Bool.not_eq_true _).mp fun hp => ?_⟩
    rw [hpassive hp] at hplan
    cases hplan
  · rw [if_neg fun hp => hw (hwants.mp hp)] at hg
    obtain ⟨rfl, rfl, rfl⟩ := hg
    exact ⟨fun _ => ⟨rfl, rfl, rfl⟩, fun h => absurd h hw, fun h => absurd h hw, fun h => absurd h hw,
      fun h => absurd h hw, fun h => absurd h hw⟩

/-! ## Events as they reach bindings -/

variable {m : Moment} {later : History}

theorem listenerBooks_of_fit {F : Nat → Prop} (hm : Fit F m tr) :
    ListenerBooks F m.host.runtimes m.host.trackers m.host.page.globals m.host.page.listeners := by
  rcases fit_cases hm with hb | ⟨-, h₀, c, t, q, hb, -, e⟩
  · exact hb.listeners
  · rw [e]
    exact hb.listeners

/-- A tracker's listener is called with an event that can be prevented. -/
theorem unpassive_of_walk {F : Nat → Prop} {l : Listener Reaction} {k : Nat} (ha : l.action = .tracker k) (ht : Told F tr)
    (htended : Tended tr) (hp : (Moment.begins (.listen l e) h).Placed tr) : e.passive = false := by
  obtain ⟨hpassive, _, _, _, _, _, _, m₀, hm₀, hstands⟩ := summoned_of_listen hp htended
  obtain ⟨_, hfit⟩ := ht.mem hm₀
  rw [hpassive, ((listenerBooks_of_fit hfit).serves hstands ha).2.1]
  rfl

/-- A binding that was bound at an earlier moment is the one that goes by its id now. -/
theorem same_of_bound {F : Nat → Prop} {m₀ : Moment} {b₀ : Bound} (htold : Told F (m :: earlier)) (hbooks : Books F m.host)
    (hm₀ : m₀ ∈ earlier) (hbound : Binds m₀.host.runtimes rt b₀) (hlive : live? m.host rt b.id = some (r, b))
    (hid : b₀.id = b.id) : Same b₀ b := by
  obtain ⟨-, -, honward, hearlier⟩ := htold
  obtain ⟨_, hfit₀⟩ := hearlier.mem hm₀
  obtain ⟨r₀, hr₀, hmem₀⟩ := hbound
  obtain ⟨hr, -, hreach, -⟩ := (live?_eq_some hbooks.runtimes).mp hlive
  have hsound := sound_of_fit hfit₀ hr₀
  obtain ⟨b₁, ⟨r₁, hr₁, hreach₁⟩, hsame, -⟩ :=
    (honward m₀ hm₀).reached hr₀ ⟨r, hr, hreach⟩ (hid ▸ hsound.issued (.inl hmem₀))
  cases hr₀.symm.trans hr₁
  cases hsound.unique (.inl hmem₀) hreach₁ (hid.trans hsame.id)
  exact hsame

/-- A listener that was made for a binding is still the one that the binding waits as. -/
theorem fits_of_listen {F : Nat → Prop} {l : Listener Reaction} (htold : Told F (.begins (.listen l e) h :: earlier))
    (htended : Tended earlier) (hp : (Moment.begins (.listen l e) h).Placed earlier) (ha : l.action = .binding rt b.id)
    (hlive : live? h rt b.id = some (r, b)) : e.passive = b.plan.options.passive ∧ ∃ t, Fits rt b t l := by
  obtain ⟨hl, _, _, _, _, _, _, m₀, hm₀, hstands⟩ := summoned_of_listen hp htended
  obtain ⟨_, hfit₀⟩ := htold.2.2.2.mem hm₀
  obtain ⟨b₀, hbound, hfits⟩ := (listenerBooks_of_fit hfit₀).backed hstands ha
  have hid : b₀.id = b.id := by
    have := hfits.action.symm.trans ha
    injection this
  have hfits := hfits.congr (same_of_bound htold htold.1.1.books hm₀ hbound hlive hid)
  exact ⟨hl.trans (congrArg Options.passive hfits.options), _, hfits⟩

/-- An entry is called with an event that can be prevented. -/
theorem unpassive_of_outside {F : Nat → Prop} {w : Entry Waiter} (ht : Told F tr) (htended : Tended tr) (hp : Placed tr)
    (hw : (Moment.begins (.outside w e) h).Placed tr) : e.passive = false := by
  obtain ⟨l, e₀, h₀, k, vs, inner, before, rfl, ha, -, -, hhandled, -⟩ := walk_of_outside hw htended
  rw [hhandled.same.2.2]
  exact unpassive_of_walk ha ht.split.1.2.2.2 htended.drop.2.2 hp.drop.1

/-- An event is passive at a binding only if the binding's listener is. -/
theorem passive_of_fires {F : Nat → Prop} (htold : Told F (m :: earlier)) (htended : Tended earlier)
    (hplaced : Placed (m :: earlier)) (hf : m.Fires rt b.id e) (hlive : live? m.host rt b.id = some (r, b))
    (hpassive : e.passive = true) : b.plan.options.passive = true := by
  cases m with
  | ends t r h => exact hf.elim
  | begins t h =>
    cases t with
    | listen l e₀ =>
      obtain ⟨ha, rfl⟩ := hf
      rw [← (fits_of_listen htold htended hplaced.1 ha hlive).1]
      exact hpassive
    | outside w e₀ =>
      obtain ⟨-, rfl⟩ := hf
      rw [unpassive_of_outside htold.2.2.2 htended hplaced.2 hplaced.1] at hpassive
      cases hpassive
    | _ => exact hf.elim

/-- What a task does with which an event reaches a binding. -/
theorem gives_of_fires {t : Task .event} {id : Nat} (hf : (Moment.begins t h).Fires rt id e)
    (hg : t.body.Gives h cs e' h') : (fire rt id e).Gives h cs e' h' := by
  cases t with
  | listen l e₀ =>
    obtain ⟨ha, rfl⟩ := hf
    unfold Task.body at hg
    simp only [ha] at hg
    exact hg
  | outside w e₀ =>
    obtain ⟨ha, rfl⟩ := hf
    unfold Task.body at hg
    simp only [ha] at hg
    exact hg

/-- In a session, whenever an event reaches a live binding whose directive was read from an
    attribute and which, if it is a `once` binding, has not fired, the binding does with the
    event what the words of the attribute say, whatever its calls come back with; and the
    expression of the attribute is what it evaluates. -/
theorem session_piped (depth : Nat) (as : List Action) (url : String) (globals : Globals) (scopes : List Value)
    (t : Task .event) (h : Host) (hm : .begins t h ∈ (play depth as (.new url globals scopes) []).2) (rt : Nat)
    (r : Runtime Script) (b : Bound) (e : Event) (hfires : (Moment.begins t h).Fires rt b.id e)
    (hlive : live? h rt b.id = some (r, b)) (attr expression : String)
    (hparse : Directive.parse r.config attr expression = .ok b.directive)
    (hfresh : "once" ∈ chain r.config attr → b.fired = false) :
    b.directive.expression = expression ∧
      (∃ cs e' h', t.body.Gives h cs e' h') ∧
      ∀ cs e' h', t.body.Gives h cs e' h' → Piped (chain r.config attr) rt r b e h cs e' h' := by
  refine ⟨(parse_asks hparse).2, gives_something t.body h, fun cs e' h' hg => ?_⟩
  have htold := session_told (F := fun _ => False) depth as url globals scopes fun m _ => fair_nobody m
  have htended := session_tended depth as url globals scopes
  have hplaced := session_placed depth as (.new url globals scopes)
  obtain ⟨later, earlier, hs⟩ := List.append_of_mem hm
  rw [hs] at htold htended hplaced
  obtain ⟨htold, -, -⟩ := htold.split
  have hpassive := passive_of_fires htold htended.drop.2.2 hplaced.drop hfires hlive
  have hbooks := books_of_fires htold.1 hfires
  obtain ⟨hr, -, hreach, -⟩ := (live?_eq_some hbooks.runtimes).mp hlive
  exact piped_of_gives hlive hparse hfresh ((hbooks.runtimes hr).built hreach) hpassive (gives_of_fires hfires hg)

/-- A runtime with a binding that waits for the enter key. -/
def bindsEnter : List Action :=
  [.newRuntime ⟨none, false, none, .custom fun _ _ => .done (.ok .undefined)⟩,
    .bindDirective 0 3 ⟨"x-on:keydown.prevent.enter.stop", "keydown", [.prevent, .key "enter", .stop], "sent = true"⟩ 0]

def enterBound : Host := (play 3 bindsEnter (.new "" .browser []) []).1.get rfl

/-- The binding, and its runtime. -/
def enterBinding : Runtime Script × Bound := (live? enterBound 0 1).get rfl

/-- What happens when that key is pressed. -/
def enterPressed : History :=
  (play 3 (bindsEnter ++ [.keyDown 3 ⟨"Enter", "", .none, false⟩]) (.new "" .browser []) []).2

theorem enterPressed_piped : ∃ (t : Task .event) (h : Host) (r : Runtime Script) (b : Bound) (e : Event),
    Moment.begins t h ∈ enterPressed ∧ (Moment.begins t h).Fires 0 b.id e ∧ live? h 0 b.id = some (r, b) ∧
      chain r.config b.directive.attr = ["prevent", "enter", "stop"] ∧ Wants ["enter"] e ∧ e.prevented = false ∧
      (∃ cs e' h', t.body.Gives h cs e' h') ∧
      ∀ cs e' h', t.body.Gives h cs e' h' → Piped ["prevent", "enter", "stop"] 0 r b e h cs e' h' := by
  have hm : Moment.begins (.listen _ _) enterBound ∈ enterPressed := List.mem_of_getElem? (i := 4) rfl
  have hp := session_piped 3 _ "" .browser [] (.listen _ _) enterBound hm 0 enterBinding.1 enterBinding.2 _ ⟨rfl, rfl⟩ rfl
    "x-on:keydown.prevent.enter.stop" "sent = true" rfl fun _ => rfl
  exact ⟨_, _, enterBinding.1, enterBinding.2, _, hm, ⟨rfl, rfl⟩, rfl, rfl, KeyFilter.passes_ofNames.mp rfl, rfl, hp.2⟩

end Eventful.Host
