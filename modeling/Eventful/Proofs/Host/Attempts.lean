import Eventful.Proofs.Host.Pipeline
import Eventful.Proofs.Host.Sharing
import Mathlib.Data.List.Forall2

/-
  Eventful.Proofs.Host.Attempts — binding one directive, or all that an element has.

  What an attribute asks for is found out before anything is registered, so an attempt to
  bind one directive succeeds or changes nothing. The attributes of an element are bound
  one after the other (`Added`); when one of them is refused, those before it are unbound
  again. That takes their listeners for good, and finds no timer to cancel. But a tracker
  goes by ids alone, so it may take more than was entered (`RolledBack`).

  - `session_attempts`: what failed attempts leave, and what successful ones bind.
  - `spoiltAttributes_robbed`: attributes that are refused cost another runtime its entry.
-/

namespace Eventful.Binding.Runtime

variable {κ : Type}

/-- The runtime with new bindings. -/
def withAll (r : Runtime κ) (bs : List Bound) : Runtime κ :=
  { r with bindings := r.bindings ++ bs, lastId := r.lastId + bs.length }

theorem withAll_nil (r : Runtime κ) : r.withAll [] = r := by
  unfold withAll
  rw [List.append_nil]
  rfl

theorem withAll_append (r : Runtime κ) (bs bs' : List Bound) : (r.withAll bs).withAll bs' = r.withAll (bs ++ bs') := by
  unfold withAll
  rw [List.append_assoc, List.length_append, Nat.add_assoc]

/-- Nothing is left of a binding that is not being evaluated. -/
theorem Sound.without_idle {r : Runtime κ} (hs : r.Sound) {bs bs' : List Bound} {b : Bound}
    (hbs : r.bindings = bs ++ b :: bs') (hidle : b.running = 0) : r.without b.id = { r with bindings := bs ++ bs' } := by
  have hb : b ∈ r.bindings := hbs ▸ List.mem_append_right _ List.mem_cons_self
  have hnd : ((b :: (bs ++ bs')).map (·.id)).Nodup :=
    (List.perm_middle.map Bound.id).nodup_iff.mp (hbs ▸ hs.boundIds)
  have hkept : r.bindings.filter (·.id != b.id) = bs ++ bs' := by
    have hne : ∀ b' ∈ bs ++ bs', (b'.id != b.id) = true := fun b' hb' =>
      bne_iff_ne.mpr fun he => (List.nodup_cons.mp hnd).1 (List.mem_map.mpr ⟨b', hb', he⟩)
    rw [hbs, List.filter_append, List.filter_cons_of_neg (by simp), ← List.filter_append, List.filter_eq_self.mpr hne]
  have hgone : r.bindings.filter (fun b' => b'.id == b.id && 0 < b'.running) = [] := by
    refine List.filter_eq_nil_iff.mpr fun b' hb' hp => ?_
    rw [Bool.and_eq_true, beq_iff_eq, decide_eq_true_iff] at hp
    cases hs.unique (.inl hb') (.inl hb) hp.1
    exact Nat.ne_of_gt hp.2 hidle
  unfold Runtime.without
  rw [hkept, hgone, List.map_nil, List.append_nil]

end Eventful.Binding.Runtime

namespace Eventful.Page.Listeners

/-- The new listener comes after all of its target. -/
theorem appended_add {κ : Type} (s : Listeners κ) (t : Target) (event : String) (o : Options) (a : κ) (t' : Target) :
    ∃ new, (s.add t event o a).2.of t' = s.of t' ++ new ∧ ∀ l ∈ new, t' = t ∧ l = ⟨s.lastId + 1, event, o, a⟩ := by
  rw [of_add]
  split
  · rename_i ht
    exact ⟨_, rfl, List.forall_mem_singleton.mpr ⟨ht.symm, rfl⟩⟩
  · exact ⟨[], (List.append_nil _).symm, List.forall_mem_nil _⟩

end Eventful.Page.Listeners

namespace Eventful.Host

open Page Binding Directive

variable {h h' h₁ h₂ : Host} {rt k : Nat} {r : Runtime Script} {b : Bound} {n : NodeId} {scope : Nat}
  {made made' : List Bound}

/-! ## Bindings come -/

/-- A binding on a node to which nothing has happened yet. -/
structure JustBound (c : Config) (n : NodeId) (scope : Nat) (b : Bound) : Prop where
  built : Plan.build c b.directive = .ok b.plan
  element : b.element = n
  scope : b.scope = scope
  fired : b.fired = false
  waiting : b.waiting = none
  running : b.running = 0

/-- The binding that an attribute makes. -/
structure Makes (c : Config) (n : NodeId) (scope : Nat) (a : String × String) (b : Bound) : Prop
    extends JustBound c n scope b where
  parsed : Directive.parse c a.1 a.2 = .ok b.directive

theorem idle_of_makes {c : Config} {as : List (String × String)} (hmade : List.Forall₂ (Makes c n scope) as made) :
    ∀ b ∈ made, b.waiting = none ∧ b.running = 0 := by
  induction hmade with
  | nil => exact List.forall_mem_nil _
  | cons hb _ ih => exact List.forall_mem_cons.mpr ⟨⟨hb.waiting, hb.running⟩, ih⟩

/-- `h'` is `h` with the bindings `made` of the runtime `r` at `rt`: they have the next ids,
    and are entered in the tracker where they wait outside. -/
structure Added (rt : Nat) (r : Runtime Script) (made : List Bound) (h h' : Host) : Prop where
  frame : ∃ ls ts, h' = { h.setListeners ls with runtimes := h.runtimes.set rt (r.withAll made), trackers := ts }
  trackers : h'.trackers.length = h.trackers.length
  ids : made.map (·.id) = List.range' (r.lastId + 1) made.length
  sound : ∀ {rt : Nat} {r : Runtime Script}, h'.runtimes[rt]? = some r → r.Sound
  store : h'.page.listeners.Sound
  later : h.page.listeners.lastId ≤ h'.page.listeners.lastId
  heard : ∀ b ∈ made, ∀ id, b.listener = some id → h.page.listeners.lastId < id ∧ id ≤ h'.page.listeners.lastId
  /-- New listeners are theirs, or the tracker's. -/
  listeners : ∀ t, ∃ new, h'.page.listeners.of t = h.page.listeners.of t ++ new ∧
    ∀ l ∈ new, h.page.listeners.lastId < l.id ∧ ((∃ b ∈ made, b.listener = some l.id) ∨
      (t = .document ∧ l.action = .tracker r.tracker ∧ ∀ b ∈ made, b.listener ≠ some l.id))
  entries : ∀ k, (h'.tracker k).entries = (h.tracker k).entries ++
    if k = r.tracker then (made.filter (·.plan.isOutside)).map (entryOf rt) else []

theorem Added.runtime (ha : Added rt r made h h') (hr : h.runtimes[rt]? = some r) :
    h'.runtimes[rt]? = some (r.withAll made) := by
  obtain ⟨ls, ts, rfl⟩ := ha.frame
  obtain ⟨hlt, -⟩ := List.getElem?_eq_some_iff.mp hr
  exact List.getElem?_set_self hlt

theorem Added.held (ha : Added rt r made h h') (hheld : h.held? rt = some r) : h'.held? rt = some (r.withAll made) := by
  obtain ⟨hr, hstatus⟩ := held?_eq_some.mp hheld
  exact held?_eq_some.mpr ⟨ha.runtime hr, hstatus⟩

theorem added_nil (hr : h.runtimes[rt]? = some r)
    (hs : ∀ {rt : Nat} {r : Runtime Script}, h.runtimes[rt]? = some r → r.Sound) (hstore : h.page.listeners.Sound) :
    Added rt r [] h h where
  frame := by
    refine ⟨h.page.listeners, h.trackers, ?_⟩
    obtain ⟨hlt, rfl⟩ := List.getElem?_eq_some_iff.mp hr
    rw [Runtime.withAll_nil, List.set_getElem_self]
    rfl
  trackers := rfl
  ids := rfl
  sound := hs
  store := hstore
  heard := List.forall_mem_nil _
  later := Nat.le_refl _
  listeners t := ⟨[], (List.append_nil _).symm, List.forall_mem_nil _⟩
  entries k := by simp

theorem Added.trans (ha : Added rt r made h h₁) (ha' : Added rt (r.withAll made) made' h₁ h₂) :
    Added rt r (made ++ made') h h₂ where
  frame := by
    obtain ⟨ls, ts, rfl⟩ := ha.frame
    obtain ⟨ls', ts', rfl⟩ := ha'.frame
    refine ⟨ls', ts', ?_⟩
    show ({ h.setListeners ls' with runtimes := (h.runtimes.set rt _).set rt _, trackers := ts' } : Host) = _
    rw [List.set_set, Runtime.withAll_append]
  trackers := ha'.trackers.trans ha.trackers
  ids := by
    rw [List.map_append, ha.ids, ha'.ids, List.length_append, ← List.range'_append_1]
    show _ ++ List.range' (r.lastId + made.length + 1) _ = _ ++ List.range' (r.lastId + 1 + made.length) _
    rw [Nat.add_right_comm]
  sound := ha'.sound
  store := ha'.store
  later := Nat.le_trans ha.later ha'.later
  heard := by
    refine List.forall_mem_append.mpr ⟨fun b hb id hid => ?_, fun b hb id hid => ?_⟩
    · obtain ⟨hlt, hle⟩ := ha.heard b hb id hid
      exact ⟨hlt, Nat.le_trans hle ha'.later⟩
    · obtain ⟨hlt, hle⟩ := ha'.heard b hb id hid
      exact ⟨Nat.lt_of_le_of_lt ha.later hlt, hle⟩
  listeners t := by
    obtain ⟨new, hnew, hkind⟩ := ha.listeners t
    obtain ⟨new', hnew', hkind'⟩ := ha'.listeners t
    refine ⟨new ++ new', by rw [hnew', hnew, List.append_assoc], ?_⟩
    refine List.forall_mem_append.mpr ⟨fun l hl => ?_, fun l hl => ?_⟩
    · obtain ⟨hlt, ⟨b, hb, hid⟩ | ⟨ht, hact, hn⟩⟩ := hkind l hl
      · exact ⟨hlt, .inl ⟨b, List.mem_append_left _ hb, hid⟩⟩
      · have hissued : l.id ≤ h₁.page.listeners.lastId := by
          refine ha.store.issued (t := t) ?_
          rw [Listeners.Stands, hnew]
          exact List.mem_append_right _ hl
        refine ⟨hlt, .inr ⟨ht, hact, List.forall_mem_append.mpr ⟨hn, fun b hb hid => ?_⟩⟩⟩
        exact Nat.not_le_of_lt (ha'.heard b hb _ hid).1 hissued
    · obtain ⟨hlt, hkind⟩ := hkind' l hl
      refine ⟨Nat.lt_of_le_of_lt ha.later hlt, ?_⟩
      rcases hkind with ⟨b, hb, hid⟩ | ⟨ht, hact, hn⟩
      · exact .inl ⟨b, List.mem_append_right _ hb, hid⟩
      · refine .inr ⟨ht, hact, List.forall_mem_append.mpr ⟨fun b hb hid => ?_, hn⟩⟩
        exact Nat.not_le_of_lt hlt (ha.heard b hb _ hid).2
  entries k := by
    rw [ha'.entries, ha.entries, List.append_assoc]
    show _ ++ ((if k = r.tracker then _ else _) ++ if k = r.tracker then _ else _) = _
    split
    · rw [List.filter_append, List.map_append]
    · rfl

theorem editRuntime_with1 (hr : h.runtimes[rt]? = some r) (b : Bound) :
    h.editRuntime rt (·.with1 b) = { h with runtimes := h.runtimes.set rt (r.withAll [b]) } := by
  unfold editRuntime
  rw [List.modify_eq_set_getElem?, hr]
  rfl

/-- One binding comes, once its listener or its entry has. -/
theorem added_one (hr : h.runtimes[rt]? = some r)
    (hs : ∀ {rt : Nat} {r : Runtime Script}, h.runtimes[rt]? = some r → r.Sound) (hlive : r.status ≠ .ended)
    (hnew : Runtime.New r b) (hframe : ∃ ls ts, h₁ = { h.setListeners ls with trackers := ts })
    (htrackers : h₁.trackers.length = h.trackers.length) (hstore : h₁.page.listeners.Sound)
    (hlater : h.page.listeners.lastId ≤ h₁.page.listeners.lastId)
    (hheard : ∀ id, b.listener = some id → h.page.listeners.lastId < id ∧ id ≤ h₁.page.listeners.lastId)
    (hlisteners : ∀ t, ∃ new, h₁.page.listeners.of t = h.page.listeners.of t ++ new ∧ ∀ l ∈ new,
      h.page.listeners.lastId < l.id ∧
        (b.listener = some l.id ∨ (t = .document ∧ l.action = .tracker r.tracker ∧ b.listener ≠ some l.id)))
    (hentries : ∀ k, (h₁.tracker k).entries = (h.tracker k).entries ++
      if k = r.tracker ∧ b.plan.isOutside = true then [entryOf rt b] else []) :
    Added rt r [b] h (h₁.editRuntime rt (·.with1 b)) := by
  obtain ⟨ls, ts, rfl⟩ := hframe
  have hsound : ∀ {rt' : Nat} {r' : Runtime Script}, (h.runtimes.modify rt (·.with1 b))[rt']? = some r' → r'.Sound := by
    refine sound_modify hs rt fun r' hr' => ?_
    cases hr.symm.trans hr'
    exact (hs hr).with1 hnew hlive
  refine ⟨⟨ls, ts, ?_⟩, htrackers, ?_, hsound, hstore, hlater, List.forall_mem_singleton.mpr hheard, fun t => ?_,
    fun k => ?_⟩
  · exact editRuntime_with1 (h := { h.setListeners ls with trackers := ts }) hr b
  · rw [List.map_singleton, hnew.id]
    rfl
  · obtain ⟨new, hof, hkind⟩ := hlisteners t
    refine ⟨new, hof, fun l hl => (hkind l hl).imp_right fun hk => ?_⟩
    exact hk.imp (fun hid => ⟨b, List.mem_singleton_self b, hid⟩)
      fun ⟨ht, ha, hn⟩ => ⟨ht, ha, List.forall_mem_singleton.mpr hn⟩
  · refine (hentries k).trans (congrArg _ ?_)
    by_cases hk : k = r.tracker
    · cases hout : b.plan.isOutside <;> simp [hk, hout]
    · simp [hk]

/-- An outside binding is entered in the tracker, which may have to listen for its event. -/
theorem added_outside (hr : h.runtimes[rt]? = some r)
    (hs : ∀ {rt : Nat} {r : Runtime Script}, h.runtimes[rt]? = some r → r.Sound) (hlive : r.status ≠ .ended)
    (hstore : h.page.listeners.Sound) (hplace : r.tracker < h.trackers.length) (hnew : Runtime.New r b)
    (hout : b.plan.isOutside = true) :
    Added rt r [b] h ((h.register r.tracker (entryOf rt b)).editRuntime rt (·.with1 b)) := by
  have hw := registered hplace (entryOf rt b)
  have hlistener : b.listener = none := hnew.unheard hout
  refine added_one hr hs hlive hnew hw.shape hw.length ?_ hw.listenersLater.issued
    (fun id hid => by cases hlistener.symm.trans hid) (fun t => ?_) fun k => ?_
  · rcases hw.installs with ⟨e, -⟩ | ⟨-, e, -⟩
    · exact e ▸ hstore
    · exact e ▸ Listeners.sound_add hstore _ _ _ _
  · rcases hw.installs with ⟨e, -⟩ | ⟨-, e, -⟩
    · exact ⟨[], by rw [List.append_nil]; exact congrArg (Listeners.of · t) e, List.forall_mem_nil _⟩
    · obtain ⟨new, hof, hone⟩ := Listeners.appended_add h.page.listeners .document b.plan.event capturing
        (.tracker r.tracker) t
      refine ⟨new, e ▸ hof, fun l hl => ?_⟩
      obtain ⟨rfl, rfl⟩ := hone l hl
      refine ⟨Nat.lt_succ_self _, .inr ⟨rfl, rfl, fun hid => ?_⟩⟩
      cases hlistener.symm.trans hid
  · by_cases hk : k = r.tracker
    · subst hk
      rw [if_pos ⟨rfl, hout⟩]
      exact hw.entries
    · rw [if_neg fun hk' => hk hk'.1, List.append_nil]
      exact congrArg Tracker.entries (hw.same hk)

/-- Any other binding gets a listener of its own. -/
theorem added_inside {t : Target} {event : String} {o : Options} (hr : h.runtimes[rt]? = some r)
    (hs : ∀ {rt : Nat} {r : Runtime Script}, h.runtimes[rt]? = some r → r.Sound) (hlive : r.status ≠ .ended)
    (hstore : h.page.listeners.Sound) (hnew : Runtime.New r b) (hin : b.plan.isOutside = false)
    (hlistener : b.listener = some (h.page.listeners.lastId + 1)) :
    Added rt r [b] h ((h.listen t event o (.binding rt b.id)).2.editRuntime rt (·.with1 b)) := by
  refine added_one hr hs hlive hnew ⟨_, _, rfl⟩ rfl (Listeners.sound_add hstore _ _ _ _) (Nat.le_succ _)
    (fun id hid => ?_) (fun t' => ?_) fun k => ?_
  · cases hlistener.symm.trans hid
    exact ⟨Nat.lt_succ_self _, Nat.le_refl _⟩
  · obtain ⟨new, hof, hone⟩ := Listeners.appended_add h.page.listeners t event o (.binding rt b.id) t'
    refine ⟨new, hof, fun l hl => ?_⟩
    obtain ⟨-, rfl⟩ := hone l hl
    exact ⟨Nat.lt_succ_self _, .inl hlistener⟩
  · rw [if_neg fun hk => ?_, List.append_nil]
    · rfl
    · rw [hin] at hk
      cases hk.2

section

variable (hs : ∀ {rt : Nat} {r : Runtime Script}, h.runtimes[rt]? = some r → r.Sound) (hstore : h.page.listeners.Sound)
  (hplace : ∀ {r : Runtime Script}, h.runtimes[rt]? = some r → r.tracker < h.trackers.length)

include hs hstore hplace

theorem added_bind {d : Directive} {id : Nat} (hbind : h.bind rt n d scope = .ok (id, h')) :
    ∃ r b, h.held? rt = some r ∧ b.id = id ∧ b.directive = d ∧ JustBound r.config n scope b ∧ Added rt r [b] h h' := by
  obtain ⟨r, plan, hr, hheld, hbuilt, -, rfl, hcase⟩ := bind_ok hbind
  have hlive : r.status ≠ .ended := by rw [hheld]; decide
  rcases hcase with ⟨hout, rfl⟩ | ⟨hin, rfl⟩
  · let b : Bound := ⟨r.lastId + 1, n, d, plan, scope, none, false, none, 0⟩
    have hnew : Runtime.New r b := ⟨rfl, hbuilt, fun _ => rfl, rfl, rfl⟩
    exact ⟨r, b, held?_eq_some.mpr ⟨hr, hheld⟩, rfl, rfl, ⟨hbuilt, rfl, rfl, rfl, rfl, rfl⟩,
      added_outside hr hs hlive hstore (hplace hr) hnew hout⟩
  · let b : Bound := ⟨r.lastId + 1, n, d, plan, scope, some (h.page.listeners.lastId + 1), false, none, 0⟩
    have hnew : Runtime.New r b := ⟨rfl, hbuilt, fun hout => (by cases hin.symm.trans hout), rfl, rfl⟩
    exact ⟨r, b, held?_eq_some.mpr ⟨hr, hheld⟩, rfl, rfl, ⟨hbuilt, rfl, rfl, rfl, rfl, rfl⟩,
      added_inside hr hs hlive hstore hnew hin rfl⟩

theorem added_bindAttr {attr expression : String} {id : Nat}
    (hbind : h.bindAttr rt n attr expression scope = .ok (id, h')) :
    ∃ r b, h.held? rt = some r ∧ b.id = id ∧ Makes r.config n scope (attr, expression) b ∧ Added rt r [b] h h' := by
  unfold bindAttr at hbind
  split at hbind
  · cases hbind
  · rename_i r hheld
    split at hbind
    · cases hbind
    · rename_i d hparse
      obtain ⟨r', b, hheld', hid, rfl, hfresh, ha⟩ := added_bind hs hstore hplace hbind
      cases hheld.symm.trans hheld'
      exact ⟨r, b, hheld, hid, ⟨hfresh, hparse⟩, ha⟩

end

/-- Why an attribute is refused on a node of the page. -/
inductive Refusal (t : Tree) (g : Globals) (c : Config) (n : NodeId) (a : String × String) : Directive.Error → Prop where
  | unparsed {e : Directive.Error} (hparse : Directive.parse c a.1 a.2 = .error e) : Refusal t g c n a e
  | unknown (hnone : t.element? n = none) : Refusal t g c n a (.unknownElement n)
  | unplanned {d : Directive} {e : Directive.Error} (hparse : Directive.parse c a.1 a.2 = .ok d)
      (hbuild : Plan.build c d = .error e) : Refusal t g c n a e
  | missing {d : Directive} {plan : Plan} (hparse : Directive.parse c a.1 a.2 = .ok d) (hbuild : Plan.build c d = .ok plan)
      (hmissing : g.has (plan.place.target n) = false) : Refusal t g c n a (.missingTarget plan.place.label plan.event)

theorem refusal_of_bindAttr {attr expression : String} {e : Directive.Error} (hheld : h.held? rt = some r)
    (hrefused : h.bindAttr rt n attr expression scope = .error e) :
    Refusal h.page.tree h.page.globals r.config n (attr, expression) e := by
  simp only [bindAttr, bind, hheld] at hrefused
  split at hrefused
  · rename_i hparse
    cases hrefused
    exact .unparsed hparse
  · rename_i d hparse
    split at hrefused
    · rename_i hnone
      cases hrefused
      exact .unknown (Option.isNone_iff_eq_none.mp hnone)
    · split at hrefused
      · rename_i hbuild
        cases hrefused
        exact .unplanned hparse hbuild
      · rename_i plan hbuild
        split at hrefused
        · rename_i hmissing
          cases hrefused
          exact .missing hparse hbuild ((Bool.not_eq_true' _).mp hmissing)
        · cases hrefused

/-- What binding attributes in order comes to. -/
theorem added_bindEach (hs : ∀ {rt : Nat} {r : Runtime Script}, h.runtimes[rt]? = some r → r.Sound)
    (hstore : h.page.listeners.Sound) (hheld : h.held? rt = some r) (hplace : r.tracker < h.trackers.length)
    (bound : List Nat) (as : List (String × String)) :
    (∃ made h', List.Forall₂ (Makes r.config n scope) as made ∧ Added rt r made h h' ∧
      h.bindEach rt n scope bound as = (.ok (bound ++ made.map (·.id)), h')) ∨
    ∃ done a rest made h₁ e, as = done ++ a :: rest ∧ List.Forall₂ (Makes r.config n scope) done made ∧
      Added rt r made h h₁ ∧ Refusal h.page.tree h.page.globals r.config n a e ∧
      h.bindEach rt n scope bound as = (.error e, h₁.unbindAll rt (bound ++ made.map (·.id))) := by
  obtain ⟨hr, -⟩ := held?_eq_some.mp hheld
  induction as generalizing h r bound with
  | nil => exact .inl ⟨[], h, .nil, added_nil hr hs hstore, by rw [List.map_nil, List.append_nil]; rfl⟩
  | cons a as ih =>
    unfold bindEach
    cases hbind : h.bindAttr rt n a.1 a.2 scope with
    | error e =>
      refine .inr ⟨[], a, as, [], h, e, rfl, .nil, added_nil hr hs hstore, refusal_of_bindAttr hheld hbind, ?_⟩
      rw [List.map_nil, List.append_nil]
    | ok found =>
      obtain ⟨id, h₁⟩ := found
      have hplace' : ∀ {r : Runtime Script}, h.runtimes[rt]? = some r → r.tracker < h.trackers.length := by
        intro r' hr'
        cases hr.symm.trans hr'
        exact hplace
      obtain ⟨r', b, hheld', rfl, hmakes, ha⟩ := added_bindAttr hs hstore hplace' hbind
      cases hheld.symm.trans hheld'
      have hids : ∀ bs : List Bound, bound ++ [b.id] ++ bs.map (·.id) = bound ++ (b :: bs).map (·.id) := by simp
      dsimp only
      rcases ih (r := r.withAll [b]) ha.sound ha.store (ha.held hheld) (ha.trackers ▸ hplace) (bound ++ [b.id])
        (ha.runtime hr) with ⟨made, h', hmade, ha', e⟩ | ⟨done, a', rest, made, h₂, err, rfl, hmade, ha', hrefused, e⟩
      · exact .inl ⟨b :: made, h', .cons hmakes hmade, ha.trans ha', by rw [e, hids]⟩
      · refine .inr ⟨a :: done, a', rest, b :: made, h₂, err, rfl, .cons hmakes hmade, ha.trans ha', ?_, by rw [e, hids]⟩
        obtain ⟨ls, ts, rfl⟩ := ha.frame
        exact hrefused

/-! ## Bindings go again -/

theorem withdraw_runtimes (h : Host) (rs : Runtimes) (r : Runtime Script) (b : Bound) :
    ({ h with runtimes := rs } : Host).withdraw r b = { h.withdraw r b with runtimes := rs } := by
  unfold withdraw
  cases b.listener <;> cases b.plan.isOutside <;> cases b.waiting <;> rfl

/-- The last bindings of a runtime, which are not being evaluated, are unbound. -/
theorem unbindAll_last (hs : ∀ {rt : Nat} {r : Runtime Script}, h.runtimes[rt]? = some r → r.Sound) {bs : List Bound}
    (hr : h.runtimes[rt]? = some r) (hbs : r.bindings = bs ++ made) (hidle : ∀ b ∈ made, b.running = 0) :
    h.unbindAll rt (made.map (·.id)) =
      made.foldl (fun h b => h.withdraw r b) { h with runtimes := h.runtimes.set rt { r with bindings := bs } } := by
  induction made generalizing h r with
  | nil =>
    rw [List.append_nil] at hbs
    subst hbs
    obtain ⟨hlt, rfl⟩ := List.getElem?_eq_some_iff.mp hr
    rw [List.set_getElem_self]
    rfl
  | cons b made ih =>
    obtain ⟨hrunning, hidle⟩ := List.forall_mem_cons.mp hidle
    have hb : b ∈ r.bindings := hbs ▸ List.mem_append_right _ List.mem_cons_self
    have hwithout : r.without b.id = { r with bindings := bs ++ made } := (hs hr).without_idle hbs hrunning
    have hedit : h.runtimes.modify rt (·.without b.id) = h.runtimes.set rt { r with bindings := bs ++ made } := by
      rw [List.modify_eq_set_getElem?, hr, ← hwithout]
      rfl
    have hsound : ∀ {rt' : Nat} {r' : Runtime Script},
        (h.runtimes.set rt { r with bindings := bs ++ made })[rt']? = some r' → r'.Sound := by
      rw [← hedit]
      exact sound_modify hs rt fun r' hr' => (hs hr').without b.id
    obtain ⟨hlt, -⟩ := List.getElem?_eq_some_iff.mp hr
    have hrest := ih (h := { h.withdraw r b with runtimes := h.runtimes.set rt { r with bindings := bs ++ made } }) hsound
      (List.getElem?_set_self hlt) rfl hidle
    show ((h.unbind rt b.id).2).unbindAll rt (made.map (·.id)) = _
    rw [unbind_eq_some (hs hr) hr hb, editRuntime, hedit, withdraw_runtimes, hrest, List.set_set, List.foldl_cons]
    exact congrArg (made.foldl fun (h : Host) b => h.withdraw r b) (withdraw_runtimes h _ r b).symm

/-- Nothing was waiting: no clock changes. -/
theorem Withdrawn.clocks_eq (w : Withdrawn r made h h') (hwaiting : ∀ b ∈ made, b.waiting = none) :
    h'.clocks = h.clocks := by
  refine List.ext_getElem w.clocks fun c hc hc' => ?_
  have hclock := w.clock c
  unfold clockAt at hclock
  rw [List.getElem?_eq_getElem hc, List.getElem?_eq_getElem hc'] at hclock
  simp only [Option.getD_some] at hclock
  rw [hclock]
  split
  · have hkept : ∀ t ∈ h.clocks[c].timers, (!made.any (·.waiting == some t.id)) = true := by
      intro t _
      rw [Bool.not_eq_true', List.any_eq_false]
      intro b hb
      rw [hwaiting b hb]
      exact Bool.false_ne_true
    rw [List.filter_eq_self.mpr hkept]
  · rfl

/-- The bindings `made` of the runtime `r` at `rt` came and went, and `h` is now `h'`: the
    runtime gives further ids, its tracker may listen for more events, and the entries that
    went by the ids of outside bindings are gone. -/
structure RolledBack (rt : Nat) (r : Runtime Script) (made : List Bound) (h h' : Host) : Prop where
  frame : ∃ ls ts, h' =
    { h.setListeners ls with runtimes := h.runtimes.set rt { r with lastId := r.lastId + made.length }, trackers := ts }
  listeners : ∀ t, ∃ new, h'.page.listeners.of t = h.page.listeners.of t ++ new ∧
    ∀ l ∈ new, t = .document ∧ l.action = .tracker r.tracker
  entries : ∀ k, TakenOut (fun id => k = r.tracker ∧ ∃ b ∈ made, b.plan.isOutside = true ∧ b.id = id)
    (h.tracker k).entries (h'.tracker k).entries

theorem TakenOut.of_append {Q : Nat → Prop} {es es' new : List (Entry Waiter)} (ht : TakenOut Q (es ++ new) es')
    (hnew : ∀ w ∈ new, Q w.binding) : TakenOut Q es es' := by
  obtain ⟨p, rfl, hp⟩ := ht
  refine ⟨p, ?_, hp⟩
  rw [List.filter_append, List.filter_eq_nil_iff.mpr fun w hw hpw => (hp w).mp hpw (hnew w hw), List.append_nil]

/-- Without the listeners of the new bindings, only the tracker's are left of the new ones. -/
theorem Added.listeners_back (ha : Added rt r made h h₁) (hstore : h.page.listeners.Sound) {ls : Listeners Reaction}
    (hf : Listeners.Filtered (fun l => !made.any (·.listener == some l.id)) h₁.page.listeners ls) (t : Target) :
    ∃ new, ls.of t = h.page.listeners.of t ++ new ∧ ∀ l ∈ new, t = .document ∧ l.action = .tracker r.tracker := by
  obtain ⟨new, hnew, hkind⟩ := ha.listeners t
  have hold : ∀ l ∈ h.page.listeners.of t, (!made.any (·.listener == some l.id)) = true := by
    intro l hl
    rw [Bool.not_eq_true', List.any_eq_false]
    exact fun b hb hid => Nat.not_le_of_lt (ha.heard b hb l.id (beq_iff_eq.mp hid)).1 (hstore.issued hl)
  refine ⟨new.filter fun l => !made.any (·.listener == some l.id), ?_, fun l hl => ?_⟩
  · rw [hf.of, hnew, List.filter_append, List.filter_eq_self.mpr hold]
  · obtain ⟨hl, hkept⟩ := List.mem_filter.mp hl
    rw [Bool.not_eq_true', List.any_eq_false] at hkept
    rcases (hkind l hl).2 with ⟨b, hb, hid⟩ | ⟨ht, haction, -⟩
    · exact absurd (beq_iff_eq.mpr hid) (hkept b hb)
    · exact ⟨ht, haction⟩

/-- What goes by the ids of the new bindings takes their entries with it. -/
theorem Added.entries_back (ha : Added rt r made h h₁) {es : List (Entry Waiter)}
    (ht : TakenOut (fun id => r.tracker = k ∧ ∃ b ∈ made, b.plan.isOutside = true ∧ b.id = id) (h₁.tracker k).entries es) :
    TakenOut (fun id => k = r.tracker ∧ ∃ b ∈ made, b.plan.isOutside = true ∧ b.id = id) (h.tracker k).entries es := by
  rw [ha.entries] at ht
  refine (ht.of_append fun w hw => ?_).congr fun id => and_congr_left' eq_comm
  split at hw
  · rename_i hk
    obtain ⟨b, hb, rfl⟩ := List.mem_map.mp hw
    obtain ⟨hb, hout⟩ := List.mem_filter.mp hb
    exact ⟨hk.symm, b, hb, hout, rfl⟩
  · cases hw

theorem rolledBack_of_added (ha : Added rt r made h h₁) (hr : h.runtimes[rt]? = some r) (hstore : h.page.listeners.Sound)
    (hwaiting : ∀ b ∈ made, b.waiting = none) (hidle : ∀ b ∈ made, b.running = 0) :
    RolledBack rt r made h (h₁.unbindAll rt (made.map (·.id))) := by
  have hlast : (r.withAll made).bindings = r.bindings ++ made := rfl
  have hw := unbindAll_last ha.sound (ha.runtime hr) hlast hidle ▸
    withdrawn_foldl (r.withAll made) made
      { h₁ with runtimes := h₁.runtimes.set rt { r.withAll made with bindings := r.bindings } }
  generalize h₁.unbindAll rt (made.map (·.id)) = h' at hw
  have hclocks := hw.clocks_eq hwaiting
  refine ⟨?_, ha.listeners_back hstore (hw.listeners ha.store), fun k => ha.entries_back (takenOut_withdrawn hw k)⟩
  obtain ⟨ls, ts, cs, rfl⟩ := hw.shape
  obtain ⟨ls', ts', rfl⟩ := ha.frame
  cases hclocks
  refine ⟨ls, ts, ?_⟩
  rw [List.set_set]
  rfl

/-- Where the tracker holds no entry of an id that the runtime has yet to give, all stay. -/
theorem RolledBack.entries_eq (hback : RolledBack rt r made h h')
    (hids : made.map (·.id) = List.range' (r.lastId + 1) made.length)
    (hissued : ∀ w ∈ (h.tracker r.tracker).entries, w.binding ≤ r.lastId) (k : Nat) :
    (h'.tracker k).entries = (h.tracker k).entries := by
  obtain ⟨p, hes, hp⟩ := hback.entries k
  refine hes.trans (List.filter_eq_self.mpr fun w hw => (hp w).mpr ?_)
  rintro ⟨rfl, b, hb, -, hid⟩
  have hgiven : b.id ∈ List.range' (r.lastId + 1) made.length := hids ▸ List.mem_map_of_mem hb
  exact Nat.not_le_of_lt (List.mem_range'_1.mp hgiven).1 (hid ▸ hissued w hw)

/-! ## Attempts -/

/-- The action binds one directive, read from an attribute or given. -/
inductive Action.BindsOne (rt : Nat) (n : NodeId) (scope : Nat) : Action → Prop where
  | read (attr expression : String) : BindsOne rt n scope (.bind rt n attr expression scope)
  | given (d : Directive) : BindsOne rt n scope (.bindDirective rt n d scope)

/-- What binding all directive attributes of an element comes to: the answer and the host. -/
inductive Attempted (rt : Nat) (n : NodeId) (scope : Nat) (h : Host) : Answer → Host → Prop where
  /-- There is no such element, or no runtime to bind it. -/
  | nowhere (hnone : h.held? rt = none ∨ h.page.tree.element? n = none) :
    Attempted rt n scope h (.refusedBind (.unknownElement n)) h
  /-- An attribute is refused, after those before it were bound. -/
  | refused {r : Runtime Script} {el : Page.Element} {done rest : List (String × String)} {a : String × String}
    {made : List Bound} {e : Directive.Error} {h' : Host} (hheld : h.held? rt = some r)
    (hel : h.page.tree.element? n = some el) (hattrs : el.attrs.filter (isDirective r.config ·.1) = done ++ a :: rest)
    (hmade : List.Forall₂ (Makes r.config n scope) done made)
    (hids : made.map (·.id) = List.range' (r.lastId + 1) made.length)
    (hrefused : Refusal h.page.tree h.page.globals r.config n a e) (hback : RolledBack rt r made h h') :
    Attempted rt n scope h (.refusedBind e) h'
  | bound {r : Runtime Script} {el : Page.Element} {made : List Bound} {h' : Host} (hheld : h.held? rt = some r)
    (hel : h.page.tree.element? n = some el)
    (hmade : List.Forall₂ (Makes r.config n scope) (el.attrs.filter (isDirective r.config ·.1)) made)
    (hadded : Added rt r made h h') : Attempted rt n scope h (.counts (made.map (·.id))) h'

theorem run_change {α : Type} (f : Host → α × Host) (depth : Nat) (h : Host) : (change f).run depth h = some (f h) := rfl

theorem run_attempt (f : Host → Except Directive.Error (Nat × Host)) (depth : Nat) (h : Host) :
    (attempt f).run depth h =
      some (match f h with | .error e => (.refusedBind e, h) | .ok (id, h') => (.count id, h')) := by
  show Proc.runWith _ (match f h with | .error e => _ | .ok (id, h') => _) h = _
  cases f h <;> rfl

section

variable (hs : ∀ {rt : Nat} {r : Runtime Script}, h.runtimes[rt]? = some r → r.Sound) (hstore : h.page.listeners.Sound)
  (hplace : ∀ {r : Runtime Script}, h.runtimes[rt]? = some r → r.tracker < h.trackers.length)

include hs hstore hplace

/-- An attempt to bind one directive succeeds or changes nothing. -/
theorem attempted_one {d : Nat} {a : Action} (ha : a.BindsOne rt n scope) :
    (∃ e, (perform a).run d h = some (.refusedBind e, h)) ∨
      ∃ r b h', (perform a).run d h = some (.count b.id, h') ∧ h.held? rt = some r ∧ JustBound r.config n scope b ∧
        Added rt r [b] h h' := by
  cases ha with
  | read attr expression =>
    have hrun : (perform (.bind rt n attr expression scope)).run d h = _ := run_attempt _ d h
    cases hbind : h.bindAttr rt n attr expression scope with
    | error e => exact .inl ⟨e, by rw [hrun, hbind]⟩
    | ok found =>
      obtain ⟨id, h'⟩ := found
      obtain ⟨r, b, hheld, rfl, hmakes, hadded⟩ := added_bindAttr hs hstore hplace hbind
      exact .inr ⟨r, b, h', by rw [hrun, hbind], hheld, hmakes.toJustBound, hadded⟩
  | given directive =>
    have hrun : (perform (.bindDirective rt n directive scope)).run d h = _ := run_attempt _ d h
    cases hbind : h.bind rt n directive scope with
    | error e => exact .inl ⟨e, by rw [hrun, hbind]⟩
    | ok found =>
      obtain ⟨id, h'⟩ := found
      obtain ⟨r, b, hheld, rfl, -, hfresh, hadded⟩ := added_bind hs hstore hplace hbind
      exact .inr ⟨r, b, h', by rw [hrun, hbind], hheld, hfresh, hadded⟩

theorem attempted_bindAttributes (depth : Nat) (n : NodeId) (scope : Nat) :
    ∃ answer h', (perform (.bindAttributes rt n scope)).run depth h = some (answer, h') ∧
      Attempted rt n scope h answer h' := by
  have hrun : (perform (.bindAttributes rt n scope)).run depth h = some _ := run_change _ depth h
  cases hheld : h.held? rt with
  | none =>
    have hattrs : h.bindAttrs rt n scope = (.error (.unknownElement n), h) := by simp [bindAttrs, hheld]
    rw [hattrs] at hrun
    exact ⟨_, h, hrun, .nowhere (.inl hheld)⟩
  | some r =>
    cases hel : h.page.tree.element? n with
    | none =>
      have hattrs : h.bindAttrs rt n scope = (.error (.unknownElement n), h) := by simp [bindAttrs, hheld, hel]
      rw [hattrs] at hrun
      exact ⟨_, h, hrun, .nowhere (.inr hel)⟩
    | some el =>
      obtain ⟨hr, -⟩ := held?_eq_some.mp hheld
      have hattrs : h.bindAttrs rt n scope = h.bindEach rt n scope [] (el.attrs.filter (isDirective r.config ·.1)) := by
        simp [bindAttrs, hheld, hel]
      rcases added_bindEach hs hstore hheld (hplace hr) [] (el.attrs.filter (isDirective r.config ·.1)) with
        ⟨made, h', hmade, hadded, e⟩ | ⟨done, a, rest, made, h₁, err, has, hmade, hadded, hrefused, e⟩
      · rw [hattrs, e] at hrun
        exact ⟨_, h', hrun, .bound hheld hel hmade hadded⟩
      · rw [hattrs, e] at hrun
        refine ⟨_, _, hrun, .refused hheld hel has hmade hadded.ids hrefused ?_⟩
        have hidle := idle_of_makes hmade
        exact rolledBack_of_added hadded hr hstore (fun b hb => (hidle b hb).1) fun b hb => (hidle b hb).2

end

/-! ## Sessions -/

theorem entryBooks_of_fit {F : Nat → Prop} {m : Moment} {tr : History} (hm : Fit F m tr) :
    EntryBooks F m.host.runtimes m.host.trackers m.host.sharedTrackers := by
  rcases fit_cases hm with hb | ⟨-, h₀, c, t, q, hb, -, e⟩
  · exact hb.entries
  · rw [e]
    exact hb.entries

/-- At every moment of a session, an attempt to bind one directive succeeds or changes
    nothing, and so for all of an element's but that, on a tracker which others use too,
    entries of theirs may be lost. In a session that spares the runtime nothing of its own
    tracker is. -/
theorem session_attempts (depth : Nat) (as : List Action) (url : String) (globals : Globals) (scopes : List Value) :
    ∀ m ∈ (play depth as (.new url globals scopes) []).2, ∀ d rt n scope,
      (∀ a, a.BindsOne rt n scope → (∃ e, (perform a).run d m.host = some (.refusedBind e, m.host)) ∨
        ∃ r b h', (perform a).run d m.host = some (.count b.id, h') ∧ m.host.held? rt = some r ∧
          JustBound r.config n scope b ∧ Added rt r [b] m.host h') ∧
      (∃ answer h', (perform (.bindAttributes rt n scope)).run d m.host = some (answer, h') ∧
        Attempted rt n scope m.host answer h') ∧
      ((∀ m ∈ (play depth as (.new url globals scopes) []).2, Fair (· = rt) m) →
        ∀ r, m.host.held? rt = some r → r.ownsTracker = true → ∀ e h',
          (perform (.bindAttributes rt n scope)).run d m.host = some (.refusedBind e, h') →
            ∀ k, (h'.tracker k).entries = (m.host.tracker k).entries) := by
  intro m hm d rt n scope
  have htold := session_told (F := fun _ => False) depth as url globals scopes fun m _ => fair_nobody m
  obtain ⟨_, hfit⟩ := htold.mem hm
  have hs : ∀ {rt : Nat} {r : Runtime Script}, m.host.runtimes[rt]? = some r → r.Sound := fun hr => sound_of_fit hfit hr
  have hstore := (listenerBooks_of_fit hfit).sound
  have hplace : ∀ {r : Runtime Script}, m.host.runtimes[rt]? = some r → r.tracker < m.host.trackers.length :=
    fun hr => (entryBooks_of_fit hfit).places.place ⟨_, hr, rfl⟩
  obtain ⟨answer, h', hrun, hattempted⟩ := attempted_bindAttributes hs hstore hplace d n scope
  refine ⟨fun a ha => attempted_one hs hstore hplace ha, ⟨answer, h', hrun, hattempted⟩,
    fun hf r hheld ho e h'' hrun' => ?_⟩
  cases hrun.symm.trans hrun'
  cases hattempted with
  | nowhere => exact fun _ => rfl
  | refused hheld' _ _ _ hids _ hback =>
    cases hheld.symm.trans hheld'
    obtain ⟨hr, -⟩ := held?_eq_some.mp hheld
    obtain ⟨_, hfit⟩ := (session_told depth as url globals scopes hf).mem hm
    have hc := consistent_of_fit hfit hr ho
    refine hback.entries_eq hids fun w hw => ?_
    obtain ⟨b, hb, -, rfl⟩ := hc.entries w hw
    exact (hs hr).issued (.inl hb)

/-- Two runtimes share a tracker and a third has its own; the first and the third have an
    `.outside` binding. The body has an attribute for another one, and one that has no event
    name. -/
def spoiltAttributes : List Action :=
  [.newTracker, .newRuntime ⟨none, false, some 0, .custom fun _ _ => .done (.ok .undefined)⟩,
    .newRuntime ⟨none, false, some 0, .custom fun _ _ => .done (.ok .undefined)⟩,
    .newRuntime ⟨none, false, none, .custom fun _ _ => .done (.ok .undefined)⟩,
    .bindDirective 0 3 ⟨"x-on:click.outside", "click", [.outside], "open = false"⟩ 0,
    .bindDirective 2 3 ⟨"x-on:click.outside", "click", [.outside], "open = false"⟩ 0,
    .setAttr 3 "@click.outside" "open = false", .setAttr 3 "@" ""]

/-- The third runtime is refused the attributes and keeps its entry. -/
theorem spoiltAttributes_attempts : ∃ m ∈ (play 3 spoiltAttributes (.new "" .browser []) []).2,
    ((∃ e, (perform (.bind 2 3 "@" "" 0)).run 3 m.host = some (.refusedBind e, m.host)) ∨
      ∃ r b h', (perform (.bind 2 3 "@" "" 0)).run 3 m.host = some (.count b.id, h') ∧ m.host.held? 2 = some r ∧
        JustBound r.config 3 0 b ∧ Added 2 r [b] m.host h') ∧
    (∃ answer h', (perform (.bindAttributes 2 3 0)).run 3 m.host = some (answer, h') ∧ Attempted 2 3 0 m.host answer h') ∧
    ∃ e h', (perform (.bindAttributes 2 3 0)).run 3 m.host = some (.refusedBind e, h') ∧
      (m.host.tracker 1).entries.length = 1 ∧ (h'.tracker 1).entries = (m.host.tracker 1).entries := by
  have hm := session_attempts 3 spoiltAttributes "" .browser [] _ (List.mem_of_getElem? (i := 0) rfl) 3 2 3 0
  have hf : ∀ m ∈ (play 3 spoiltAttributes (.new "" .browser []) []).2, Fair (· = 2) m := by
    repeat' first | exact List.forall_mem_nil _ | refine List.forall_mem_cons.mpr ⟨trivial, ?_⟩
  exact ⟨_, List.mem_of_getElem? (i := 0) rfl, hm.1 _ (.read _ _), hm.2.1, _, _, rfl, rfl,
    hm.2.2 hf _ rfl rfl _ _ rfl 1⟩

/-- The second runtime is refused the attributes, and the first one's binding waits no
    longer. -/
theorem spoiltAttributes_robbed : ∃ h h' e b, (play 3 spoiltAttributes (.new "" .browser []) []).1 = some h ∧
    (perform (.bindAttributes 1 3 0)).run 3 h = some (.refusedBind e, h') ∧
    Binds h'.runtimes 0 b ∧ b.plan.isOutside = true ∧ entryOf 0 b ∈ (h.tracker 0).entries ∧
    entryOf 0 b ∉ (h'.tracker 0).entries := by
  refine ⟨_, _, _, _, rfl, rfl, ⟨_, rfl, List.mem_of_getElem? (i := 0) rfl⟩, rfl, List.mem_of_getElem? (i := 0) rfl, ?_⟩
  exact List.not_mem_nil

end Eventful.Host
