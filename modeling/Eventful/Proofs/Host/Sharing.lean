import Eventful.Proofs.Host.Unbinding

/-
  Eventful.Proofs.Host.Sharing — runtimes that share a tracker.

  A tracker tells its entries apart by the ids of their bindings, and every runtime counts
  its own bindings from one. So what a runtime withdraws from a shared tracker are the
  entries of those ids, whoever waits by them.

  - `session_sharing`: what unbinding, the removal of elements and the end of a runtime take
    from a tracker.
  - `sharedTracker_taken`: a runtime that unbinds takes the entry of another's binding.
-/

namespace Eventful.Host

open Page Binding

variable {h h' : Host} {rt k id : Nat} {r : Runtime Script} {bs : List Bound} {es es' es'' : List (Entry Waiter)}
  {Q Q' : Nat → Prop}

/-- The entries of some ids are gone, and no others. -/
def TakenOut (Q : Nat → Prop) (es es' : List (Entry Waiter)) : Prop :=
  ∃ p : Entry Waiter → Bool, es' = es.filter p ∧ ∀ w, p w = true ↔ ¬Q w.binding

theorem takenOut_none (hQ : ∀ id, ¬Q id) : TakenOut Q es es :=
  ⟨fun _ => true, (List.filter_eq_self.mpr fun _ _ => rfl).symm, fun w => ⟨fun _ => hQ w.binding, fun _ => rfl⟩⟩

theorem TakenOut.congr (ht : TakenOut Q es es') (hQ : ∀ id, Q id ↔ Q' id) : TakenOut Q' es es' := by
  obtain ⟨p, hes, hp⟩ := ht
  exact ⟨p, hes, fun w => (hp w).trans (not_congr (hQ w.binding))⟩

theorem TakenOut.trans (ht : TakenOut Q es es') (ht' : TakenOut Q' es' es'') :
    TakenOut (fun id => Q id ∨ Q' id) es es'' := by
  obtain ⟨p, rfl, hp⟩ := ht
  obtain ⟨p', rfl, hp'⟩ := ht'
  refine ⟨fun w => p' w && p w, List.filter_filter, fun w => ?_⟩
  rw [Bool.and_eq_true, hp, hp', not_or, and_comm]

theorem TakenOut.mem (ht : TakenOut Q es es') {w : Entry Waiter} : w ∈ es' ↔ w ∈ es ∧ ¬Q w.binding := by
  obtain ⟨p, rfl, hp⟩ := ht
  rw [List.mem_filter, hp]

/-- An `.outside` binding of the runtime, with the given property, waits in the tracker by
    this id. -/
def Takes (h : Host) (rt k : Nat) (P : Bound → Prop) (id : Nat) : Prop :=
  Uses h.runtimes rt k ∧ ∃ b, Binds h.runtimes rt b ∧ P b ∧ b.plan.isOutside = true ∧ b.id = id

/-! ## Withdrawing -/

theorem takenOut_withdrawn (w : Withdrawn r bs h h') (k : Nat) :
    TakenOut (fun id => r.tracker = k ∧ ∃ b ∈ bs, b.plan.isOutside = true ∧ b.id = id) (h.tracker k).entries
      (h'.tracker k).entries := by
  have he : h'.tracker k = _ := w.tracker k
  rw [he]
  split
  · rename_i hk
    refine ⟨_, rfl, fun w => ?_⟩
    rw [Bool.not_eq_true', ← Bool.not_eq_true, List.any_eq_true]
    simp only [Bool.and_eq_true, beq_iff_eq, hk, true_and]
  · rename_i hk
    exact takenOut_none fun id hid => hk hid.1.symm

section Unbinding

variable (hs : ∀ {rt : Nat} {r : Runtime Script}, h.runtimes[rt]? = some r → r.Sound)

include hs

theorem takenOut_unbind (rt id k : Nat) :
    TakenOut (Takes h rt k (·.id = id)) (h.tracker k).entries ((h.unbind rt id).2.tracker k).entries := by
  rcases unbind_cases hs rt id with ⟨e, hn⟩ | ⟨r, b, hr, hb, rfl, e⟩
  · rw [e]
    exact takenOut_none fun _ ⟨_, b, hbinds, hid, _⟩ => hn b hbinds hid
  · rw [e]
    have hw := takenOut_withdrawn (withdrawn_one r b (h.editRuntime rt (·.without b.id))) k
    refine hw.congr fun i => ?_
    constructor
    · rintro ⟨hk, b', hb', hout, rfl⟩
      cases List.mem_singleton.mp hb'
      exact ⟨⟨r, hr, hk⟩, b, ⟨r, hr, hb⟩, rfl, hout, rfl⟩
    · rintro ⟨⟨r', hr', hk⟩, b', ⟨r'', hr'', hb'⟩, hid, hout, rfl⟩
      cases hr.symm.trans hr'
      cases hr.symm.trans hr''
      cases (hs hr).unique (.inl hb') (.inl hb) hid
      exact ⟨hk, b, List.mem_singleton_self b, hout, rfl⟩

theorem sound_unbind (rt id : Nat) :
    ∀ {rt' : Nat} {r : Runtime Script}, (h.unbind rt id).2.runtimes[rt']? = some r → r.Sound := by
  rcases unbind_cases hs rt id with ⟨e, -⟩ | ⟨r, b, hr, hb, rfl, e⟩
  · rw [e]
    exact hs
  · obtain ⟨ls, ts, cs, e'⟩ := (withdrawn_one r b (h.editRuntime rt (·.without b.id))).shape
    rw [e, e']
    exact fun {rt'} {r'} => @sound_modify _ hs rt (·.without b.id) (fun r hr => (hs hr).without b.id) rt' r'

theorem uses_unbind (rt id : Nat) {rt' : Nat} :
    Uses (h.unbind rt id).2.runtimes rt' k ↔ Uses h.runtimes rt' k := by
  rcases unbind_cases hs rt id with ⟨e, -⟩ | ⟨r, b, hr, hb, rfl, e⟩
  · rw [e]
  · obtain ⟨ls, ts, cs, e'⟩ := (withdrawn_one r b (h.editRuntime rt (·.without b.id))).shape
    rw [e, e']
    exact uses_iff (without_parts h.runtimes rt b.id)

theorem takenOut_unbindAll (rt : Nat) (ids : List Nat) (k : Nat) :
    TakenOut (Takes h rt k (·.id ∈ ids)) (h.tracker k).entries ((h.unbindAll rt ids).tracker k).entries := by
  induction ids generalizing h with
  | nil => exact takenOut_none fun _ ⟨_, _, _, hid, _⟩ => List.not_mem_nil hid
  | cons i ids ih =>
    refine ((takenOut_unbind hs rt i k).trans (ih (sound_unbind hs rt i))).congr fun id => ?_
    unfold Takes
    rw [uses_unbind hs]
    simp only [binds_unbind_of_sound hs, List.mem_cons]
    constructor
    · rintro (⟨hu, b, hb, hid, hrest⟩ | ⟨hu, b, ⟨hb, -⟩, hid, hrest⟩)
      · exact ⟨hu, b, hb, .inl hid, hrest⟩
      · exact ⟨hu, b, hb, .inr hid, hrest⟩
    · rintro ⟨hu, b, hb, hid, hrest⟩
      by_cases he : b.id = i
      · exact .inl ⟨hu, b, hb, he, hrest⟩
      · exact .inr ⟨hu, b, ⟨hb, fun hne => he hne.2⟩, hid.resolve_left he, hrest⟩

/-- The ids of the bindings of the elements. -/
theorem mem_boundTo {rt : Nat} {b : Bound} (hb : Binds h.runtimes rt b) {ns : List NodeId} :
    b.id ∈ ((h.runtime? rt).map (·.boundTo ns)).getD [] ↔ b.element ∈ ns := by
  obtain ⟨r, hr, hb⟩ := hb
  rw [runtime?, hr]
  simp only [Option.map_some, Option.getD_some, Runtime.boundTo, List.mem_map, List.mem_filter, List.contains_iff_mem]
  constructor
  · rintro ⟨b', ⟨hb', hel⟩, hid⟩
    exact (hs hr).unique (.inl hb') (.inl hb) hid ▸ hel
  · exact fun hel => ⟨b, ⟨hb, hel⟩, rfl⟩

theorem takenOut_unbindElements (rt : Nat) (ns : List NodeId) (k : Nat) :
    TakenOut (Takes h rt k (·.element ∈ ns)) (h.tracker k).entries ((h.unbindElements rt ns).2.tracker k).entries := by
  refine (takenOut_unbindAll hs rt _ k).congr fun id => ?_
  constructor
  · exact fun ⟨hu, b, hb, hid, hrest⟩ => ⟨hu, b, hb, (mem_boundTo hs hb).mp hid, hrest⟩
  · exact fun ⟨hu, b, hb, hel, hrest⟩ => ⟨hu, b, hb, (mem_boundTo hs hb).mpr hel, hrest⟩

end Unbinding

/-- A runtime that does not own the tracker takes all its entries when it ends. -/
theorem takenOut_endIfIdle (rt k : Nat) (ho : ¬Owns h.runtimes rt k) :
    ((h.endIfIdle rt).tracker k).entries = (h.tracker k).entries ∨
      TakenOut (Takes h rt k fun _ => True) (h.tracker k).entries ((h.endIfIdle rt).tracker k).entries := by
  unfold endIfIdle runtime?
  split
  · exact .inl rfl
  · rename_i r hr
    split
    · refine .inr ?_
      have hw := takenOut_withdrawn (withdrawn_foldl r r.bindings h) k
      dsimp only
      generalize r.bindings.foldl (fun h b => h.withdraw r b) h = h₁ at hw ⊢
      have htaken : TakenOut (Takes h rt k fun _ => True) (h.tracker k).entries (h₁.tracker k).entries := by
        refine hw.congr fun id => ⟨fun ⟨hk, b, hb, hrest⟩ => ⟨⟨r, hr, hk⟩, b, ⟨r, hr, hb⟩, trivial, hrest⟩, ?_⟩
        rintro ⟨⟨r', hr', hk⟩, b, ⟨r'', hr'', hb⟩, -, hrest⟩
        cases hr.symm.trans hr'
        cases hr.symm.trans hr''
        exact ⟨hk, b, hb, hrest⟩
      split
      · rename_i howns
        have hne : r.tracker ≠ k := fun hk => ho ⟨r, hr, howns, hk⟩
        have hother : trackerAt (h₁.trackers.set r.tracker (h₁.tracker r.tracker).release) k = h₁.tracker k := by
          unfold trackerAt tracker
          rw [List.getElem?_set_ne hne]
        show TakenOut _ _ (trackerAt (h₁.trackers.set r.tracker (h₁.tracker r.tracker).release) k).entries
        rwa [hother]
      · exact htaken
    · exact .inl rfl

theorem takenOut_release (rt k : Nat) (ho : ¬Owns h.runtimes rt k) :
    ((h.release rt).tracker k).entries = (h.tracker k).entries ∨
      TakenOut (Takes h rt k fun _ => True) (h.tracker k).entries ((h.release rt).tracker k).entries := by
  let f : Runtime Script → Runtime Script := fun r => if r.status == .held then { r with status := .released } else r
  have hbindings : ∀ r : Runtime Script, (f r).bindings = r.bindings := fun r => by dsimp only [f]; split <;> rfl
  have hparts : AlikeTables SameParts h.runtimes (h.editRuntime rt f).runtimes := by
    refine parts_modify h.runtimes rt fun r => ?_
    dsimp only [f]
    split
    · rename_i hs
      exact ⟨rfl, rfl, rfl, fun he => by rw [he] at hs; cases hs⟩
    · exact ⟨rfl, rfl, rfl, id⟩
  have hbinds : ∀ {b}, Binds (h.editRuntime rt f).runtimes rt b ↔ Binds h.runtimes rt b :=
    binds_modify_same (f := f) hbindings
  refine (takenOut_endIfIdle (h := h.editRuntime rt f) rt k (mt (owns_iff hparts).mp ho)).imp_right fun ht => ?_
  refine ht.congr fun id => ?_
  unfold Takes
  rw [uses_iff hparts]
  simp only [hbinds]

/-! ## Sessions -/

/-- At every moment of a session, what a runtime takes from a tracker that is not its own by
    unbinding, for removed elements or at its end are the entries that go by the ids of the
    bindings it withdraws. So another's entry stays if and only if its id is none of them. -/
theorem session_sharing (depth : Nat) (as : List Action) (url : String) (globals : Globals) (scopes : List Value) :
    ∀ m ∈ (play depth as (.new url globals scopes) []).2, ∀ rt k,
      (∀ id, TakenOut (Takes m.host rt k (·.id = id)) (m.host.tracker k).entries
        ((m.host.unbind rt id).2.tracker k).entries) ∧
      (∀ ns, TakenOut (Takes m.host rt k (·.element ∈ ns)) (m.host.tracker k).entries
        ((m.host.unbindElements rt ns).2.tracker k).entries) ∧
      (¬Owns m.host.runtimes rt k → ∀ h' ∈ [m.host.release rt, m.host.endIfIdle rt],
        (h'.tracker k).entries = (m.host.tracker k).entries ∨
          TakenOut (Takes m.host rt k fun _ => True) (m.host.tracker k).entries (h'.tracker k).entries) ∧
      ∀ id rt' b, entryOf rt' b ∈ (m.host.tracker k).entries →
        (entryOf rt' b ∈ ((m.host.unbind rt id).2.tracker k).entries ↔ ¬Takes m.host rt k (·.id = id) b.id) := by
  intro m hm rt k
  have htold := session_told (F := fun _ => False) depth as url globals scopes fun m _ => fair_nobody m
  obtain ⟨_, hfit⟩ := htold.mem hm
  have hs : ∀ {rt : Nat} {r : Runtime Script}, m.host.runtimes[rt]? = some r → r.Sound := fun hr => sound_of_fit hfit hr
  refine ⟨fun id => takenOut_unbind hs rt id k, fun ns => takenOut_unbindElements hs rt ns k, fun ho h' hh' => ?_,
    fun id rt' b hb => ?_⟩
  · rcases List.mem_pair.mp hh' with rfl | rfl
    · exact takenOut_release rt k ho
    · exact takenOut_endIfIdle rt k ho
  · rw [(takenOut_unbind hs rt id k).mem, and_iff_right hb]
    rfl

/-- Two runtimes with one tracker, and an `.outside` binding of each on the body. -/
def sharedTracker : List Action :=
  [.newTracker, .newRuntime ⟨none, false, some 0, .custom fun _ _ => .done (.ok .undefined)⟩,
    .newRuntime ⟨none, false, some 0, .custom fun _ _ => .done (.ok .undefined)⟩,
    .bindDirective 0 3 ⟨"x-on:click.outside", "click", [.outside], "open = false"⟩ 0,
    .bindDirective 1 3 ⟨"x-on:click.outside", "click", [.outside], "open = false"⟩ 0]

/-- The first runtime takes out both entries, unless it unbinds another id. -/
theorem sharedTracker_sharing : ∃ m ∈ (play 3 sharedTracker (.new "" .browser []) []).2,
    TakenOut (Takes m.host 0 0 (·.id = 1)) (m.host.tracker 0).entries ((m.host.unbind 0 1).2.tracker 0).entries ∧
      (∃ h' ∈ [m.host.release 0, m.host.endIfIdle 0], (h'.tracker 0).entries = [] ∧
        ((h'.tracker 0).entries = (m.host.tracker 0).entries ∨
          TakenOut (Takes m.host 0 0 fun _ => True) (m.host.tracker 0).entries (h'.tracker 0).entries)) ∧
      ∃ b, Binds m.host.runtimes 1 b ∧ entryOf 1 b ∈ (m.host.tracker 0).entries ∧
        (entryOf 1 b ∈ ((m.host.unbind 0 2).2.tracker 0).entries ↔ ¬Takes m.host 0 0 (·.id = 2) b.id) := by
  have hm := session_sharing 3 sharedTracker "" .browser [] _ (List.mem_of_getElem? (i := 0) rfl) 0 0
  refine ⟨_, List.mem_of_getElem? (i := 0) rfl, hm.1 1, ⟨_, List.mem_cons_self, rfl, ?_⟩, ?_⟩
  · refine hm.2.2.1 ?_ _ List.mem_cons_self
    rintro ⟨r, hr, ho, -⟩
    cases hr
    cases ho
  · exact ⟨_, ⟨_, rfl, List.mem_of_getElem? (i := 0) rfl⟩, List.mem_of_getElem? (i := 1) rfl,
      hm.2.2.2 2 1 _ (List.mem_of_getElem? (i := 1) rfl)⟩

/-- When the first runtime unbinds its binding, that of the second is still bound but waits
    no longer. -/
theorem sharedTracker_taken : ∃ h h' b, (play 3 sharedTracker (.new "" .browser []) []).1 = some h ∧
    (play 3 (sharedTracker ++ [.unbind 0 1]) (.new "" .browser []) []).1 = some h' ∧
    Binds h.runtimes 1 b ∧ b.plan.isOutside = true ∧ entryOf 1 b ∈ (h.tracker 0).entries ∧
    Binds h'.runtimes 1 b ∧ entryOf 1 b ∉ (h'.tracker 0).entries := by
  refine ⟨_, _, _, rfl, rfl, ⟨_, rfl, List.mem_of_getElem? (i := 0) rfl⟩, rfl, List.mem_of_getElem? (i := 1) rfl,
    ⟨_, rfl, List.mem_of_getElem? (i := 0) rfl⟩, ?_⟩
  exact List.not_mem_nil

end Eventful.Host
