import Eventful.Proofs.Host.Books

/-
  Eventful.Proofs.Host.Onward — what stays so as a host goes on.

  `Onward` compares a host with a later one: its runtimes are still there and none of
  their ids, and no id of a listener, is ever given again. What a callback remembers is
  good for that long (`Known`).
-/

namespace Eventful.Host

open Page Binding

/-- The runtimes some time later. -/
def RuntimesLater (rs rs' : Runtimes) : Prop :=
  ∀ (rt : Nat) (r : Runtime Script), rs[rt]? = some r → ∃ r', rs'[rt]? = some r' ∧ r.Later r'

/-- No binding fired in between. -/
def RuntimesCalm (rs rs' : Runtimes) : Prop :=
  ∀ rt b', Keeps rs' rt b' → b'.fired = true → ∃ b, Keeps rs rt b ∧ b.id = b'.id ∧ b.fired = true

/-- The listeners some time later. -/
structure ListenersLater (ls ls' : Listeners Reaction) : Prop where
  issued : ls.lastId ≤ ls'.lastId
  stood : ∀ {t l}, ls'.Stands t l → l.id ≤ ls.lastId → ls.Stands t l

structure Onward (h h' : Host) : Prop where
  runtimes : RuntimesLater h.runtimes h'.runtimes
  listeners : ListenersLater h.page.listeners h'.page.listeners

variable {rs rs' : Runtimes} {ls ls' ls'' : Listeners Reaction} {h h' h'' : Host} {rt k : Nat} {b : Bound}

/-! ## Parts -/

theorem RuntimesLater.rfl (rs : Runtimes) : RuntimesLater rs rs := fun _ r hr => ⟨r, hr, .rfl r⟩

theorem RuntimesLater.trans {rs'' : Runtimes} (h : RuntimesLater rs rs') (h' : RuntimesLater rs' rs'') :
    RuntimesLater rs rs'' := by
  intro rt r hr
  obtain ⟨r', hr', e⟩ := h rt r hr
  obtain ⟨r'', hr'', e'⟩ := h' rt r' hr'
  exact ⟨r'', hr'', e.trans e'⟩

theorem RuntimesCalm.rfl (rs : Runtimes) : RuntimesCalm rs rs := fun _ _ hb hf => ⟨_, hb, .refl _, hf⟩

theorem RuntimesCalm.trans {rs'' : Runtimes} (h : RuntimesCalm rs rs') (h' : RuntimesCalm rs' rs'') :
    RuntimesCalm rs rs'' := by
  intro rt b hb hf
  obtain ⟨b₁, h₁, e₁, f₁⟩ := h' rt b hb hf
  obtain ⟨b₀, h₀, e₀, f₀⟩ := h rt b₁ h₁ f₁
  exact ⟨b₀, h₀, e₀.trans e₁, f₀⟩

theorem later_modify (rs : Runtimes) (rt : Nat) {f : Runtime Script → Runtime Script}
    (hf : ∀ r, rs[rt]? = some r → r.Later (f r)) : RuntimesLater rs (rs.modify rt f) := by
  intro rt' r hr
  refine ⟨_, modify_eq_some.mpr ⟨r, hr, rfl⟩, ?_⟩
  split
  · rename_i e; exact hf r (e ▸ hr)
  · exact .rfl r

theorem calm_modify (rs : Runtimes) (rt : Nat) {f : Runtime Script → Runtime Script}
    (hf : ∀ r, rs[rt]? = some r → r.Calm (f r)) : RuntimesCalm rs (rs.modify rt f) := by
  intro rt' b' hb hfired
  obtain ⟨r', hr', hb⟩ := hb
  obtain ⟨r, hr, rfl⟩ := modify_eq_some.mp hr'
  split at hb
  · rename_i e
    subst e
    obtain ⟨b, h₀, e, hf₀⟩ := hf r hr b' hb hfired
    exact ⟨b, ⟨r, hr, h₀⟩, e, hf₀⟩
  · exact ⟨b', ⟨r, hr, hb⟩, rfl, hfired⟩

theorem later_append (rs : Runtimes) (r : Runtime Script) : RuntimesLater rs (rs ++ [r]) :=
  fun _ r' hr => ⟨r', append_eq_some.mpr (.inl hr), .rfl r'⟩

theorem calm_append (rs : Runtimes) {r : Runtime Script} (hr : r.bindings = []) (hl : r.leaving = []) :
    RuntimesCalm rs (rs ++ [r]) := by
  intro rt b hb hf
  refine ⟨b, ?_, rfl, hf⟩
  rw [keeps_iff, binds_append hr, leaves_append hl] at hb
  exact keeps_iff.mpr hb

theorem ListenersLater.rfl (ls : Listeners Reaction) : ListenersLater ls ls := ⟨Nat.le_refl _, fun hl _ => hl⟩

theorem ListenersLater.trans (h : ListenersLater ls ls') (h' : ListenersLater ls' ls'') : ListenersLater ls ls'' where
  issued := Nat.le_trans h.issued h'.issued
  stood hl hle := h.stood (h'.stood hl (Nat.le_trans hle h.issued)) hle

theorem later_add (ls : Listeners Reaction) (t : Target) (event : String) (o : Options) (a : Reaction) :
    ListenersLater ls (ls.add t event o a).2 where
  issued := Nat.le_succ _
  stood hl hle := by
    rcases Listeners.stands_add.mp hl with hl | ⟨-, rfl⟩
    · exact hl
    · simp only at hle; omega

theorem later_filtered {p : Listener Reaction → Bool} (hp : Listeners.Filtered p ls ls') : ListenersLater ls ls' :=
  ⟨Nat.le_of_eq hp.lastId.symm, fun hl _ => (hp.stands.mp hl).1⟩

/-! ## Hosts -/

theorem Onward.rfl (h : Host) : Onward h h := ⟨.rfl _, .rfl _⟩

theorem Onward.trans (h₁ : Onward h h') (h₂ : Onward h' h'') : Onward h h'' :=
  ⟨h₁.runtimes.trans h₂.runtimes, h₁.listeners.trans h₂.listeners⟩

theorem Onward.owns (ho : Onward h h') (hk : Owns h.runtimes rt k) : Owns h'.runtimes rt k := by
  obtain ⟨r, hr, hown, e⟩ := hk
  obtain ⟨r', hr', hl⟩ := ho.runtimes rt _ hr
  exact ⟨r', hr', hl.owns.trans hown, hl.tracker.trans e⟩

theorem Onward.owned {r : Runtime Script} (ho : Onward h h') (hr : h.runtimes[rt]? = some r)
    (hk : Owns h'.runtimes rt k) : Owns h.runtimes rt k := by
  obtain ⟨r', hr', hl⟩ := ho.runtimes rt r hr
  obtain ⟨r'', hr'', hown, e⟩ := hk
  cases hr'.symm.trans hr''
  exact ⟨r, hr, hl.owns.symm.trans hown, hl.tracker.symm.trans e⟩

theorem Onward.uses (ho : Onward h h') (hk : Uses h.runtimes rt k) : Uses h'.runtimes rt k := by
  obtain ⟨r, hr, e⟩ := hk
  obtain ⟨r', hr', hl⟩ := ho.runtimes rt _ hr
  exact ⟨r', hr', hl.tracker.trans e⟩

/-- A binding that is reached later under an id given before was reached then. -/
theorem Onward.reached {r : Runtime Script} (ho : Onward h h') (hr : h.runtimes[rt]? = some r)
    (hb : Keeps h'.runtimes rt b) (hid : b.id ≤ r.lastId) :
    ∃ b₀, Keeps h.runtimes rt b₀ ∧ Same b₀ b ∧ (b₀.fired = true → b.fired = true) := by
  obtain ⟨r', hr', hl⟩ := ho.runtimes rt _ hr
  obtain ⟨r'', hr'', hb⟩ := hb
  cases hr'.symm.trans hr''
  obtain ⟨b₀, h₀, e, hf⟩ := hl.reached hb hid
  exact ⟨b₀, ⟨r, hr, h₀⟩, e, hf⟩

theorem Onward.bound {r : Runtime Script} (ho : Onward h h') (hr : h.runtimes[rt]? = some r)
    (hb : Binds h'.runtimes rt b) (hid : b.id ≤ r.lastId) : ∃ b₀, Binds h.runtimes rt b₀ ∧ b₀.id = b.id := by
  obtain ⟨r', hr', hl⟩ := ho.runtimes rt _ hr
  obtain ⟨r'', hr'', hb⟩ := hb
  cases hr'.symm.trans hr''
  obtain ⟨b₀, h₀, e⟩ := hl.bound hb hid
  exact ⟨b₀, ⟨r, hr, h₀⟩, e⟩

/-- The runtime gave the id to a binding. -/
def Issued (rs : Runtimes) (rt id : Nat) : Prop := ∃ r, rs[rt]? = some r ∧ id ≤ r.lastId

theorem Issued.later {id : Nat} (hi : Issued rs rt id) (hl : RuntimesLater rs rs') : Issued rs' rt id := by
  obtain ⟨r, hr, hle⟩ := hi
  obtain ⟨r', hr', h⟩ := hl rt r hr
  exact ⟨r', hr', Nat.le_trans hle h.issued⟩

theorem issued_of_keeps (hs : ∀ {rt : Nat} {r : Runtime Script}, rs[rt]? = some r → r.Sound) (hb : Keeps rs rt b) :
    Issued rs rt b.id :=
  let ⟨r, hr, hreach⟩ := hb
  ⟨r, hr, (hs hr).issued hreach⟩

/-- The id was given, and its binding is not bound any more. -/
def Gone (rs : Runtimes) (rt id : Nat) : Prop :=
  ∃ r, rs[rt]? = some r ∧ id ≤ r.lastId ∧ ∀ b ∈ r.bindings, b.id ≠ id

instance (rs : Runtimes) (rt id : Nat) : Decidable (Gone rs rt id) :=
  decidable_of_iff (∃ r ∈ rs[rt]?, id ≤ r.lastId ∧ ∀ b ∈ r.bindings, b.id ≠ id) Iff.rfl

/-- An id does not come back. -/
theorem Gone.later {id : Nat} (hg : Gone rs rt id) (hl : RuntimesLater rs rs') : Gone rs' rt id := by
  obtain ⟨r, hr, hle, hn⟩ := hg
  obtain ⟨r', hr', h⟩ := hl rt r hr
  refine ⟨r', hr', Nat.le_trans hle h.issued, fun b hb e => ?_⟩
  obtain ⟨b₀, h₀, e₀⟩ := h.bound hb (e ▸ hle)
  exact hn b₀ h₀ (e₀.trans e)

theorem Gone.not_binds {id : Nat} (hg : Gone rs rt id) (hb : Binds rs rt b) : b.id ≠ id := by
  obtain ⟨r, hr, -, hn⟩ := hg
  obtain ⟨r', hr', h₀⟩ := hb
  cases hr.symm.trans hr'
  exact hn b h₀

theorem Issued.bound {id : Nat} (hi : Issued rs rt id) (hn : ¬Gone rs rt id) : ∃ b, Binds rs rt b ∧ b.id = id := by
  obtain ⟨r, hr, hle⟩ := hi
  by_contra hnot
  exact hn ⟨r, hr, hle, fun b hb e => hnot ⟨b, ⟨r, hr, hb⟩, e⟩⟩

theorem gone_of_unbound (hs : ∀ {rt : Nat} {r : Runtime Script}, rs[rt]? = some r → r.Sound) (hb : Keeps rs rt b)
    (hn : ¬Binds rs rt b) : Gone rs rt b.id := by
  obtain ⟨r, hr, hreach⟩ := hb
  refine ⟨r, hr, (hs hr).issued hreach, fun b' h₀ e => hn ?_⟩
  exact ⟨r, hr, (hs hr).unique (.inl h₀) hreach e ▸ h₀⟩

/-! ## What callbacks remember -/

/-- Whoever stands under the listener's id is the listener. -/
structure Known (l : Listener Reaction) (ls : Listeners Reaction) : Prop where
  issued : l.id ≤ ls.lastId
  unique : ∀ {t l'}, ls.Stands t l' → l'.id = l.id → l' = l

theorem known_of_stands (hs : ls.Sound) {t : Target} {l : Listener Reaction} (hl : ls.Stands t l) : Known l ls :=
  ⟨hs.issued hl, fun hl' e => (hs.distinct hl' hl e).2⟩

theorem Known.later {l : Listener Reaction} (hk : Known l ls) (h : ListenersLater ls ls') : Known l ls' where
  issued := Nat.le_trans hk.issued h.issued
  unique hl e := hk.unique (h.stood hl (by rw [e]; exact hk.issued)) e

/-- The binding that an entry of the tracker is for goes by the entry's id. -/
def Recalled (k : Nat) (w : Entry Waiter) (rs : Runtimes) : Prop :=
  ∀ {rt id}, w.action = .binding rt id → w.binding = id ∧ Issued rs rt id ∧ Uses rs rt k

theorem Recalled.onward {w : Entry Waiter} (hw : Recalled k w h.runtimes) (ho : Onward h h') :
    Recalled k w h'.runtimes := 
  fun e => let ⟨hid, hi, hu⟩ := hw e; ⟨hid, hi.later ho.runtimes, ho.uses hu⟩

end Eventful.Host
