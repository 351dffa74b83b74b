import Eventful.Binding.Basic
import Mathlib.Data.List.Nodup

/-
  Eventful.Proofs.Binding.Runtime — what a runtime keeps of its bindings.

  `Sound`: ids are given once, over the bound and the leaving bindings together, and every
  plan is what its directive builds. A binding is reached by its id (`reachable?_eq_some`).
  Most edits change only what a binding is waiting for or how often it runs: the runtime
  after them is `Alike`.
-/

namespace Eventful.Binding

/-! ## Bindings by id -/

theorem find?_id {bs : List Bound} (hd : (bs.map (·.id)).Nodup) {id : Nat} {b : Bound} :
    bs.find? (·.id == id) = some b ↔ b ∈ bs ∧ b.id = id := by
  induction bs with
  | nil => simp
  | cons a bs ih =>
    obtain ⟨ha, hd⟩ := List.nodup_cons.mp hd
    rw [List.find?_cons]
    by_cases e : a.id = id
    · simp only [e, beq_self_eq_true, Option.some.injEq, List.mem_cons]
      constructor
      · rintro rfl; exact ⟨.inl rfl, e⟩
      · rintro ⟨rfl | hb, hid⟩
        · rfl
        · exact absurd (List.mem_map.mpr ⟨b, hb, hid.trans e.symm⟩) ha
    · simp only [beq_eq_false_iff_ne.mpr e, ih hd, List.mem_cons]
      constructor
      · rintro ⟨hb, hid⟩; exact ⟨.inr hb, hid⟩
      · rintro ⟨rfl | hb, hid⟩
        · exact absurd hid e
        · exact ⟨hb, hid⟩

variable {κ : Type}

namespace Runtime

/-- The binding is bound or on its way out. -/
def Reaches (r : Runtime κ) (b : Bound) : Prop := b ∈ r.bindings ∨ b ∈ r.leaving

structure Sound (r : Runtime κ) : Prop where
  issued : ∀ {b}, r.Reaches b → b.id ≤ r.lastId
  boundIds : (r.bindings.map (·.id)).Nodup
  leavingIds : (r.leaving.map (·.id)).Nodup
  apart : ∀ {b b'}, b ∈ r.bindings → b' ∈ r.leaving → b.id ≠ b'.id
  built : ∀ {b}, r.Reaches b → Directive.Plan.build r.config b.directive = .ok b.plan
  outsideUnheard : ∀ {b}, r.Reaches b → b.plan.isOutside = true → b.listener = none
  firedOnce : ∀ {b}, r.Reaches b → b.fired = true → b.plan.isOnce = true
  ended : r.status = .ended → r.bindings = [] ∧ r.leaving = []

theorem Sound.unique {r : Runtime κ} (h : r.Sound) {b b' : Bound} (hb : r.Reaches b) (hb' : r.Reaches b')
    (e : b.id = b'.id) : b = b' := by
  rcases hb with hb | hb <;> rcases hb' with hb' | hb'
  · exact List.inj_on_of_nodup_map h.boundIds hb hb' e
  · exact absurd e (h.apart hb hb')
  · exact absurd e.symm (h.apart hb' hb)
  · exact List.inj_on_of_nodup_map h.leavingIds hb hb' e

theorem Sound.find?_eq_some {r : Runtime κ} (h : r.Sound) {id : Nat} {b : Bound} :
    r.find? id = some b ↔ b ∈ r.bindings ∧ b.id = id := find?_id h.boundIds

theorem Sound.reachable?_eq_some {r : Runtime κ} (h : r.Sound) {id : Nat} {b : Bound} :
    r.reachable? id = some b ↔ r.Reaches b ∧ b.id = id := by
  have hd : ((r.bindings ++ r.leaving).map (·.id)).Nodup := by
    rw [List.map_append, List.nodup_append]
    refine ⟨h.boundIds, h.leavingIds, fun x hx y hy e => ?_⟩
    obtain ⟨b, hb, rfl⟩ := List.mem_map.mp hx
    obtain ⟨b', hb', rfl⟩ := List.mem_map.mp hy
    exact h.apart hb hb' e
  unfold reachable? Reaches
  rw [find?_id hd, List.mem_append]

end Runtime

/-! ## Runtimes that differ in passing matters -/

/-- The same registration. -/
structure Same (b b' : Bound) : Prop where
  id : b'.id = b.id
  element : b'.element = b.element
  directive : b'.directive = b.directive
  plan : b'.plan = b.plan
  listener : b'.listener = b.listener

theorem Same.rfl {b : Bound} : Same b b := ⟨.refl _, .refl _, .refl _, .refl _, .refl _⟩

theorem Same.trans {b b' b'' : Bound} (h : Same b b') (h' : Same b' b'') : Same b b'' :=
  ⟨h'.id.trans h.id, h'.element.trans h.element, h'.directive.trans h.directive, h'.plan.trans h.plan,
    h'.listener.trans h.listener⟩

/-- The same registration and the same wait. -/
def SameWait (b b' : Bound) : Prop := Same b b' ∧ b'.waiting = b.waiting

theorem SameWait.rfl {b : Bound} : SameWait b b := ⟨Same.rfl, .refl _⟩

/-- The bound ones correspond by `R`, and nothing else differs that is known of the runtime. -/
structure AlikeBound (R : Bound → Bound → Prop) (r r' : Runtime κ) : Prop where
  config : r'.config = r.config
  clock : r'.clock = r.clock
  tracker : r'.tracker = r.tracker
  owns : r'.ownsTracker = r.ownsTracker
  lastId : r'.lastId = r.lastId
  ended : r'.status = .ended ↔ r.status = .ended
  bound : ∃ f : Bound → Bound, (∀ b, R b (f b)) ∧ r'.bindings = r.bindings.map f

/-- The leaving ones correspond as well. -/
structure Alike (R : Bound → Bound → Prop) (r r' : Runtime κ) : Prop extends AlikeBound R r r' where
  left : ∃ f : Bound → Bound, (∀ b, R b (f b)) ∧ r'.leaving = r.leaving.map f

variable {R : Bound → Bound → Prop} {r r' : Runtime κ} {b : Bound}

theorem AlikeBound.bindings_of (h : AlikeBound R r r') (hb : b ∈ r'.bindings) : ∃ b₀ ∈ r.bindings, R b₀ b := by
  obtain ⟨f, hf, e⟩ := h.bound
  rw [e] at hb
  obtain ⟨b₀, h₀, rfl⟩ := List.mem_map.mp hb
  exact ⟨b₀, h₀, hf b₀⟩

theorem AlikeBound.bindings_to (h : AlikeBound R r r') (hb : b ∈ r.bindings) : ∃ b' ∈ r'.bindings, R b b' := by
  obtain ⟨f, hf, e⟩ := h.bound
  exact ⟨f b, e ▸ List.mem_map_of_mem hb, hf b⟩

theorem Alike.leaving_of (h : Alike R r r') (hb : b ∈ r'.leaving) : ∃ b₀ ∈ r.leaving, R b₀ b := by
  obtain ⟨f, hf, e⟩ := h.left
  rw [e] at hb
  obtain ⟨b₀, h₀, rfl⟩ := List.mem_map.mp hb
  exact ⟨b₀, h₀, hf b₀⟩

theorem Alike.leaving_to (h : Alike R r r') (hb : b ∈ r.leaving) : ∃ b' ∈ r'.leaving, R b b' := by
  obtain ⟨f, hf, e⟩ := h.left
  exact ⟨f b, e ▸ List.mem_map_of_mem hb, hf b⟩

theorem Alike.reaches_of (h : Alike R r r') (hb : r'.Reaches b) : ∃ b₀, r.Reaches b₀ ∧ R b₀ b := by
  rcases hb with hb | hb
  · obtain ⟨b₀, h₀, hR⟩ := h.bindings_of hb; exact ⟨b₀, .inl h₀, hR⟩
  · obtain ⟨b₀, h₀, hR⟩ := h.leaving_of hb; exact ⟨b₀, .inr h₀, hR⟩

theorem Alike.reaches_to (h : Alike R r r') (hb : r.Reaches b) : ∃ b', r'.Reaches b' ∧ R b b' := by
  rcases hb with hb | hb
  · obtain ⟨b', h', hR⟩ := h.bindings_to hb; exact ⟨b', .inl h', hR⟩
  · obtain ⟨b', h', hR⟩ := h.leaving_to hb; exact ⟨b', .inr h', hR⟩

theorem AlikeBound.mono {R' : Bound → Bound → Prop} (h : AlikeBound R r r') (hR : ∀ b b', R b b' → R' b b') :
    AlikeBound R' r r' :=
  let ⟨f, hf, e⟩ := h.bound
  { h with bound := ⟨f, fun b => hR _ _ (hf b), e⟩ }

theorem AlikeBound.rfl (hR : ∀ b, R b b) : AlikeBound R r r :=
  ⟨.refl _, .refl _, .refl _, .refl _, .refl _, Iff.rfl, id, hR, (List.map_id _).symm⟩

theorem Alike.rfl (hR : ∀ b, R b b) : Alike R r r := ⟨AlikeBound.rfl hR, id, hR, (List.map_id _).symm⟩

theorem alike_edit (r : Runtime κ) (id : Nat) {f : Bound → Bound} (hr : ∀ b, R b b) (hf : ∀ b, R b (f b)) :
    Alike R r (r.edit id f) := by
  have hc : ∀ b : Bound, R b (if b.id == id then f b else b) := by
    intro b
    split
    · exact hf b
    · exact hr b
  exact ⟨⟨.refl _, .refl _, .refl _, .refl _, .refl _, Iff.rfl, _, hc, .refl _⟩, _, hc, .refl _⟩

theorem alike_forget (r : Runtime κ) (id : Nat) (hr : ∀ b, R b b) : AlikeBound R r (r.forget id) :=
  { AlikeBound.rfl hr with }

namespace Runtime

/-- What an edit of one binding keeps of its runtime. -/
theorem Sound.edit {r : Runtime κ} (h : r.Sound) (id : Nat) {f : Bound → Bound} (hf : ∀ b, Same b (f b))
    (ho : ∀ b, r.Reaches b → (f b).fired = true → b.plan.isOnce = true) : (r.edit id f).Sound := by
  have ha : Alike Same r (r.edit id f) := alike_edit r id (fun _ => Same.rfl) hf
  have hids : ∀ bs : List Bound, (bs.map fun b => if b.id == id then f b else b).map (·.id) = bs.map (·.id) := by
    intro bs
    rw [List.map_map]
    refine List.map_congr_left fun b _ => ?_
    by_cases e : b.id = id
    · simp only [Function.comp, e, beq_self_eq_true, if_true, (hf b).id]
    · simp only [Function.comp, beq_iff_eq, e, if_false]
  constructor
  · intro b hb
    obtain ⟨b₀, h₀, e⟩ := ha.reaches_of hb
    exact e.id ▸ h.issued h₀
  · exact (hids r.bindings).symm ▸ h.boundIds
  · exact (hids r.leaving).symm ▸ h.leavingIds
  · intro b b' hb hb'
    obtain ⟨b₀, h₀, e⟩ := ha.bindings_of hb
    obtain ⟨b₁, h₁, e'⟩ := ha.leaving_of hb'
    rw [e.id, e'.id]
    exact h.apart h₀ h₁
  · intro b hb
    obtain ⟨b₀, h₀, e⟩ := ha.reaches_of hb
    rw [e.directive, e.plan]
    exact h.built h₀
  · intro b hb ho'
    obtain ⟨b₀, h₀, e⟩ := ha.reaches_of hb
    rw [e.listener]
    exact h.outsideUnheard h₀ (e.plan ▸ ho')
  · intro b hb hfired
    have : ∃ b₀, r.Reaches b₀ ∧ b = if b₀.id == id then f b₀ else b₀ := by
      rcases hb with hb | hb <;> obtain ⟨b₀, h₀, rfl⟩ := List.mem_map.mp hb
      · exact ⟨b₀, .inl h₀, .refl _⟩
      · exact ⟨b₀, .inr h₀, .refl _⟩
    obtain ⟨b₀, h₀, rfl⟩ := this
    by_cases hid : (b₀.id == id) = true
    · rw [if_pos hid] at hfired ⊢
      rw [(hf b₀).plan]
      exact ho b₀ h₀ hfired
    · rw [if_neg hid] at hfired ⊢
      exact h.firedOnce h₀ hfired
  · intro he
    obtain ⟨e₁, e₂⟩ := h.ended he
    exact ⟨by show List.map _ r.bindings = []; rw [e₁]; rfl, by show List.map _ r.leaving = []; rw [e₂]; rfl⟩

/-- Only the binding of the id is edited. -/
theorem Sound.edit_congr {r : Runtime κ} (h : r.Sound) {b : Bound} (hb : r.Reaches b) {f g : Bound → Bound}
    (e : f b = g b) : r.edit b.id f = r.edit b.id g := by
  have hone : ∀ b', r.Reaches b' → (if b'.id == b.id then f b' else b') = if b'.id == b.id then g b' else b' := by
    intro b' hb'
    by_cases hid : b'.id = b.id
    · rw [h.unique hb' hb hid, e]
    · simp [hid]
  have h₁ : (r.edit b.id f).bindings = (r.edit b.id g).bindings := List.map_congr_left fun b' hb' => hone b' (.inl hb')
  have h₂ : (r.edit b.id f).leaving = (r.edit b.id g).leaving := List.map_congr_left fun b' hb' => hone b' (.inr hb')
  show { r with bindings := (r.edit b.id f).bindings, leaving := (r.edit b.id f).leaving } = _
  rw [h₁, h₂]
  rfl

/-! ## Binding and unbinding -/

/-- What a new binding starts with. -/
structure New (r : Runtime κ) (b : Bound) : Prop where
  id : b.id = r.lastId + 1
  built : Directive.Plan.build r.config b.directive = .ok b.plan
  unheard : b.plan.isOutside = true → b.listener = none
  fired : b.fired = false
  waiting : b.waiting = none

/-- The runtime with one more binding. -/
def with1 (r : Runtime κ) (b : Bound) : Runtime κ := { r with bindings := r.bindings ++ [b], lastId := r.lastId + 1 }

theorem mem_with1 {r : Runtime κ} {b b' : Bound} : b' ∈ (r.with1 b).bindings ↔ b' ∈ r.bindings ∨ b' = b := by
  simp [with1]

theorem reaches_with1 {r : Runtime κ} {b b' : Bound} : (r.with1 b).Reaches b' ↔ r.Reaches b' ∨ b' = b := by
  unfold Reaches
  rw [mem_with1]
  show (_ ∨ b' ∈ r.leaving) ↔ _
  constructor
  · rintro ((h | h) | h)
    · exact .inl (.inl h)
    · exact .inr h
    · exact .inl (.inr h)
  · rintro ((h | h) | h)
    · exact .inl (.inl h)
    · exact .inr h
    · exact .inl (.inr h)

theorem Sound.with1 {r : Runtime κ} (h : r.Sound) {b : Bound} (hn : New r b) (hs : r.status ≠ .ended) :
    (r.with1 b).Sound where
  issued {b'} hb := by
    show b'.id ≤ r.lastId + 1
    rcases reaches_with1.mp hb with hb | rfl
    · have := h.issued hb; omega
    · exact Nat.le_of_eq hn.id
  boundIds := by
    show ((r.bindings ++ [b]).map (·.id)).Nodup
    rw [List.map_append, List.nodup_append]
    refine ⟨h.boundIds, by simp, fun x hx y hy e => ?_⟩
    obtain ⟨b', hb', rfl⟩ := List.mem_map.mp hx
    have := h.issued (.inl hb')
    have := hn.id
    simp only [List.map_cons, List.map_nil, List.mem_singleton] at hy
    omega
  leavingIds := h.leavingIds
  apart {b₀ b'} hb hb' := by
    rcases mem_with1.mp hb with hb | rfl
    · exact h.apart hb hb'
    · have := h.issued (.inr hb')
      have := hn.id
      omega
  built {b'} hb := by
    rcases reaches_with1.mp hb with hb | rfl
    · exact h.built hb
    · exact hn.built
  outsideUnheard {b'} hb ho := by
    rcases reaches_with1.mp hb with hb | rfl
    · exact h.outsideUnheard hb ho
    · exact hn.unheard ho
  firedOnce {b'} hb hf := by
    rcases reaches_with1.mp hb with hb | rfl
    · exact h.firedOnce hb hf
    · rw [hn.fired] at hf; cases hf
  ended he := absurd he hs

theorem mem_without {r : Runtime κ} {id : Nat} {b : Bound} : b ∈ (r.without id).bindings ↔ b ∈ r.bindings ∧ b.id ≠ id := by
  simp [without]

theorem leaving_without {r : Runtime κ} {id : Nat} {b : Bound} (hb : b ∈ (r.without id).leaving) :
    b ∈ r.leaving ∨ ∃ b₀ ∈ r.bindings, b₀.id = id ∧ b = { b₀ with waiting := none } := by
  simp only [without, List.mem_append, List.mem_map, List.mem_filter, Bool.and_eq_true, beq_iff_eq] at hb
  rcases hb with hb | ⟨b₀, ⟨h₀, hid, -⟩, rfl⟩
  · exact .inl hb
  · exact .inr ⟨b₀, h₀, hid, rfl⟩

/-- What is reached after an unbinding was reached before it. -/
theorem reaches_without {r : Runtime κ} {id : Nat} {b : Bound} (hb : (r.without id).Reaches b) :
    ∃ b₀, r.Reaches b₀ ∧ Same b₀ b ∧ b.fired = b₀.fired := by
  rcases hb with hb | hb
  · exact ⟨b, .inl (mem_without.mp hb).1, Same.rfl, .refl _⟩
  · rcases leaving_without hb with hb | ⟨b₀, h₀, -, rfl⟩
    · exact ⟨b, .inr hb, Same.rfl, .refl _⟩
    · exact ⟨b₀, .inl h₀, ⟨.refl _, .refl _, .refl _, .refl _, .refl _⟩, .refl _⟩

theorem Sound.without {r : Runtime κ} (h : r.Sound) (id : Nat) : (r.without id).Sound where
  issued {b} hb := by
    obtain ⟨b₀, h₀, e, -⟩ := reaches_without hb
    exact e.id ▸ h.issued h₀
  boundIds := (List.filter_sublist.map _).nodup h.boundIds
  leavingIds := by
    show ((r.leaving ++ _).map (·.id)).Nodup
    rw [List.map_append, List.nodup_append]
    refine ⟨h.leavingIds, ?_, fun x hx y hy e => ?_⟩
    · rw [List.map_map]
      exact (List.filter_sublist.map _).nodup h.boundIds
    · obtain ⟨b, hb, rfl⟩ := List.mem_map.mp hx
      obtain ⟨b', hb', rfl⟩ := List.mem_map.mp hy
      obtain ⟨b₀, h₀, rfl⟩ := List.mem_map.mp hb'
      exact h.apart (List.mem_filter.mp h₀).1 hb e.symm
  apart {b b'} hb hb' := by
    obtain ⟨hb, hne⟩ := mem_without.mp hb
    rcases leaving_without hb' with hb' | ⟨b₀, h₀, hid, rfl⟩
    · exact h.apart hb hb'
    · exact fun e => hne (e.trans hid)
  built {b} hb := by
    obtain ⟨b₀, h₀, e, -⟩ := reaches_without hb
    rw [e.directive, e.plan]
    exact h.built h₀
  outsideUnheard {b} hb ho := by
    obtain ⟨b₀, h₀, e, -⟩ := reaches_without hb
    rw [e.listener]
    exact h.outsideUnheard h₀ (e.plan ▸ ho)
  firedOnce {b} hb hf := by
    obtain ⟨b₀, h₀, e, ef⟩ := reaches_without hb
    rw [e.plan]
    exact h.firedOnce h₀ (ef ▸ hf)
  ended he := by
    obtain ⟨e₁, e₂⟩ := h.ended he
    simp [Runtime.without, e₁, e₂]

theorem reaches_forget {r : Runtime κ} {id : Nat} {b : Bound} (hb : (r.forget id).Reaches b) : r.Reaches b :=
  hb.imp_right fun hb => (List.mem_filter.mp hb).1

theorem Sound.forget {r : Runtime κ} (h : r.Sound) (id : Nat) : (r.forget id).Sound where
  issued hb := h.issued (reaches_forget hb)
  boundIds := h.boundIds
  leavingIds := (List.filter_sublist.map _).nodup h.leavingIds
  apart hb hb' := h.apart hb (List.mem_filter.mp hb').1
  built hb := h.built (reaches_forget hb)
  outsideUnheard hb := h.outsideUnheard (reaches_forget hb)
  firedOnce hb := h.firedOnce (reaches_forget hb)
  ended he := by
    obtain ⟨e₁, e₂⟩ := h.ended he
    exact ⟨e₁, by simp [Runtime.forget, e₂]⟩

/-! ## What stays so -/

/-- The second is the runtime some time after the first: no id comes back, and a binding
    that fired has fired for good. -/
structure Later (r r' : Runtime κ) : Prop where
  config : r'.config = r.config
  clock : r'.clock = r.clock
  tracker : r'.tracker = r.tracker
  owns : r'.ownsTracker = r.ownsTracker
  issued : r.lastId ≤ r'.lastId
  reached : ∀ {b'}, r'.Reaches b' → b'.id ≤ r.lastId →
    ∃ b, r.Reaches b ∧ Same b b' ∧ (b.fired = true → b'.fired = true)
  bound : ∀ {b'}, b' ∈ r'.bindings → b'.id ≤ r.lastId → ∃ b ∈ r.bindings, b.id = b'.id

/-- No binding fired in between. -/
def Calm (r r' : Runtime κ) : Prop :=
  ∀ b', r'.Reaches b' → b'.fired = true → ∃ b, r.Reaches b ∧ b.id = b'.id ∧ b.fired = true

theorem Later.rfl (r : Runtime κ) : Later r r where
  config := .refl _
  clock := .refl _
  tracker := .refl _
  owns := .refl _
  issued := Nat.le_refl _
  reached hb _ := ⟨_, hb, Same.rfl, id⟩
  bound hb _ := ⟨_, hb, .refl _⟩

theorem Calm.rfl (r : Runtime κ) : Calm r r := fun _ hb hf => ⟨_, hb, .refl _, hf⟩

theorem Later.trans {r r' r'' : Runtime κ} (h : Later r r') (h' : Later r' r'') : Later r r'' where
  config := h'.config.trans h.config
  clock := h'.clock.trans h.clock
  tracker := h'.tracker.trans h.tracker
  owns := h'.owns.trans h.owns
  issued := Nat.le_trans h.issued h'.issued
  reached hb hid := by
    obtain ⟨b₁, h₁, e₁, f₁⟩ := h'.reached hb (Nat.le_trans hid h.issued)
    obtain ⟨b₀, h₀, e₀, f₀⟩ := h.reached h₁ (e₁.id ▸ hid)
    exact ⟨b₀, h₀, e₀.trans e₁, fun hf => f₁ (f₀ hf)⟩
  bound hb hid := by
    obtain ⟨b₁, h₁, e₁⟩ := h'.bound hb (Nat.le_trans hid h.issued)
    obtain ⟨b₀, h₀, e₀⟩ := h.bound h₁ (e₁ ▸ hid)
    exact ⟨b₀, h₀, e₀.trans e₁⟩

theorem Calm.trans {r r' r'' : Runtime κ} (h : Calm r r') (h' : Calm r' r'') : Calm r r'' := by
  intro b hb hf
  obtain ⟨b₁, h₁, e₁, f₁⟩ := h' b hb hf
  obtain ⟨b₀, h₀, e₀, f₀⟩ := h b₁ h₁ f₁
  exact ⟨b₀, h₀, e₀.trans e₁, f₀⟩

theorem Later.alike {R : Bound → Bound → Prop} {r r' : Runtime κ} (h : Alike R r r') (hs : ∀ b b', R b b' → Same b b')
    (hf : ∀ b b', R b b' → b.fired = true → b'.fired = true) : Later r r' where
  config := h.config
  clock := h.clock
  tracker := h.tracker
  owns := h.owns
  issued := Nat.le_of_eq h.lastId.symm
  reached hb _ := by
    obtain ⟨b, h₀, e⟩ := h.reaches_of hb
    exact ⟨b, h₀, hs _ _ e, hf _ _ e⟩
  bound hb _ := by
    obtain ⟨b, h₀, e⟩ := h.bindings_of hb
    exact ⟨b, h₀, (hs _ _ e).id.symm⟩

theorem Calm.alike {R : Bound → Bound → Prop} {r r' : Runtime κ} (h : Alike R r r')
    (hR : ∀ b b', R b b' → b'.id = b.id ∧ b'.fired = b.fired) : Calm r r' := by
  intro b' hb hf
  obtain ⟨b, h₀, e⟩ := h.reaches_of hb
  exact ⟨b, h₀, (hR _ _ e).1.symm, (hR _ _ e).2 ▸ hf⟩

/-- The runtimes differ only in what nothing here reads. -/
structure Aside (r r' : Runtime κ) : Prop where
  config : r'.config = r.config
  clock : r'.clock = r.clock
  tracker : r'.tracker = r.tracker
  owns : r'.ownsTracker = r.ownsTracker
  lastId : r'.lastId = r.lastId
  ended : r'.status = .ended ↔ r.status = .ended
  bindings : r'.bindings = r.bindings
  leaving : r'.leaving = r.leaving

theorem Aside.alike {R : Bound → Bound → Prop} {r r' : Runtime κ} (h : Aside r r') (hR : ∀ b, R b b) : Alike R r r' :=
  ⟨⟨h.config, h.clock, h.tracker, h.owns, h.lastId, h.ended, id, hR, h.bindings.trans (List.map_id _).symm⟩, id, hR,
    h.leaving.trans (List.map_id _).symm⟩

theorem Aside.sound {r r' : Runtime κ} (h : Aside r r') (hs : r.Sound) : r'.Sound := by
  have hreach : ∀ {b}, r'.Reaches b → r.Reaches b := by
    intro b hb
    unfold Reaches at hb
    rw [h.bindings, h.leaving] at hb
    exact hb
  constructor
  · intro b hb
    rw [h.lastId]
    exact hs.issued (hreach hb)
  · rw [h.bindings]
    exact hs.boundIds
  · rw [h.leaving]
    exact hs.leavingIds
  · rw [h.bindings, h.leaving]
    exact hs.apart
  · intro b hb
    rw [h.config]
    exact hs.built (hreach hb)
  · exact fun hb => hs.outsideUnheard (hreach hb)
  · exact fun hb => hs.firedOnce (hreach hb)
  · rw [h.bindings, h.leaving]
    exact fun he => hs.ended (h.ended.mp he)

theorem later_with1 {r : Runtime κ} {b : Bound} (hid : b.id = r.lastId + 1) : Later r (r.with1 b) where
  config := .refl _
  clock := .refl _
  tracker := .refl _
  owns := .refl _
  issued := Nat.le_succ _
  reached {b'} hb hle := by
    rcases reaches_with1.mp hb with hb | rfl
    · exact ⟨b', hb, Same.rfl, id⟩
    · omega
  bound {b'} hb hle := by
    rcases mem_with1.mp hb with hb | rfl
    · exact ⟨b', hb, .refl _⟩
    · omega

theorem calm_with1 {r : Runtime κ} {b : Bound} (hf : b.fired = false) : Calm r (r.with1 b) := by
  intro b' hb hf'
  rcases reaches_with1.mp hb with hb | rfl
  · exact ⟨b', hb, .refl _, hf'⟩
  · rw [hf] at hf'; cases hf'

/-- Bindings go. -/
theorem later_fewer {r r' : Runtime κ} (config : r'.config = r.config) (clock : r'.clock = r.clock)
    (tracker : r'.tracker = r.tracker) (owns : r'.ownsTracker = r.ownsTracker) (issued : r'.lastId = r.lastId)
    (reached : ∀ {b'}, r'.Reaches b' → ∃ b, r.Reaches b ∧ Same b b' ∧ b'.fired = b.fired)
    (bound : ∀ {b'}, b' ∈ r'.bindings → b' ∈ r.bindings) : Later r r' ∧ Calm r r' := by
  refine ⟨⟨config, clock, tracker, owns, Nat.le_of_eq issued.symm, fun hb _ => ?_,
    fun hb _ => ⟨_, bound hb, .refl _⟩⟩, fun b' hb hf => ?_⟩
  · obtain ⟨b, h₀, e, ef⟩ := reached hb
    exact ⟨b, h₀, e, fun hf => ef.trans hf⟩
  · obtain ⟨b, h₀, e, ef⟩ := reached hb
    exact ⟨b, h₀, e.id.symm, ef ▸ hf⟩

theorem later_without (r : Runtime κ) (id : Nat) : Later r (r.without id) ∧ Calm r (r.without id) :=
  later_fewer (.refl _) (.refl _) (.refl _) (.refl _) (.refl _) reaches_without fun hb => (mem_without.mp hb).1

theorem later_forget (r : Runtime κ) (id : Nat) : Later r (r.forget id) ∧ Calm r (r.forget id) :=
  later_fewer (.refl _) (.refl _) (.refl _) (.refl _) (.refl _)
    (fun hb => ⟨_, reaches_forget hb, Same.rfl, .refl _⟩) fun hb => hb

/-- The runtime after its end. -/
def close (r : Runtime κ) : Runtime κ := { r with status := .ended, bindings := [], hooks := [] }

theorem sound_bare {r : Runtime κ} (hb : r.bindings = []) (hl : r.leaving = []) : r.Sound := by
  have hn : ∀ {b}, ¬r.Reaches b := by
    intro b hr
    unfold Reaches at hr
    rw [hb, hl] at hr
    rcases hr with hr | hr <;> cases hr
  refine ⟨fun h => (hn h).elim, ?_, ?_, fun h => ?_, fun h => (hn h).elim, fun h => (hn h).elim,
    fun h => (hn h).elim, fun _ => ⟨hb, hl⟩⟩
  · rw [hb]; exact List.nodup_nil
  · rw [hl]; exact List.nodup_nil
  · exact (hn (.inl h)).elim

/-- A runtime that is not being evaluated may end. -/
theorem sound_close (r : Runtime κ) (hl : r.leaving = []) : r.close.Sound := sound_bare (.refl _) hl

theorem later_close (r : Runtime κ) : Later r r.close ∧ Calm r r.close :=
  later_fewer (.refl _) (.refl _) (.refl _) (.refl _) (.refl _)
    (fun hb => ⟨_, .inr (hb.resolve_left List.not_mem_nil), Same.rfl, .refl _⟩) fun hb => (List.not_mem_nil hb).elim

end Runtime
end Eventful.Binding
