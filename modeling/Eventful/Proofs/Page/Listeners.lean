import Eventful.Page.Listeners

/-
  Eventful.Proofs.Page.Listeners — what the listener store keeps.

  Everything is said on one view of the store: the list of listeners that stand at a
  target (`of`). Adding appends one to the list of one target (`of_add`), removing an id
  filters it out of every list (`of_remove`), and the index leads to exactly the listeners
  that stand somewhere (`contains_iff`). `Sound` is the invariant behind this; adding and
  removing keep it. A store after several removals is `Filtered`.
-/

namespace Eventful.Page.Listeners

variable {κ : Type}

/-- A listener stands at a target. -/
def Stands (s : Listeners κ) (t : Target) (l : Listener κ) : Prop := l ∈ s.of t

structure Sound (s : Listeners κ) : Prop where
  /-- Each target has one bucket. -/
  targets : (s.buckets.map (·.1)).Nodup
  /-- No id is given twice. -/
  distinct : ∀ {t l t' l'}, s.Stands t l → s.Stands t' l' → l.id = l'.id → t = t' ∧ l = l'
  issued : ∀ {t l}, s.Stands t l → l.id ≤ s.lastId
  /-- The listeners of a target stand in the order of their adding. -/
  ordered : ∀ t, (s.of t).Pairwise (·.id < ·.id)
  indexed : ∀ {id t}, (id, t) ∈ s.index ↔ ∃ l, s.Stands t l ∧ l.id = id

/-! ## Buckets -/

/-- The listeners of a target in a list of buckets. -/
def bucket (bs : List (Target × List (Listener κ))) (t : Target) : List (Listener κ) :=
  ((bs.find? (·.1 == t)).map (·.2)).getD []

@[simp] theorem bucket_nil (t : Target) : bucket ([] : List (Target × List (Listener κ))) t = [] := rfl

theorem bucket_cons (b : Target × List (Listener κ)) (bs : List (Target × List (Listener κ))) (t : Target) :
    bucket (b :: bs) t = if b.1 = t then b.2 else bucket bs t := by
  by_cases e : b.1 = t <;> simp [bucket, e]

theorem bucket_eq_nil {bs : List (Target × List (Listener κ))} {t : Target} (h : t ∉ bs.map (·.1)) :
    bucket bs t = [] := by
  induction bs with
  | nil => rfl
  | cons b bs ih =>
    simp only [List.map_cons, List.mem_cons, not_or] at h
    rw [bucket_cons, if_neg (Ne.symm h.1), ih h.2]

theorem bucket_putLast (t : Target) (l : Listener κ) (bs : List (Target × List (Listener κ))) (t' : Target) :
    bucket (putLast t l bs) t' = if t = t' then bucket bs t' ++ [l] else bucket bs t' := by
  induction bs with
  | nil => simp [putLast, bucket_cons]
  | cons b bs ih =>
    obtain ⟨u, ls⟩ := b
    by_cases e : u = t
    · subst e
      by_cases e' : u = t' <;> simp [putLast, bucket_cons, e']
    · simp only [putLast, beq_iff_eq, e, if_false, bucket_cons, ih]
      by_cases e' : u = t'
      · subst e'; simp [Ne.symm e]
      · simp [e']

theorem targets_putLast (t : Target) (l : Listener κ) (bs : List (Target × List (Listener κ))) :
    (putLast t l bs).map (·.1) = if t ∈ bs.map (·.1) then bs.map (·.1) else bs.map (·.1) ++ [t] := by
  induction bs with
  | nil => rfl
  | cons b bs ih =>
    obtain ⟨u, ls⟩ := b
    by_cases e : u = t
    · simp [putLast, e]
    · simp only [putLast, beq_iff_eq, e, if_false, List.map_cons, ih, List.mem_cons, Ne.symm e, false_or]
      split <;> simp

theorem takeOut_cons (t : Target) (id : Nat) (u : Target) (ls : List (Listener κ))
    (bs : List (Target × List (Listener κ))) :
    takeOut t id ((u, ls) :: bs) =
      if u = t then
        if ls.filter (·.id != id) = [] then takeOut t id bs else (u, ls.filter (·.id != id)) :: takeOut t id bs
      else (u, ls) :: takeOut t id bs := by
  unfold takeOut
  rw [List.filterMap_cons]
  by_cases e : u = t
  · by_cases e' : ls.filter (fun l => l.id != id) = []
    · simp only [e, e', beq_self_eq_true, if_true, List.isEmpty_nil]
    · simp only [e, e', beq_self_eq_true, if_true, List.isEmpty_iff, if_false]
  · simp only [e, beq_iff_eq, if_false]

theorem targets_takeOut (t : Target) (id : Nat) (bs : List (Target × List (Listener κ))) :
    ((takeOut t id bs).map (·.1)).Sublist (bs.map (·.1)) := by
  induction bs with
  | nil => exact List.Sublist.slnil
  | cons b bs ih =>
    rw [takeOut_cons]
    split
    · split
      · exact ih.cons _
      · exact ih.cons_cons _
    · exact ih.cons_cons _

theorem bucket_takeOut (t : Target) (id : Nat) {bs : List (Target × List (Listener κ))} (hd : (bs.map (·.1)).Nodup)
    (t' : Target) :
    bucket (takeOut t id bs) t' = if t = t' then (bucket bs t').filter (·.id != id) else bucket bs t' := by
  induction bs with
  | nil => simp [takeOut]
  | cons b bs ih =>
    obtain ⟨u, ls⟩ := b
    obtain ⟨hu, hd⟩ := List.nodup_cons.mp hd
    have ih := ih hd
    rw [takeOut_cons, bucket_cons]
    by_cases e : u = t
    · subst e
      by_cases et : u = t'
      · -- No other bucket is the target's, so nothing shows up where an emptied one stood.
        subst et
        have hnil : bucket (takeOut u id bs) u = [] := by
          rw [ih, if_pos rfl, bucket_eq_nil hu]; rfl
        by_cases e' : ls.filter (fun l => l.id != id) = []
        · simp only [e', if_true, hnil]
        · simp only [e', if_true, if_false, bucket_cons]
      · by_cases e' : ls.filter (fun l => l.id != id) = []
        · simp only [e', if_true, et, if_false, ih]
        · simp only [e', if_true, et, if_false, bucket_cons, ih]
    · simp only [e, if_false, bucket_cons, ih]
      by_cases et : u = t'
      · subst et; simp only [if_true, Ne.symm e, if_false]
      · simp only [et, if_false]

/-! ## Adding -/

@[simp] theorem add_id (s : Listeners κ) (t : Target) (event : String) (o : Options) (a : κ) :
    (s.add t event o a).1 = s.lastId + 1 := rfl

@[simp] theorem add_lastId (s : Listeners κ) (t : Target) (event : String) (o : Options) (a : κ) :
    (s.add t event o a).2.lastId = s.lastId + 1 := rfl

theorem of_add (s : Listeners κ) (t : Target) (event : String) (o : Options) (a : κ) (t' : Target) :
    (s.add t event o a).2.of t' =
      if t = t' then s.of t' ++ [⟨s.lastId + 1, event, o, a⟩] else s.of t' :=
  bucket_putLast t _ s.buckets t'

theorem stands_add {s : Listeners κ} {t : Target} {event : String} {o : Options} {a : κ} {t' : Target}
    {l : Listener κ} :
    (s.add t event o a).2.Stands t' l ↔ s.Stands t' l ∨ (t' = t ∧ l = ⟨s.lastId + 1, event, o, a⟩) := by
  unfold Stands
  rw [of_add]
  by_cases e : t = t'
  · subst e; simp
  · simp [e, Ne.symm e]

/-! ## Removing -/

@[simp] theorem remove_lastId (s : Listeners κ) (id : Nat) : (s.remove id).2.lastId = s.lastId := by
  unfold remove; split <;> rfl

theorem target?_eq_some {s : Listeners κ} {id : Nat} {t : Target} (h : s.target? id = some t) : (id, t) ∈ s.index := by
  obtain ⟨e, he, rfl⟩ := Option.map_eq_some_iff.mp h
  have h1 := List.mem_of_find?_eq_some he
  have h2 := List.find?_some he
  simp only [beq_iff_eq] at h2
  rw [← h2]; exact h1

theorem target?_eq_none {s : Listeners κ} {id : Nat} (h : s.target? id = none) : ∀ t, (id, t) ∉ s.index := by
  intro t ht
  have := List.find?_eq_none.mp (Option.map_eq_none_iff.mp h) _ ht
  simp at this

theorem contains_iff {s : Listeners κ} (hs : s.Sound) {id : Nat} :
    s.contains id = true ↔ ∃ t l, s.Stands t l ∧ l.id = id := by
  unfold contains
  cases h : s.target? id with
  | none =>
    simp only [Option.isSome_none, Bool.false_eq_true, false_iff]
    rintro ⟨t, l, hl, e⟩
    exact target?_eq_none h t (hs.indexed.mpr ⟨l, hl, e⟩)
  | some t =>
    obtain ⟨l, hl, e⟩ := hs.indexed.mp (target?_eq_some h)
    simp only [Option.isSome_some, true_iff]
    exact ⟨t, l, hl, e⟩

theorem remove_fst (s : Listeners κ) (id : Nat) : (s.remove id).1 = s.contains id := by
  unfold remove contains; split <;> rename_i h <;> simp [h]

/-- Removing an id leaves every target's list as it was but for that id. -/
theorem of_remove {s : Listeners κ} (hs : s.Sound) (id : Nat) (t : Target) :
    (s.remove id).2.of t = (s.of t).filter (·.id != id) := by
  unfold remove
  cases h : s.target? id with
  | none =>
    refine (List.filter_eq_self.mpr fun l hl => ?_).symm
    simp only [bne_iff_ne, ne_eq]
    intro e
    exact target?_eq_none h t (hs.indexed.mpr ⟨l, hl, e⟩)
  | some u =>
    obtain ⟨k, hk, ek⟩ := hs.indexed.mp (target?_eq_some h)
    show bucket (takeOut u id s.buckets) t = _
    rw [bucket_takeOut u id hs.targets t]
    split
    · rfl
    · rename_i hut
      refine (List.filter_eq_self.mpr fun l hl => ?_).symm
      simp only [bne_iff_ne, ne_eq]
      intro e
      exact hut (hs.distinct hk hl (ek.trans e.symm)).1

theorem stands_remove {s : Listeners κ} (hs : s.Sound) {id : Nat} {t : Target} {l : Listener κ} :
    (s.remove id).2.Stands t l ↔ s.Stands t l ∧ l.id ≠ id := by
  unfold Stands
  rw [of_remove hs]
  simp

theorem index_remove (s : Listeners κ) (id : Nat) : (s.remove id).2.index = s.index.filter (·.1 != id) := by
  unfold remove
  cases h : s.target? id with
  | none =>
    refine (List.filter_eq_self.mpr fun e he => ?_).symm
    simp only [bne_iff_ne, ne_eq]
    intro h'
    exact target?_eq_none h e.2 (h' ▸ he)
  | some u => rfl

/-! ## The invariant -/

theorem sound_empty : (empty : Listeners κ).Sound where
  targets := List.nodup_nil
  distinct h := by cases h
  issued h := by cases h
  ordered _ := List.Pairwise.nil
  indexed {id t} := by simp [empty, Stands, of]

theorem sound_add {s : Listeners κ} (hs : s.Sound) (t : Target) (event : String) (o : Options) (a : κ) :
    (s.add t event o a).2.Sound := by
  refine ⟨?_, ?_, ?_, ?_, ?_⟩
  · show ((putLast t _ s.buckets).map (·.1)).Nodup
    rw [targets_putLast]
    split
    · exact hs.targets
    · rename_i ht
      exact List.nodup_append.mpr ⟨hs.targets, by simp, by
        intro u hu v hv e
        rw [List.mem_singleton.mp hv] at e
        exact ht (e ▸ hu)⟩
  · intro u l u' l' hl hl' e
    rcases stands_add.mp hl with h₁ | ⟨rfl, rfl⟩ <;> rcases stands_add.mp hl' with h₂ | ⟨rfl, rfl⟩
    · exact hs.distinct h₁ h₂ e
    · have := hs.issued h₁; simp only at e; omega
    · have := hs.issued h₂; simp only at e; omega
    · exact ⟨rfl, rfl⟩
  · intro u l hl
    rcases stands_add.mp hl with h₁ | ⟨rfl, rfl⟩
    · have := hs.issued h₁; simp only [add_lastId]; omega
    · exact Nat.le_refl _
  · intro u
    rw [of_add]
    split
    · refine List.pairwise_append.mpr ⟨hs.ordered u, List.pairwise_singleton _ _, fun l hl l' hl' => ?_⟩
      have := hs.issued hl
      rw [List.mem_singleton.mp hl']
      simp only
      omega
    · exact hs.ordered u
  · intro id u
    show (id, u) ∈ s.index ++ [(s.lastId + 1, t)] ↔ _
    simp only [List.mem_append, hs.indexed, List.mem_singleton, Prod.mk.injEq, stands_add]
    constructor
    · rintro (⟨l, hl, e⟩ | ⟨rfl, rfl⟩)
      · exact ⟨l, .inl hl, e⟩
      · exact ⟨_, .inr ⟨rfl, rfl⟩, rfl⟩
    · rintro ⟨l, hl | ⟨rfl, rfl⟩, e⟩
      · exact .inl ⟨l, hl, e⟩
      · exact .inr ⟨e.symm, rfl⟩

theorem sound_remove {s : Listeners κ} (hs : s.Sound) (id : Nat) : (s.remove id).2.Sound := by
  refine ⟨?_, ?_, ?_, ?_, ?_⟩
  · unfold remove
    split
    · exact hs.targets
    · exact (targets_takeOut _ _ _).nodup hs.targets
  · intro t l t' l' hl hl' e
    exact hs.distinct ((stands_remove hs).mp hl).1 ((stands_remove hs).mp hl').1 e
  · intro t l hl
    rw [remove_lastId]
    exact hs.issued ((stands_remove hs).mp hl).1
  · intro t
    rw [of_remove hs]
    exact (hs.ordered t).filter _
  · intro id' t
    rw [index_remove]
    simp only [List.mem_filter, hs.indexed, stands_remove hs, bne_iff_ne, ne_eq]
    constructor
    · rintro ⟨⟨l, hl, e⟩, hne⟩
      exact ⟨l, ⟨hl, by rw [e]; exact hne⟩, e⟩
    · rintro ⟨l, ⟨hl, hne⟩, e⟩
      exact ⟨⟨l, hl, e⟩, by rw [← e]; exact hne⟩

/-! ## Removing several -/

/-- The second store has what is left of the first. -/
structure Filtered (p : Listener κ → Bool) (s s' : Listeners κ) : Prop where
  sound : s'.Sound
  of : ∀ t, s'.of t = (s.of t).filter p
  lastId : s'.lastId = s.lastId

theorem Filtered.stands {p : Listener κ → Bool} {s s' : Listeners κ} (h : Filtered p s s') {t : Target}
    {l : Listener κ} : s'.Stands t l ↔ s.Stands t l ∧ p l = true := by
  unfold Stands
  rw [h.of, List.mem_filter]

theorem filtered_all {s : Listeners κ} (hs : s.Sound) : Filtered (fun _ => true) s s :=
  ⟨hs, fun _ => (List.filter_eq_self.mpr fun _ _ => rfl).symm, rfl⟩

theorem filtered_remove {s : Listeners κ} (hs : s.Sound) (id : Nat) : Filtered (·.id != id) s (s.remove id).2 :=
  ⟨sound_remove hs id, of_remove hs id, remove_lastId s id⟩

theorem Filtered.trans {p q : Listener κ → Bool} {s s' s'' : Listeners κ} (h : Filtered p s s')
    (h' : Filtered q s' s'') : Filtered (fun l => p l && q l) s s'' where
  sound := h'.sound
  of t := by
    rw [h'.of, h.of, List.filter_filter]
    exact List.filter_congr fun l _ => Bool.and_comm _ _
  lastId := h'.lastId.trans h.lastId

theorem Filtered.congr {p q : Listener κ → Bool} {s s' : Listeners κ} (h : Filtered p s s') (e : ∀ l, p l = q l) :
    Filtered q s s' where
  sound := h.sound
  of t := by rw [h.of]; exact List.filter_congr fun l _ => e l
  lastId := h.lastId

end Eventful.Page.Listeners
