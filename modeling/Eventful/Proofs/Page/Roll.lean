import Mathlib.Algebra.BigOperators.Group.Finset.Basic
import Mathlib.Algebra.Order.BigOperators.Group.Finset
import Mathlib.Data.Finset.Dedup
import Eventful.Proofs.Page.Listeners

/-
  Eventful.Proofs.Page.Roll — the listener store against one list.

  A store has two views of its listeners, the buckets by target and the index by id, and
  each of its three edits goes at them by another way. Here it is compared with a `Roll`:
  the listeners added and not yet removed, in the order of their adding, on which an edit
  is an append or a filter. One edit answers the same on both and keeps them describing the
  same listeners (`keeps_edit`), so a whole run of edits does (`keeps_run`), and what the
  store's readers say is read off the roll (`Keeps.agrees`). Ids are given in the order of
  the natural numbers (`Roll.ids_given`), and one that has gone does not come back
  (`Roll.entries_run`). `store_is_roll` is all of it for every run from the empty store.
-/

namespace Eventful.Page.Listeners

/-- A change of a listener store. -/
inductive Edit (κ : Type) where
  | add (target : Target) (event : String) (options : Options) (action : κ)
  | remove (id : Nat)
  | clear (target : Target)

/-- What an edit answers. -/
inductive Answer where
  | given (id : Nat)
  | removed (was : Bool)
  | cleared (count : Nat)
  deriving DecidableEq

/-- The id an answer gives. -/
def Answer.id? : Answer → Option Nat
  | .given id => some id
  | _ => none

variable {κ : Type}

def edit (s : Listeners κ) : Edit κ → Answer × Listeners κ
  | .add t event options action => let r := s.add t event options action; (.given r.1, r.2)
  | .remove id => let r := s.remove id; (.removed r.1, r.2)
  | .clear t => let r := s.clear t; (.cleared r.1, r.2)

/-- The edits one after the other, with their answers. -/
def run (s : Listeners κ) : List (Edit κ) → List Answer × Listeners κ
  | [] => ([], s)
  | e :: es => let r := (s.edit e).2.run es; ((s.edit e).1 :: r.1, r.2)

/-- The listeners added and not yet removed, in the order of their adding, and how many
    ids were given. -/
structure Roll (κ : Type) where
  entries : List (Target × Listener κ)
  given : Nat

namespace Roll

def empty : Roll κ := ⟨[], 0⟩

/-- The listeners of a target. -/
def of (r : Roll κ) (target : Target) : List (Listener κ) := (r.entries.filter (·.1 = target)).map (·.2)

/-- An id of the roll. -/
def Live (r : Roll κ) (id : Nat) : Prop := ∃ e ∈ r.entries, e.2.id = id

instance (r : Roll κ) (id : Nat) : Decidable (r.Live id) := inferInstanceAs (Decidable (∃ e ∈ r.entries, _))

def edit (r : Roll κ) : Edit κ → Answer × Roll κ
  | .add t event options action =>
    (.given (r.given + 1), ⟨r.entries ++ [(t, ⟨r.given + 1, event, options, action⟩)], r.given + 1⟩)
  | .remove id => (.removed (decide (r.Live id)), { r with entries := r.entries.filter (·.2.id ≠ id) })
  | .clear t => (.cleared (r.of t).length, { r with entries := r.entries.filter (·.1 ≠ t) })

def run (r : Roll κ) : List (Edit κ) → List Answer × Roll κ
  | [] => ([], r)
  | e :: es => let q := (r.edit e).2.run es; ((r.edit e).1 :: q.1, q.2)

end Roll

/-! ## Clearing a target -/

theorem bucket_clear (t : Target) (bs : List (Target × List (Listener κ))) (t' : Target) :
    bucket (bs.filter (·.1 != t)) t' = if t = t' then [] else bucket bs t' := by
  induction bs with
  | nil => simp
  | cons b bs ih =>
    by_cases e : b.1 = t
    · rw [List.filter_cons_of_neg (by simp [e]), ih, bucket_cons]
      by_cases e' : t = t'
      · simp [e']
      · rw [if_neg e', if_neg e', if_neg (e ▸ e')]
    · rw [List.filter_cons_of_pos (by simp [e]), bucket_cons, bucket_cons, ih]
      by_cases e' : b.1 = t'
      · rw [if_pos e', if_pos e', if_neg (fun h => e (e'.trans h.symm))]
      · rw [if_neg e', if_neg e']

theorem of_clear (s : Listeners κ) (t t' : Target) :
    (s.clear t).2.of t' = if t = t' then [] else s.of t' := bucket_clear t s.buckets t'

theorem stands_clear {s : Listeners κ} {t t' : Target} {l : Listener κ} :
    (s.clear t).2.Stands t' l ↔ s.Stands t' l ∧ t' ≠ t := by
  unfold Stands
  rw [of_clear]
  by_cases e : t = t'
  · simp [e]
  · simp [e, Ne.symm e]

/-- The ids that leave the index with a target are those indexed to it. -/
theorem index_clear {s : Listeners κ} (hs : s.Sound) (t : Target) :
    (s.clear t).2.index = s.index.filter (·.2 ≠ t) := by
  apply List.filter_congr
  intro e he
  obtain ⟨l, hl, hid⟩ := hs.indexed.mp he
  have hmem : e.1 ∈ (s.of t).map (·.id) ↔ e.2 = t := by
    constructor
    · intro h
      obtain ⟨k, hk, ek⟩ := List.mem_map.mp h
      exact (hs.distinct hl hk (hid.trans ek.symm)).1
    · intro h
      exact List.mem_map.mpr ⟨l, h ▸ hl, hid⟩
  simp [hmem]

theorem sound_clear {s : Listeners κ} (hs : s.Sound) (t : Target) : (s.clear t).2.Sound where
  targets := (List.Sublist.map Prod.fst List.filter_sublist).nodup hs.targets
  distinct hl hl' := hs.distinct (stands_clear.mp hl).1 (stands_clear.mp hl').1
  issued hl := hs.issued (stands_clear.mp hl).1
  ordered u := by
    rw [of_clear]
    split
    · exact List.Pairwise.nil
    · exact hs.ordered u
  indexed {id u} := by
    rw [index_clear hs]
    simp only [List.mem_filter, hs.indexed, stands_clear, decide_eq_true_eq]
    constructor
    · intro ⟨⟨l, hl, e⟩, h⟩
      exact ⟨l, ⟨hl, h⟩, e⟩
    · intro ⟨l, ⟨hl, h⟩, e⟩
      exact ⟨⟨l, hl, e⟩, h⟩

/-! ## No list is empty -/

/-- No target keeps an empty list. -/
def Full (s : Listeners κ) : Prop := ∀ b ∈ s.buckets, b.2 ≠ []

theorem full_putLast (t : Target) (l : Listener κ) {bs : List (Target × List (Listener κ))}
    (h : ∀ b ∈ bs, b.2 ≠ []) : ∀ b ∈ putLast t l bs, b.2 ≠ [] := by
  induction bs with
  | nil => simp [putLast]
  | cons b bs ih =>
    have ih := ih fun b hb => h b (List.mem_cons_of_mem _ hb)
    unfold putLast
    split
    · intro c hc
      rcases List.mem_cons.mp hc with rfl | hc
      · simp
      · exact h c (List.mem_cons_of_mem _ hc)
    · intro c hc
      rcases List.mem_cons.mp hc with rfl | hc
      · exact h _ (List.mem_cons_self ..)
      · exact ih c hc

theorem full_takeOut (t : Target) (id : Nat) {bs : List (Target × List (Listener κ))}
    (h : ∀ b ∈ bs, b.2 ≠ []) : ∀ b ∈ takeOut t id bs, b.2 ≠ [] := by
  induction bs with
  | nil => simp [takeOut]
  | cons b bs ih =>
    have ih := ih fun b hb => h b (List.mem_cons_of_mem _ hb)
    have hb := h b (List.mem_cons_self ..)
    rw [takeOut_cons]
    split
    · split
      · exact ih
      · rename_i hne
        exact List.forall_mem_cons.mpr ⟨hne, ih⟩
    · exact List.forall_mem_cons.mpr ⟨hb, ih⟩

theorem full_edit {s : Listeners κ} (h : s.Full) (e : Edit κ) : (s.edit e).2.Full := by
  cases e with
  | add t event options action => exact full_putLast t _ h
  | remove id =>
    show (s.remove id).2.Full
    unfold remove
    split
    · exact h
    · exact full_takeOut _ id h
  | clear t => exact fun b hb => h b (List.mem_of_mem_filter hb)

/-- The targets with a list are those with a listener. -/
theorem mem_targets {bs : List (Target × List (Listener κ))} (h : ∀ b ∈ bs, b.2 ≠ []) {t : Target} :
    t ∈ bs.map (·.1) ↔ bucket bs t ≠ [] := by
  induction bs with
  | nil => simp
  | cons b bs ih =>
    obtain ⟨hb, h⟩ := List.forall_mem_cons.mp h
    rw [List.map_cons, List.mem_cons, bucket_cons, ih h]
    by_cases e : b.1 = t
    · simp [e, hb]
    · simp [e, Ne.symm e]

/-! ## The store and the roll -/

/-- The store describes the listeners of the roll. -/
structure Keeps (s : Listeners κ) (r : Roll κ) : Prop where
  sound : s.Sound
  full : s.Full
  of : ∀ t, s.of t = r.of t
  index : s.index = r.entries.map fun e => (e.2.id, e.1)
  lastId : s.lastId = r.given

namespace Keeps

variable {s : Listeners κ} {r : Roll κ}

theorem stands (h : Keeps s r) {t : Target} {l : Listener κ} : s.Stands t l ↔ (t, l) ∈ r.entries := by
  unfold Listeners.Stands
  rw [h.of, Roll.of, List.mem_map]
  constructor
  · rintro ⟨e, he, rfl⟩
    obtain ⟨he, ht⟩ := List.mem_filter.mp he
    rw [decide_eq_true_eq] at ht
    exact ht ▸ he
  · intro h
    exact ⟨(t, l), List.mem_filter.mpr ⟨h, decide_eq_true rfl⟩, rfl⟩

theorem live (h : Keeps s r) (id : Nat) : s.contains id = true ↔ r.Live id := by
  rw [Listeners.contains_iff h.sound]
  constructor
  · intro ⟨t, l, hl, e⟩
    exact ⟨(t, l), h.stands.mp hl, e⟩
  · intro ⟨e, he, hid⟩
    exact ⟨e.1, e.2, h.stands.mpr he, hid⟩

end Keeps

theorem keeps_empty : Keeps (Listeners.empty : Listeners κ) Roll.empty where
  sound := Listeners.sound_empty
  full _ hb := nomatch hb
  of _ := rfl
  index := rfl
  lastId := rfl

theorem Roll.of_filter (r : Roll κ) (p : Target × Listener κ → Bool) (q : Listener κ → Bool) (t : Target)
    (hpq : ∀ l, p (t, l) = q l) : Roll.of { r with entries := r.entries.filter p } t = (r.of t).filter q := by
  simp only [Roll.of, List.filter_filter, List.filter_map]
  congr 1
  apply List.filter_congr
  intro e _
  by_cases he : e.1 = t
  · subst he; simp [← hpq]
  · simp [he]

/-- One edit answers the same on both and keeps them the same. -/
theorem keeps_edit {s : Listeners κ} {r : Roll κ} (h : Keeps s r) (e : Edit κ) :
    (s.edit e).1 = (r.edit e).1 ∧ Keeps (s.edit e).2 (r.edit e).2 := by
  have hf := Listeners.full_edit h.full e
  cases e with
  | add t event options action =>
    refine ⟨by simp [Listeners.edit, Roll.edit, h.lastId], Listeners.sound_add h.sound .., hf, fun u => ?_, ?_, ?_⟩
    · show (s.add t event options action).2.of u = _
      rw [Listeners.of_add, h.of, h.lastId]
      by_cases e : t = u <;> simp [Roll.of, Roll.edit, e]
    · show s.index ++ [(s.lastId + 1, t)] = _
      simp [Roll.edit, h.index, h.lastId]
    · show s.lastId + 1 = r.given + 1
      rw [h.lastId]
  | remove id =>
    refine ⟨?_, Listeners.sound_remove h.sound id, hf, fun u => ?_, ?_, ?_⟩
    · show Answer.removed (s.remove id).1 = .removed (decide (r.Live id))
      rw [Listeners.remove_fst, Bool.eq_iff_iff.mpr ((h.live id).trans (decide_eq_true_iff).symm)]
    · show (s.remove id).2.of u = _
      rw [Listeners.of_remove h.sound, h.of]
      exact (Roll.of_filter r _ _ u fun l => by simp [bne, beq_eq_decide]).symm
    · show (s.remove id).2.index = _
      rw [Listeners.index_remove, h.index, List.filter_map]
      congr 1
      exact List.filter_congr fun e _ => by simp [bne, beq_eq_decide]
    · show (s.remove id).2.lastId = r.given
      rw [Listeners.remove_lastId, h.lastId]
  | clear t =>
    refine ⟨?_, Listeners.sound_clear h.sound t, hf, fun u => ?_, ?_, h.lastId⟩
    · show Answer.cleared ((s.of t).map (·.id)).length = .cleared (r.of t).length
      rw [List.length_map, h.of]
    · show (s.clear t).2.of u = _
      rw [Listeners.of_clear, h.of]
      refine Eq.trans ?_ (Roll.of_filter r _ (fun _ => decide (u ≠ t)) u fun _ => rfl).symm
      by_cases e : t = u
      · simp [e]
      · simp [e, Ne.symm e]
    · show (s.clear t).2.index = _
      rw [Listeners.index_clear h.sound, h.index, List.filter_map]
      rfl

theorem keeps_run {s : Listeners κ} {r : Roll κ} (h : Keeps s r) (es : List (Edit κ)) :
    (s.run es).1 = (r.run es).1 ∧ Keeps (s.run es).2 (r.run es).2 := by
  induction es generalizing s r with
  | nil => exact ⟨rfl, h⟩
  | cons e es ih =>
    obtain ⟨ha, hk⟩ := keeps_edit h e
    obtain ⟨has, hks⟩ := ih hk
    exact ⟨congrArg₂ List.cons ha has, hks⟩

/-! ## The order of the ids -/

namespace Roll

/-- The ids of a roll stand in order, and none is above those given. -/
structure Sorted (r : Roll κ) : Prop where
  ordered : r.entries.Pairwise (·.2.id < ·.2.id)
  issued : ∀ e ∈ r.entries, e.2.id ∈ List.range' 1 r.given

theorem sorted_edit {r : Roll κ} (h : r.Sorted) (e : Edit κ) : (r.edit e).2.Sorted := by
  cases e with
  | add t event options action =>
    constructor
    · refine List.pairwise_append.mpr ⟨h.ordered, List.pairwise_singleton .., fun a ha b hb => ?_⟩
      have := List.mem_range'_1.mp (h.issued a ha)
      rw [List.mem_singleton.mp hb]
      show a.2.id < r.given + 1
      omega
    · intro a ha
      rw [List.mem_range'_1]
      show 1 ≤ _ ∧ _ < 1 + (r.given + 1)
      rcases List.mem_append.mp ha with ha | ha
      · have := List.mem_range'_1.mp (h.issued a ha)
        omega
      · rw [List.mem_singleton.mp ha]
        show 1 ≤ r.given + 1 ∧ r.given + 1 < 1 + (r.given + 1)
        omega
  | remove id => exact ⟨h.ordered.filter _, fun a ha => h.issued a (List.mem_of_mem_filter ha)⟩
  | clear t => exact ⟨h.ordered.filter _, fun a ha => h.issued a (List.mem_of_mem_filter ha)⟩

theorem sorted_run {r : Roll κ} (h : r.Sorted) (es : List (Edit κ)) : (r.run es).2.Sorted := by
  induction es generalizing r with
  | nil => exact h
  | cons e es ih => exact ih (sorted_edit h e)

/-- A run gives the next ids in order. -/
theorem ids_given (r : Roll κ) (es : List (Edit κ)) :
    ∃ n, (r.run es).1.filterMap Answer.id? = List.range' (r.given + 1) n ∧ (r.run es).2.given = r.given + n := by
  induction es generalizing r with
  | nil => exact ⟨0, rfl, rfl⟩
  | cons e es ih =>
    obtain ⟨n, hn, hg⟩ := ih (r.edit e).2
    cases e with
    | add t event options action =>
      refine ⟨n + 1, ?_, ?_⟩
      · show (r.given + 1) :: _ = _
        rw [List.range'_succ]
        exact congrArg _ hn
      · show ((r.edit _).2.run es).2.given = _
        rw [hg]
        show r.given + 1 + n = r.given + (n + 1)
        omega
    | remove id => exact ⟨n, hn, hg⟩
    | clear t => exact ⟨n, hn, hg⟩

/-- What stands after a run stood before it or has an id that was given in it. -/
theorem entries_run (r : Roll κ) (es : List (Edit κ)) {e : Target × Listener κ} (h : e ∈ (r.run es).2.entries) :
    e ∈ r.entries ∨ r.given < e.2.id := by
  induction es generalizing r with
  | nil => exact .inl h
  | cons d es ih =>
    cases d with
    | add t event options action =>
      rcases ih _ h with hm | hlt
      · rcases List.mem_append.mp hm with hm | hm
        · exact .inl hm
        · rw [List.mem_singleton.mp hm]
          exact .inr (Nat.lt_succ_self _)
      · exact .inr (Nat.lt_of_succ_lt hlt)
    | remove id => exact (ih _ h).imp_left List.mem_of_mem_filter
    | clear t => exact (ih _ h).imp_left List.mem_of_mem_filter

theorem run_append (r : Roll κ) (es more : List (Edit κ)) :
    (r.run (es ++ more)).2 = ((r.run es).2.run more).2 := by
  induction es generalizing r with
  | nil => rfl
  | cons e es ih => exact ih _

end Roll

/-! ## What the readers say -/

/-- Index, lists and readers of a store all describe the listeners of the roll. -/
structure Agrees (s : Listeners κ) (r : Roll κ) : Prop where
  /-- An id is indexed to the target whose list holds it, and to no other. -/
  target : ∀ id t, s.target? id = some t ↔ ∃ l ∈ s.of t, l.id = id
  once : (s.index.map (·.1)).Nodup
  lists : (s.buckets.map (·.1)).Nodup
  full : s.Full
  increasing : ∀ t, (s.of t).Pairwise (·.id < ·.id)
  of : ∀ t, s.of t = r.of t
  contains : ∀ id, s.contains id = true ↔ r.Live id
  size : s.size = r.entries.length
  isEmpty : s.isEmpty = true ↔ r.entries = []
  /-- As many targets have a list as have a listener. -/
  targets : s.buckets.length = (r.entries.map (·.1)).toFinset.card
  debug : s.debug = "ListenerStore \x7b targets: " ++ toString (r.entries.map (·.1)).toFinset.card ++
    ", listeners: " ++ toString r.entries.length ++ " \x7d"
  count : ∀ t event, s.count t event = (r.entries.filter fun e => e.1 = t ∧ e.2.event = event).length
  /-- The counts add up, over any targets and events among which are those of all listeners. -/
  counts : ∀ pairs : Finset (Target × String), (∀ e ∈ r.entries, (e.1, e.2.event) ∈ pairs) →
    ∑ p ∈ pairs, s.count p.1 p.2 = r.entries.length
  select : ∀ t event capture, s.select t event capture =
    (r.entries.filter fun e => e.1 = t ∧ e.2.options.capture = capture ∧ e.2.event = event).map (·.2)

namespace Keeps

variable {s : Listeners κ} {r : Roll κ}

theorem target (h : Keeps s r) (id : Nat) (t : Target) :
    s.target? id = some t ↔ ∃ l ∈ s.of t, l.id = id := by
  constructor
  · intro ht
    exact h.sound.indexed.mp (Listeners.target?_eq_some ht)
  · intro ⟨l, hl, e⟩
    cases hu : s.target? id with
    | none => exact absurd (h.sound.indexed.mpr ⟨l, hl, e⟩) (Listeners.target?_eq_none hu t)
    | some u =>
      obtain ⟨k, hk, ek⟩ := h.sound.indexed.mp (Listeners.target?_eq_some hu)
      rw [(h.sound.distinct hk hl (ek.trans e.symm)).1]

theorem targets (h : Keeps s r) : s.buckets.length = (r.entries.map (·.1)).toFinset.card := by
  have hset : (r.entries.map (·.1)).toFinset = (s.buckets.map (·.1)).toFinset := by
    ext t
    rw [List.mem_toFinset, List.mem_toFinset, Listeners.mem_targets h.full]
    show _ ↔ s.of t ≠ []
    simp [h.of, Roll.of, List.filter_eq_nil_iff]
  rw [hset, List.toFinset_card_of_nodup h.sound.targets, List.length_map]

theorem size (h : Keeps s r) : s.size = r.entries.length := by
  rw [Listeners.size, h.index, List.length_map]

theorem count (h : Keeps s r) (t : Target) (event : String) :
    s.count t event = (r.entries.filter fun e => e.1 = t ∧ e.2.event = event).length := by
  rw [Listeners.count, h.of, Roll.of, List.filter_map, List.length_map, List.filter_filter]
  congr 1
  exact List.filter_congr fun e _ => by simp [beq_eq_decide, and_comm]

theorem counts (h : Keeps s r) {pairs : Finset (Target × String)}
    (hp : ∀ e ∈ r.entries, (e.1, e.2.event) ∈ pairs) : ∑ p ∈ pairs, s.count p.1 p.2 = r.entries.length := by
  have hcount : ∀ p : Target × String,
      s.count p.1 p.2 = Multiset.count p (r.entries.map fun e => (e.1, e.2.event) : Multiset _) := by
    intro p
    rw [h.count, Multiset.count_eq_card_filter_eq, Multiset.filter_coe, Multiset.coe_card, List.filter_map,
      List.length_map]
    congr 1
    exact List.filter_congr fun e _ => by simp [Prod.ext_iff, eq_comm]
  rw [Finset.sum_congr rfl fun p _ => hcount p, Multiset.sum_count_eq_card, Multiset.coe_card, List.length_map]
  intro p hm
  obtain ⟨e, he, rfl⟩ := List.mem_map.mp (Multiset.mem_coe.mp hm)
  exact hp e he

theorem select (h : Keeps s r) (t : Target) (event : String) (capture : Bool) :
    s.select t event capture =
      (r.entries.filter fun e => e.1 = t ∧ e.2.options.capture = capture ∧ e.2.event = event).map (·.2) := by
  rw [Listeners.select, h.of, Roll.of, List.filter_map, List.filter_filter]
  congr 1
  exact List.filter_congr fun e _ => by simp [beq_eq_decide, Bool.and_comm]

theorem agrees (h : Keeps s r) (hr : r.Sorted) : Agrees s r where
  target := h.target
  once := by
    -- The ids of the roll stand in strict order, so none is there twice.
    rw [h.index, List.map_map]
    exact (List.pairwise_map.mpr hr.ordered).imp Nat.ne_of_lt
  lists := h.sound.targets
  full := h.full
  increasing := h.sound.ordered
  of := h.of
  contains := h.live
  size := h.size
  isEmpty := by rw [Listeners.isEmpty, h.index, List.isEmpty_iff, List.map_eq_nil_iff]
  targets := h.targets
  debug := by
    unfold Listeners.debug
    rw [h.targets, h.size]
  count := h.count
  counts _ hp := h.counts hp
  select := h.select

end Keeps

/-! ## All runs -/

/-- After every run of edits from the empty store its index, its lists and its readers
    agree with the roll, and so did every answer; ids were given upwards and none that has
    gone comes back, whatever is done next. A further removal says whether the id is live,
    and a further clearing how many listeners its target had, leaving the other targets
    alone. -/
theorem store_is_roll (es : List (Edit κ)) :
    let s := (Listeners.empty.run es).2
    let r := (Roll.empty.run es).2
    (Listeners.empty.run es).1 = (Roll.empty.run es).1 ∧
    Agrees s r ∧
    (∃ n, (Listeners.empty.run es).1.filterMap Answer.id? = List.range' 1 n ∧
      (∀ id, s.contains id = true → id ∈ List.range' 1 n) ∧
      ∀ more id, id ∈ List.range' 1 n → s.contains id = false →
        (Listeners.empty.run (es ++ more)).2.contains id = false) ∧
    (∀ id, (s.remove id).1 = true ↔ r.Live id) ∧
    ∀ t, (s.clear t).1 = (r.of t).length ∧ (s.clear t).2.of t = [] ∧
      ∀ t', t' ≠ t → (s.clear t).2.of t' = s.of t' := by
  intro s r
  obtain ⟨ha, hk⟩ := keeps_run (keeps_empty (κ := κ)) es
  have hr : r.Sorted := Roll.sorted_run ⟨List.Pairwise.nil, fun _ h => absurd h List.not_mem_nil⟩ es
  obtain ⟨n, hn, hg⟩ := Roll.ids_given (Roll.empty (κ := κ)) es
  have hgiven : r.given = n := hg.trans (Nat.zero_add n)
  refine ⟨ha, hk.agrees hr, ⟨n, ?_, ?_, ?_⟩, ?_, ?_⟩
  · rw [ha, hn]
    rfl
  · intro id h
    obtain ⟨e, he, rfl⟩ := (hk.live id).mp h
    exact hgiven ▸ hr.issued e he
  · intro more id hid hgone
    rw [← Bool.not_eq_true, (keeps_run keeps_empty (es ++ more)).2.live, Roll.run_append]
    intro ⟨e, he, hide⟩
    rcases Roll.entries_run _ more he with hm | hlt
    · rw [← Bool.not_eq_true, hk.live] at hgone
      exact hgone ⟨e, hm, hide⟩
    · have := List.mem_range'_1.mp hid
      omega
  · intro id
    rw [Listeners.remove_fst, hk.live]
  · intro t
    refine ⟨?_, ?_, fun t' h => ?_⟩
    · show ((s.of t).map (·.id)).length = _
      rw [List.length_map, hk.of]
    · rw [Listeners.of_clear, if_pos rfl]
    · rw [Listeners.of_clear, if_neg (Ne.symm h)]

end Eventful.Page.Listeners
