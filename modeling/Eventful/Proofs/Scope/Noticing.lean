import Eventful.Proofs.Scope.Properties
import Eventful.Proofs.Value.Same

/-
  Eventful.Proofs.Scope.Noticing — which writes are noticed.

  A write is told if its value is not the same as the one before, where a missing property
  counts as undefined. So what is told and what has changed are not quite one: a property
  that is added undefined and a zero that turns its sign are changes that are not told, and
  a NaN is told each time that it is written over itself.

  - `ordered_of_write`: writes keep the objects in order;
  - `write_noticed`: there is no other write that is told without a change, or changes
    something and is not told.
-/

namespace Eventful

variable {σ : Type} {key : String} {path p rest : List String} {u v : Value} {fs : Fields}

namespace Value

/-! ## Objects in order -/

/-- The fields of every object in the value stand in the order of their keys. -/
def Ordered (v : Value) : Prop := ∀ (p : List String) (fs : Fields), v.at? p = some (.object fs) → fs.keys.Pairwise (· < ·)

theorem Ordered.within (h : (object fs).Ordered) (hget : fs.get? key = some v) : v.Ordered := by
  intro p fs' hp
  refine h (key :: p) fs' ?_
  rw [at?_object, hget]
  exact hp

/-- To set a field to what it is does nothing. -/
theorem put_of_get? (hord : fs.keys.Pairwise (· < ·)) (hget : fs.get? key = some v) : fs.put key v = fs := by
  induction fs with
  | nil => cases hget
  | cons f fs ih =>
    obtain ⟨k, u⟩ := f
    have hcons : (∀ k' ∈ Fields.keys fs, k < k') ∧ (Fields.keys fs).Pairwise (· < ·) := List.pairwise_cons.mp hord
    simp only [Fields.get?] at hget
    simp only [Fields.put]
    split
    · rename_i heq
      rw [if_pos heq] at hget
      cases hget
      rw [beq_iff_eq.mp heq]
    · rename_i hne
      rw [if_neg hne] at hget
      have hmem : key ∈ Fields.keys fs := Fields.mem_keys.mpr (by rw [hget]; rfl)
      have hnot : ¬key < k := String.lt_asymm (hcons.1 key hmem)
      rw [if_neg hnot, ih hcons.2 hget]

theorem pairwise_keys_put (hord : fs.keys.Pairwise (· < ·)) : (fs.put key v).keys.Pairwise (· < ·) := by
  induction fs with
  | nil => exact List.pairwise_singleton _ _
  | cons f fs ih =>
    obtain ⟨k, u⟩ := f
    have hcons : (∀ k' ∈ Fields.keys fs, k < k') ∧ (Fields.keys fs).Pairwise (· < ·) := List.pairwise_cons.mp hord
    simp only [Fields.put]
    split
    · rename_i heq
      exact beq_iff_eq.mp heq ▸ hord
    · rename_i hne
      split
      · rename_i hlt
        have hfirst : ∀ k' ∈ Fields.keys ((k, u) :: fs), key < k' :=
          List.forall_mem_cons.mpr ⟨hlt, fun k' hk' => String.lt_trans hlt (hcons.1 k' hk')⟩
        exact List.pairwise_cons.mpr ⟨hfirst, hord⟩
      · rename_i hnot
        have hafter : k < key := Decidable.byContradiction fun hle =>
          hne (beq_iff_eq.mpr (String.le_antisymm (String.not_lt.mp hnot) (String.not_lt.mp hle)))
        refine List.pairwise_cons.mpr ⟨fun k' hk' => ?_, ih hcons.2⟩
        rcases Fields.mem_keys_put.mp hk' with hk' | rfl
        · exact hcons.1 k' hk'
        · exact hafter

theorem Ordered.put (ho : (object fs).Ordered) (hv : v.Ordered) : (object (fs.put key v)).Ordered := by
  intro p fs' hp
  cases p with
  | nil =>
    cases hp
    exact pairwise_keys_put (ho [] fs rfl)
  | cons k p =>
    obtain ⟨u, hget, hu⟩ := at?_eq_some_iff.mp hp
    by_cases hk : k = key
    · subst hk
      rw [Fields.get?_put_self] at hget
      cases hget
      exact hv p fs' hu
    · rw [Fields.get?_put_of_ne hk] at hget
      exact ho.within hget p fs' hu

/-- A write keeps the objects in order. -/
theorem Ordered.write {fs' : Fields} (ho : (object fs).Ordered) (hu : u.Ordered)
    (hw : Fields.write u key rest fs = .ok (some (fs', v))) : (object fs').Ordered := by
  induction rest generalizing key fs fs' with
  | nil =>
    cases hw
    exact ho.put hu
  | cons next rest ih =>
    unfold Fields.write at hw
    split at hw
    · cases hw
    · rename_i inner hget
      cases hinner : Fields.write u next rest inner with
      | error b =>
        rw [hinner] at hw
        cases hw
      | ok w =>
        rw [hinner] at hw
        cases w with
        | none => cases hw
        | some w =>
          cases hw
          exact ho.put (ih (ho.within hget) hinner)
    · split at hw <;> cases hw

/-- To write what stands behind a path does nothing. -/
theorem write_of_at? (ho : (object fs).Ordered) (hat : (object fs).at? (key :: rest) = some u) :
    Fields.write u key rest fs = .ok (some (fs, u)) := by
  induction rest generalizing key fs with
  | nil =>
    obtain ⟨v, hget, hv⟩ := at?_eq_some_iff.mp hat
    cases hv
    unfold Fields.write
    rw [put_of_get? (ho [] fs rfl) hget, hget]
    rfl
  | cons next rest ih =>
    obtain ⟨v, hget, hv⟩ := at?_eq_some_iff.mp hat
    obtain ⟨inner, rfl⟩ : ∃ inner, v = .object inner := by
      have hsome : (v.at? ([] ++ next :: rest)).isSome = true := by rw [List.nil_append, hv]; rfl
      obtain ⟨inner, hinner⟩ := object_of_at? hsome
      exact ⟨inner, Option.some.inj hinner⟩
    unfold Fields.write
    simp only [hget, ih (ho.within hget) hv]
    show Except.ok (some (fs.put key (.object inner), u)) = _
    rw [put_of_get? (ho [] fs rfl) hget]

end Value

namespace Scope

open Value

variable {s s' : Scope σ} {change : Option Change}

/-- If the objects of a scope stand in order, they do after a write. -/
theorem ordered_of_write (ho : s.snapshot.Ordered) (hu : u.Ordered) (hw : s.write path u = .ok (s', change)) :
    s'.snapshot.Ordered := by
  cases path with
  | nil =>
    cases hw
    exact ho
  | cons key rest =>
    simp only [write] at hw
    split at hw
    · cases hw
    · cases hw
      exact ho
    · rename_i fs old hfields
      split at hw <;> cases hw <;> exact ho.write hu hfields

/-! ## Telling scopes apart -/

/-- The data of two scopes can be told apart: by whether a name is there, by the keys, or by
    what is read at a path. -/
def Distinct (s s' : Scope σ) : Prop :=
  (∃ name, s.has name ≠ s'.has name) ∨ s.data.keys ≠ s'.data.keys ∨ ∃ p, follow p s.snapshot ≠ follow p s'.snapshot

theorem distinct_iff : s.Distinct s' ↔ s.data ≠ s'.data := by
  constructor
  · intro hd heq
    rcases hd with ⟨name, hname⟩ | hkeys | ⟨p, hp⟩
    · exact hname (congrArg (fun fs => (Fields.get? name fs).isSome) heq)
    · exact hkeys (congrArg Fields.keys heq)
    · exact hp (congrArg (fun fs => follow p (.object fs)) heq)
  · intro hne
    exact .inr (.inr ⟨[], fun heq => hne (Value.object.inj heq)⟩)

/-- What is stored makes a difference unless it stands there already. -/
theorem distinct_of_write (ho : s.snapshot.Ordered) (hp : path ≠ []) (hw : s.write path u = .ok (s', change))
    (hs : Stores path u s s' change) : s.Distinct s' ↔ s.snapshot.at? path ≠ some u := by
  have hnow : s'.snapshot.at? path = some u := by
    have hbelow := hs.replaced.below []
    rwa [List.append_nil] at hbelow
  refine distinct_iff.trans (not_congr (Iff.trans eq_comm ?_))
  constructor
  · intro heq
    rw [← hnow, snapshot, snapshot, heq]
  · intro hat
    cases path with
    | nil => exact absurd rfl hp
    | cons key rest =>
      simp only [write, write_of_at? ho hat] at hw
      split at hw <;> cases hw <;> rfl

/-! ## Writes that are not noticed, and writes that only seem to be -/

/-- A write changes something without being told if it adds a property that is undefined, or
    only turns the sign of zeros; and it is told without a change if it writes a value with a
    NaN over itself. -/
theorem write_noticed (ho : s.snapshot.Ordered) (hw : s.write path u = .ok (s', change)) :
    (s.Distinct s' ∧ change = none ↔ path ≠ [] ∧ Open path s.snapshot ∧
      (s.snapshot.at? path = none ∧ u = .undefined ∨
        ∃ old, s.snapshot.at? path = some old ∧ old ≠ u ∧ old.hasNaN = false ∧ old.unsigned = u.unsigned)) ∧
    (¬s.Distinct s' ∧ change ≠ none ↔ path ≠ [] ∧ s.snapshot.at? path = some u ∧ u.hasNaN = true) := by
  by_cases hp : path = []
  · subst hp
    cases hw
    simp [distinct_iff]
  · have hend := write_end hp u s
    rw [hw] at hend
    cases hend with
    | lost hlost =>
      obtain ⟨p, v, hhalt, -⟩ := hlost
      have hat : s.snapshot.at? path ≠ some u := by
        intro hat
        have hlast := List.dropLast_concat_getLast hp
        rw [← hlast] at hat
        exact hhalt.not_open (object_of_at? (q := []) (by rw [hat]; rfl))
      simp [distinct_iff, hhalt.not_open, hat]
    | stored hopen hs =>
      have hsilent : change = none ↔ ((s.snapshot.at? path).getD .undefined).same u = true := by
        rw [hs.told]
        simp
      rw [distinct_of_write ho hp hw hs, ne_eq change none, hsilent]
      cases hat : s.snapshot.at? path with
      | none =>
        have hundefined : undefined.same u = true ↔ u = .undefined := by cases u <;> simp [same]
        simp [hp, hopen, hundefined]
      | some old =>
        refine ⟨by simp [hp, hopen, same_iff], ?_⟩
        by_cases heq : old = u
        · subst heq
          simp [hp, same_iff]
        · simp [heq]

end Scope
end Eventful
