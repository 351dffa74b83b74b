import Eventful.Scope.Basic

/-
  Eventful.Proofs.Scope.Storing — what a write leaves in a scope.

  A write that has an effect leaves its value behind its keys, and tells of the value that
  stood there unless the two are the same (`Scope.Stored`, `write_cases`). What lies behind
  other keys stays, unless the ones lead on from the others. Being the same is transitive
  (`same_trans`): writes that tell nothing do not add up to a change.
-/

namespace Eventful

open Float.Model

variable {σ : Type}

/-! ## Being the same -/

/-- Equal finite doubles have one sign; both are then compared by exponent and mantissa. -/
theorem compare_finite {s s' : UnpackedFloat.Sign} {m m' : Nat} {e e' : Int} {hm : 0 < m} {hm' : 0 < m'}
    (h : (UnpackedFloat.finite s m e hm).compare (.finite s' m' e' hm') = some .eq) : s = s' ∧ m = m' ∧ e = e' := by
  have hboth : s = s' ∧ (compare e e').then (compare m m') = .eq := by
    cases s with
    | positive =>
      cases s' with
      | positive => exact ⟨rfl, Option.some.inj h⟩
      | negative => cases h
    | negative =>
      cases s' with
      | positive => cases h
      | negative => exact ⟨rfl, Ordering.swap_eq_eq.mp (Option.some.inj h)⟩
  obtain ⟨he, hm⟩ := Ordering.then_eq_eq.mp hboth.2
  exact ⟨hboth.1, Nat.compare_eq_eq.mp hm, Int.compare_eq_eq.mp he⟩

/-- Equal doubles are one double, not NaN, or both zero. -/
theorem beq_cases {a b : UnpackedFloat} (h : a.beq b = true) :
    (a = b ∧ a ≠ .notANumber) ∨ ∃ s s', a = .zero s ∧ b = .zero s' := by
  replace h : a.compare b = some .eq := beq_iff_eq.mp h
  cases a with
  | notANumber => cases h
  | infinity s =>
    refine .inl ⟨?_, nofun⟩
    cases b with
    | infinity s' => cases s <;> cases s' <;> first | rfl | cases h
    | notANumber => cases h
    | _ => cases s <;> cases h
  | zero s =>
    cases b with
    | zero s' => exact .inr ⟨s, s', rfl, rfl⟩
    | notANumber => cases h
    | _ s' => cases s' <;> cases h
  | finite s m e hm =>
    refine .inl ⟨?_, nofun⟩
    cases b with
    | finite s' m' e' hm' =>
      obtain ⟨rfl, rfl, rfl⟩ := compare_finite h
      rfl
    | notANumber => cases h
    | infinity s' => cases s' <;> cases h
    | zero s' => cases s <;> cases h

theorem beq_trans {a b c : Float} (h : (a == b) = true) (h' : (b == c) = true) : (a == c) = true := by
  show a.toModel.unpack.beq c.toModel.unpack = true
  rcases beq_cases h with ⟨e, -⟩ | ⟨s, s', ha, hb⟩
  · rw [e]
    exact h'
  · rcases beq_cases h' with ⟨e, -⟩ | ⟨_, s'', -, hc⟩
    · rw [← e]
      exact h
    · rw [ha, hc]
      rfl

namespace Value

mutual

theorem same_trans : ∀ {a b c : Value}, a.same b = true → b.same c = true → a.same c = true
  | .undefined, .undefined, _, _, h' => h'
  | .null, .null, _, _, h' => h'
  | .boolean _, .boolean _, .boolean _, h, h' => by
    simp only [same, beq_iff_eq] at *
    rw [h, h']
  | .number _, .number _, .number _, h, h' => by
    simp only [same] at *
    exact beq_trans h h'
  | .text _, .text _, .text _, h, h' => by
    simp only [same, beq_iff_eq] at *
    rw [h, h']
  | .object _, .object _, .object _, h, h' => by
    simp only [same] at *
    exact sameFields_trans h h'

theorem sameFields_trans : ∀ {as bs cs : List (String × Value)}, sameFields as bs = true → sameFields bs cs = true →
    sameFields as cs = true
  | [], [], _, _, h' => h'
  | (_, _) :: _, (_, _) :: _, (_, _) :: _, h, h' => by
    simp only [sameFields, Bool.and_eq_true, beq_iff_eq] at *
    exact ⟨⟨h.1.1.trans h'.1.1, same_trans h.1.2 h'.1.2⟩, sameFields_trans h.2 h'.2⟩

end

/-- The same value, or one that is equal to it field by field. -/
def Agrees (a b : Value) : Prop := a = b ∨ a.same b = true

theorem Agrees.trans {a b c : Value} (h : a.Agrees b) (h' : b.Agrees c) : a.Agrees c := by
  rcases h with rfl | h
  · exact h'
  · rcases h' with rfl | h'
    · exact .inr h
    · exact .inr (same_trans h h')

end Value

/-! ## Fields -/

namespace Fields

@[simp] theorem get?_put_self (key : String) (v : Value) (fs : Fields) : (fs.put key v).get? key = some v := by
  induction fs with
  | nil => simp [put, get?]
  | cons f rest ih =>
    simp only [put]
    split
    · simp [get?]
    · split
      · simp [get?]
      · rename_i hne _
        simpa [get?, hne] using ih

theorem get?_put_of_ne {key k : String} (hne : k ≠ key) (v : Value) (fs : Fields) : (fs.put key v).get? k = fs.get? k := by
  have hkey : key ≠ k := Ne.symm hne
  induction fs with
  | nil => simp [put, get?, hkey]
  | cons f rest ih =>
    simp only [put]
    split
    · rename_i heq
      have hf : f.1 ≠ k := by rwa [beq_iff_eq.mp heq]
      simp [get?, hkey, hf]
    · split
      · simp [get?, hkey]
      · simp only [get?, ih]

/-- Setting a field leaves all others, where they stand. -/
theorem filter_put (key : String) (v : Value) (fs : Fields) :
    (fs.put key v).filter (·.1 != key) = fs.filter (·.1 != key) := by
  induction fs with
  | nil => simp [put]
  | cons f rest ih =>
    simp only [put]
    split
    · rename_i heq
      simp [beq_iff_eq.mp heq]
    · split
      · simp
      · simp only [List.filter_cons, ih]

end Fields

namespace Scope

/-! ## Behind keys -/

theorem follow_object (key : String) (keys : List String) (fs : Fields) :
    follow (key :: keys) (.object fs) = ((fs.get? key).map (follow keys)).getD .undefined := by
  simp only [follow, Value.fields?, Option.bind_some]
  cases fs.get? key <;> rfl

/-- Neither keys lead on from the others. -/
def Apart (p q : List String) : Prop := ¬p <+: q ∧ ¬q <+: p

theorem Apart.tail {key : String} {p q : List String} (h : Apart (key :: p) (key :: q)) : Apart p q :=
  ⟨fun hp => h.1 (List.cons_prefix_cons.mpr ⟨rfl, hp⟩), fun hq => h.2 (List.cons_prefix_cons.mpr ⟨rfl, hq⟩)⟩

theorem follow_put_apart {key : String} {keys p : List String} {fs : Fields} {v : Value} (ha : Apart p (key :: keys))
    (hin : ∀ q, p = key :: q → Apart q keys → follow q v = ((fs.get? key).map (follow q)).getD .undefined) :
    follow p (.object (fs.put key v)) = follow p (.object fs) := by
  cases p with
  | nil => exact absurd List.nil_prefix ha.1
  | cons k q =>
    rw [follow_object, follow_object]
    by_cases hk : k = key
    · subst hk
      rw [Fields.get?_put_self, ← hin q rfl ha.tail]
      rfl
    · rw [Fields.get?_put_of_ne hk]

/-- A write that has an effect on the way has one on the object there. -/
theorem write_within {value old : Value} {key next : String} {rest : List String} {fs fs' : Fields}
    (hw : Fields.write value key (next :: rest) fs = .ok (some (fs', old))) :
    ∃ inner inner', fs.get? key = some (.object inner) ∧ Fields.write value next rest inner = .ok (some (inner', old)) ∧
      fs' = fs.put key (.object inner') := by
  simp only [Fields.write] at hw
  split at hw
  · cases hw
  · rename_i inner hget
    cases hin : Fields.write value next rest inner with
    | error b =>
      rw [hin] at hw
      cases hw
    | ok w =>
      rw [hin] at hw
      cases w with
      | none => cases hw
      | some w =>
        cases hw
        exact ⟨inner, w.1, hget, hin, rfl⟩
  · split at hw <;> cases hw

/-- A write that has an effect: what stood behind its keys, what stands there now, and
    what stays. -/
theorem follow_write {value old : Value} {key : String} {rest : List String} {fs fs' : Fields}
    (hw : Fields.write value key rest fs = .ok (some (fs', old))) :
    follow (key :: rest) (.object fs) = old ∧ follow (key :: rest) (.object fs') = value ∧
      ∀ p, Apart p (key :: rest) → follow p (.object fs') = follow p (.object fs) := by
  induction rest generalizing key fs fs' with
  | nil =>
    cases hw
    refine ⟨?_, ?_, fun p ha => follow_put_apart ha fun q _ hq => absurd List.nil_prefix hq.2⟩
    · rw [follow_object]
      cases fs.get? key <;> rfl
    · rw [follow_object, Fields.get?_put_self]
      rfl
  | cons next rest ih =>
    obtain ⟨inner, inner', hget, hin, rfl⟩ := write_within hw
    obtain ⟨hold, hnew, hapart⟩ := ih hin
    refine ⟨?_, ?_, fun p ha => follow_put_apart ha fun q _ hq => ?_⟩
    · rw [follow_object, hget]
      exact hold
    · rw [follow_object, Fields.get?_put_self]
      exact hnew
    · rw [hget]
      exact hapart q hq

/-- Objects that differ behind the keys at most: all other fields are the same, on every
    level of the way. -/
inductive AgreeBut : List String → Value → Value → Prop
  | same (keys : List String) (v : Value) : AgreeBut keys v v
  | here {key : String} {fs fs' : Fields} : fs'.filter (·.1 != key) = fs.filter (·.1 != key) →
    AgreeBut [key] (.object fs) (.object fs')
  | within {key : String} {keys : List String} {fs fs' : Fields} {v v' : Value} :
    fs'.filter (·.1 != key) = fs.filter (·.1 != key) → fs.get? key = some v → fs'.get? key = some v' → AgreeBut keys v v' →
    AgreeBut (key :: keys) (.object fs) (.object fs')

theorem agreeBut_fields {value old : Value} {key : String} {rest : List String} {fs fs' : Fields}
    (hw : Fields.write value key rest fs = .ok (some (fs', old))) : AgreeBut (key :: rest) (.object fs) (.object fs') := by
  induction rest generalizing key fs fs' with
  | nil =>
    cases hw
    exact .here (Fields.filter_put key value fs)
  | cons next rest ih =>
    obtain ⟨inner, inner', hget, hin, rfl⟩ := write_within hw
    exact .within (Fields.filter_put key _ fs) hget (Fields.get?_put_self _ _ _) (ih hin)

/-! ## Writes -/

/-- A write leaves everything as it was but what lies behind its keys. -/
theorem agreeBut_of_write {path : List String} {value : Value} {s s' : Scope σ} {change : Option Change}
    (hw : s.write path value = .ok (s', change)) : AgreeBut path s.snapshot s'.snapshot := by
  cases path with
  | nil =>
    cases hw
    exact .same _ _
  | cons key rest =>
    simp only [write] at hw
    split at hw
    · cases hw
    · cases hw
      exact .same _ _
    · rename_i data old hdata
      split at hw <;> cases hw <;> exact agreeBut_fields hdata

/-- The write had an effect. -/
structure Stored (path : List String) (value : Value) (s s' : Scope σ) (change : Option Change) : Prop where
  now : follow path s'.snapshot = value
  apart : ∀ p, Apart p path → follow p s'.snapshot = follow p s.snapshot
  told : change = if (follow path s.snapshot).same value then none
    else some ⟨".".intercalate path, follow path s.snapshot, value⟩

/-- What a write makes of a scope: nothing, or it stores its value. The version counts the
    writes that are told, and nobody subscribes. -/
theorem write_cases {path : List String} {value : Value} {s s' : Scope σ} {change : Option Change}
    (hw : s.write path value = .ok (s', change)) :
    (s' = s ∧ change = none ∨ Stored path value s s' change) ∧ s'.version = s.version + change.toList.length ∧
      s'.subscribers = s.subscribers ∧ s'.nextId = s.nextId := by
  cases path with
  | nil =>
    cases hw
    exact ⟨.inl ⟨rfl, rfl⟩, rfl, rfl, rfl⟩
  | cons key rest =>
    simp only [write] at hw
    split at hw
    · cases hw
    · cases hw
      exact ⟨.inl ⟨rfl, rfl⟩, rfl, rfl, rfl⟩
    · rename_i data old hdata
      obtain ⟨hold, hnew, hapart⟩ := follow_write hdata
      split at hw
      · rename_i hsame
        cases hw
        refine ⟨.inr ⟨hnew, hapart, ?_⟩, rfl, rfl, rfl⟩
        rw [snapshot, hold, if_pos hsame]
      · rename_i hsame
        cases hw
        refine ⟨.inr ⟨hnew, hapart, ?_⟩, rfl, rfl, rfl⟩
        rw [snapshot, hold, if_neg hsame]

/-- What is told is the path that was written and its new value. -/
theorem change_of_write {path : List String} {value : Value} {s s' : Scope σ} {ch : Change}
    (hw : s.write path value = .ok (s', some ch)) :
    ch.path = ".".intercalate path ∧ ch.new = value ∧ follow path s'.snapshot = value := by
  rcases (write_cases hw).1 with ⟨-, hnone⟩ | hs
  · cases hnone
  · have htold := hs.told
    split at htold
    · cases htold
    · cases htold
      exact ⟨rfl, rfl, hs.now⟩

/-- What lies behind keys is kept, up to equal values, by writes to keys apart from them
    and by writes that tell nothing. -/
theorem agrees_of_write {path p : List String} {value : Value} {s s' : Scope σ} {change : Option Change}
    (hw : s.write path value = .ok (s', change)) (hp : path = p ∧ change = none ∨ Apart p path) :
    (follow p s.snapshot).Agrees (follow p s'.snapshot) := by
  rcases (write_cases hw).1 with ⟨rfl, -⟩ | hs
  · exact .inl rfl
  · rcases hp with ⟨rfl, hnone⟩ | ha
    · have htold := hs.told
      rw [hnone] at htold
      split at htold
      · rename_i hsame
        rw [hs.now]
        exact .inr hsame
      · cases htold
    · exact .inl (hs.apart p ha).symm

/-! ## Subscriptions -/

/-- Somebody subscribes or unsubscribes, or nobody does. -/
inductive Amends : Scope σ → Scope σ → Prop
  | same (s : Scope σ) : Amends s s
  | subscribe (s : Scope σ) (what : σ) : Amends s (s.subscribe what).2
  | unsubscribe (s : Scope σ) (id : Nat) : Amends s (s.unsubscribe id).2

def ids (s : Scope σ) : List Nat := s.subscribers.map (·.1)

/-- The subscribers stand in the order of their ids, and the next id is a new one. -/
structure Numbered (s : Scope σ) : Prop where
  ordered : s.ids.Pairwise (· < ·)
  issued : ∀ id ∈ s.ids, id < s.nextId

/-- Some time later: an id is given once, so whoever stands there and is not new stood there before. -/
structure Later (s s' : Scope σ) : Prop where
  numbered : Numbered s'
  issued : s.nextId ≤ s'.nextId
  stood : ∀ id ∈ s'.ids, id < s.nextId → id ∈ s.ids

variable {s s' s'' : Scope σ}

theorem numbered_ofValue (v : Value) : Numbered (.ofValue v : Scope σ) := by
  constructor
  · exact List.Pairwise.nil
  · intro id hid
    cases hid

theorem Later.rfl (h : Numbered s) : Later s s := ⟨h, Nat.le_refl _, fun _ hid _ => hid⟩

theorem Later.trans (h : Later s s') (h' : Later s' s'') : Later s s'' where
  numbered := h'.numbered
  issued := Nat.le_trans h.issued h'.issued
  stood id hid hlt := h.stood id (h'.stood id hid (Nat.lt_of_lt_of_le hlt h.issued)) hlt

theorem Numbered.later_same (h : Numbered s) (subscribers : s'.subscribers = s.subscribers) (nextId : s'.nextId = s.nextId) :
    Later s s' := by
  have hids : s'.ids = s.ids := by rw [ids, ids, subscribers]
  refine ⟨⟨?_, ?_⟩, ?_, ?_⟩
  · rw [hids]
    exact h.ordered
  · rw [hids, nextId]
    exact h.issued
  · exact Nat.le_of_eq nextId.symm
  · intro id hid _
    rwa [← hids]

theorem Amends.later (ha : Amends s s') (h : Numbered s) : Later s s' := by
  cases ha with
  | same => exact .rfl h
  | subscribe what =>
    have hids : (s.subscribe what).2.ids = s.ids ++ [s.nextId] := by simp [ids, Scope.subscribe]
    refine ⟨⟨?_, ?_⟩, Nat.le_succ _, ?_⟩
    · rw [hids, List.pairwise_append]
      refine ⟨h.ordered, List.pairwise_singleton _ _, fun id hid id' hid' => ?_⟩
      rw [List.mem_singleton.mp hid']
      exact h.issued id hid
    · intro id hid
      rw [hids, List.mem_append] at hid
      show id < s.nextId + 1
      rcases hid with hid | hid
      · exact Nat.lt_succ_of_lt (h.issued id hid)
      · rw [List.mem_singleton.mp hid]
        exact Nat.lt_succ_self _
    · intro id hid hlt
      rw [hids, List.mem_append] at hid
      rcases hid with hid | hid
      · exact hid
      · rw [List.mem_singleton.mp hid] at hlt
        exact absurd hlt (Nat.lt_irrefl _)
  | unsubscribe id =>
    have hsub : (s.unsubscribe id).2.ids.Sublist s.ids := List.filter_sublist.map _
    exact ⟨⟨h.ordered.sublist hsub, fun i hi => h.issued i (hsub.subset hi)⟩, Nat.le_refl _, fun i hi _ => hsub.subset hi⟩

theorem Amends.data (ha : Amends s s') : s'.data = s.data ∧ s'.version = s.version := by
  cases ha <;> exact ⟨rfl, rfl⟩

end Scope
end Eventful
