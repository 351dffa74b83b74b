import Eventful.Proofs.Scope.Properties

/-
  Eventful.Proofs.Scope.Access — where a path can be read and not be written.

  An expression reads a path by taking one property after the other, of whatever value it
  has come to (`Value.along`): a text has a length, and everything else that is missing is
  undefined. A write goes through objects alone. As long as it does, both come to the same
  value (`along_beside`); past undefined or null there is nothing to read, and a write is
  refused. They part at a boolean, a number or a text on the way, which is read as if it
  had undefined properties, and where a write is dropped.

  - `refused_iff`: a write is refused exactly if the path before its last key reads as
    undefined or null, and no such value stands on the way.
-/

namespace Eventful

variable {σ : Type} {key : String} {path p q : List String} {u v : Value} {fs : Fields} {holder : Option Value}

namespace Value

/-! ## Reading -/

/-- The property of the property .. of the value, along the keys. -/
def along (keys : List String) (v : Value) : Value := keys.foldl (fun v key => v.get key) v

@[simp] theorem along_nil (v : Value) : v.along [] = v := rfl

theorem along_cons (key : String) (keys : List String) (v : Value) : v.along (key :: keys) = (v.get key).along keys := rfl

theorem along_append (p q : List String) (v : Value) : v.along (p ++ q) = (v.along p).along q := List.foldl_append

theorem along_concat (p : List String) (key : String) (v : Value) : v.along (p ++ [key]) = (v.along p).get key :=
  along_append p [key] v

theorem get_nullish (h : v.isNullish = true) (key : String) : v.get key = .undefined := by
  cases v with
  | undefined | null => rfl
  | _ => cases h

/-- There is nothing to read past undefined or null. -/
theorem along_nullish (h : v.isNullish = true) (keys : List String) : (v.along keys).isNullish = true := by
  induction keys generalizing v with
  | nil => exact h
  | cons key keys ih =>
    rw [along_cons, get_nullish h]
    exact ih rfl

/-! ## Reading and own properties -/

/-- What stands behind the keys is read along them. -/
theorem along_of_at? (h : v.at? p = some u) : v.along p = u := by
  induction p generalizing v with
  | nil => exact Option.some.inj h
  | cons key p ih =>
    cases v with
    | object fs =>
      obtain ⟨w, hget, hw⟩ := at?_eq_some_iff.mp h
      rw [along_cons, get, hget]
      exact ih hw
    | _ => cases h

/-- The property of an object, which may be missing, is read as what it is. -/
theorem along_beside (hne : p ≠ []) (h : ∃ fs, v.at? p.dropLast = some (.object fs)) :
    v.along p = (v.at? p).getD .undefined := by
  obtain ⟨fs, hfs⟩ := h
  rw [← List.dropLast_concat_getLast hne, along_concat, along_of_at? hfs, at?_append, hfs, Option.bind_some, at?_object,
    get]
  cases Fields.get? (p.getLast hne) fs <;> rfl

theorem Halts.along (h : Halts path (.object fs) p holder) : (object fs).along p = holder.getD .undefined := by
  rw [along_beside h.ne_nil h.reached, h.found]

/-- A boolean, a number or a text. -/
def Plain (v : Value) : Prop := v.isNullish = false ∧ v.fields? = none

theorem not_plain_object (fs : Fields) : ¬(object fs).Plain := fun h => Option.some_ne_none _ h.2

theorem Plain.of_noObject (hnot : u.isNullish = false) (ho : ∀ fs, some u ≠ some (.object fs)) : u.Plain := by
  refine ⟨hnot, ?_⟩
  cases u with
  | object fs => exact absurd rfl (ho fs)
  | _ => rfl

theorem not_plain_nullish (h : v.isNullish = true) : ¬v.Plain := by
  intro hp
  rw [hp.1] at h
  cases h

/-- Before the place where a way halts there are objects. -/
theorem Halts.before (h : Halts path v p holder) (hqp : q <+: p) (hne : q ≠ p) : ∃ fs, v.at? q = some (.object fs) := by
  obtain ⟨fs, hfs⟩ := h.reached
  obtain ⟨r, hr⟩ := prefix_dropLast hqp hne
  cases r with
  | nil =>
    rw [List.append_nil] at hr
    exact ⟨fs, hr ▸ hfs⟩
  | cons key r => exact object_of_at? (by rw [hr, hfs]; rfl)

/-! ## Refusals -/

/-- No boolean, number or text is read before the end of the keys. -/
def Clear (p : List String) (v : Value) : Prop := ∀ q, q <+: p → q ≠ p → ¬(v.along q).Plain

theorem Barred.clear (h : Barred (p ++ [key]) (.object fs)) :
    ((object fs).along p).isNullish = true ∧ Clear p (.object fs) := by
  obtain ⟨q, holder, hhalt, hnullish⟩ := h
  have hread := hhalt.along
  obtain ⟨r, hr⟩ : q <+: p := by simpa using hhalt.within
  have hpast : ∀ r', ((object fs).along (q ++ r')).isNullish = true := by
    intro r'
    rw [along_append, hread]
    exact along_nullish hnullish r'
  refine ⟨hr ▸ hpast r, fun q' hq' _ => ?_⟩
  rcases List.prefix_or_prefix_of_prefix ⟨r, hr⟩ hq' with ⟨r', hr'⟩ | hbefore
  · exact not_plain_nullish (hr' ▸ hpast r')
  · by_cases hsame : q' = q
    · rw [hsame, hread]
      exact not_plain_nullish hnullish
    · obtain ⟨fs', hfs'⟩ := hhalt.before hbefore hsame
      rw [along_of_at? hfs']
      exact not_plain_object fs'

theorem Lost.not_clear (h : Lost (p ++ [key]) (.object fs)) (hnullish : ((object fs).along p).isNullish = true) :
    ¬Clear p (.object fs) := by
  intro hclear
  obtain ⟨q, u, hhalt, hnot⟩ := h
  have hread : (object fs).along q = u := hhalt.along
  have hwithin : q <+: p := by simpa using hhalt.within
  have hne : q ≠ p := by
    rintro rfl
    rw [hread, hnot] at hnullish
    cases hnullish
  exact hclear q hwithin hne (hread ▸ .of_noObject hnot hhalt.noObject)

end Value

namespace Scope

open Value

/-- A write is refused where undefined or null, or nothing, stands before its last key. -/
theorem refused_iff (s : Scope σ) (p : List String) (key : String) (u : Value) :
    (∃ b, s.write (p ++ [key]) u = .error b) ↔ (s.snapshot.along p).isNullish = true ∧ Clear p s.snapshot := by
  have hend := write_end (List.concat_ne_nil key p) u s
  generalize s.write (p ++ [key]) u = w at hend
  cases hend with
  | barred hhalt hnullish _ =>
    have hbarred : Barred (p ++ [key]) s.snapshot := ⟨_, _, hhalt, hnullish⟩
    exact ⟨fun _ => hbarred.clear, fun _ => ⟨_, rfl⟩⟩
  | lost hlost =>
    constructor
    · rintro ⟨b, ⟨⟩⟩
    · rintro ⟨hnullish, hclear⟩
      exact absurd hclear (hlost.not_clear hnullish)
  | stored hopen _ =>
    obtain ⟨fs, hfs⟩ := hopen
    rw [List.dropLast_concat] at hfs
    constructor
    · rintro ⟨b, ⟨⟩⟩
    · rintro ⟨hnullish, -⟩
      rw [along_of_at? hfs] at hnullish
      cases hnullish

end Scope
end Eventful
