import Eventful.Value.Basic
import Mathlib

/-
  Eventful.Proofs.Value.Same — which values are the same.

  Being the same is less than being equal in one way and more in another: no value with a NaN
  in it is the same as any, itself included, and the zeros are the same.

  - `same_iff`: two values are the same if there is no NaN in them, and they are equal but for
    the signs of zeros.
-/

namespace Eventful.Value

/-- The number is zero, of either sign. -/
def IsZero (x : Float) : Prop := x = 0.0 ∨ x = -0.0

def unsign (x : Float) : Float := if x == 0.0 then 0.0 else x

mutual

/-- There is a NaN somewhere in the value. -/
def hasNaN : Value → Bool
  | .number x => x.isNaN
  | .object fs => fieldsHaveNaN fs
  | _ => false

def fieldsHaveNaN : List (String × Value) → Bool
  | [] => false
  | (_, v) :: rest => hasNaN v || fieldsHaveNaN rest

end

mutual

/-- The value with all its zeros positive. -/
def unsigned : Value → Value
  | .number x => .number (unsign x)
  | .object fs => .object (unsignedFields fs)
  | v => v

def unsignedFields : List (String × Value) → List (String × Value)
  | [] => []
  | (k, v) :: rest => (k, unsigned v) :: unsignedFields rest

end

theorem beq_zero_iff {x : Float} : (x == 0.0) = true ↔ IsZero x := by
  rw [Float.beq_iff_ne_nan_and_eq]
  constructor
  · rintro ⟨-, -, rfl | ⟨-, h⟩ | ⟨rfl, -⟩⟩
    · exact .inl rfl
    · exact absurd h (by decide)
    · exact .inr rfl
  · rintro (rfl | rfl)
    · exact ⟨by decide, by decide, .inl rfl⟩
    · exact ⟨by decide, by decide, .inr (.inr ⟨rfl, rfl⟩)⟩

theorem isZero_unsign {x : Float} : IsZero (unsign x) ↔ IsZero x := by
  unfold unsign
  split
  · rename_i h
    exact iff_of_true (.inl rfl) (beq_zero_iff.mp h)
  · rfl

theorem unsign_of_isZero {x : Float} (h : IsZero x) : unsign x = 0.0 := if_pos (beq_zero_iff.mpr h)

theorem unsign_of_not_isZero {x : Float} (h : ¬IsZero x) : unsign x = x := if_neg (mt beq_zero_iff.mp h)

theorem beq_iff_unsign {x y : Float} : (x == y) = true ↔ x.isNaN = false ∧ unsign x = unsign y := by
  have hnan : x.isNaN = false ↔ x ≠ .nan := by rw [Float.isNaN_eq_decide_eq_nan, decide_eq_false_iff_not]
  rw [hnan, Float.beq_iff_ne_nan_and_eq]
  constructor
  · rintro ⟨hx, -, rfl | ⟨rfl, rfl⟩ | ⟨rfl, rfl⟩⟩
    · exact ⟨hx, rfl⟩
    · exact ⟨hx, (unsign_of_isZero (.inl rfl)).trans (unsign_of_isZero (.inr rfl)).symm⟩
    · exact ⟨hx, (unsign_of_isZero (.inr rfl)).trans (unsign_of_isZero (.inl rfl)).symm⟩
  · intro ⟨hne, heq⟩
    have hzero : IsZero x ↔ IsZero y := by rw [← isZero_unsign, heq, isZero_unsign]
    by_cases hx : IsZero x
    · rcases hx with rfl | rfl <;> rcases hzero.mp (by simp [IsZero]) with rfl | rfl
      · exact ⟨by decide, by decide, .inl rfl⟩
      · exact ⟨by decide, by decide, .inr (.inl ⟨rfl, rfl⟩)⟩
      · exact ⟨by decide, by decide, .inr (.inr ⟨rfl, rfl⟩)⟩
      · exact ⟨by decide, by decide, .inl rfl⟩
    · rw [unsign_of_not_isZero hx, unsign_of_not_isZero (mt hzero.mpr hx)] at heq
      exact ⟨hne, heq ▸ hne, .inl heq⟩

mutual

theorem same_iff : ∀ {a b : Value}, a.same b = true ↔ a.hasNaN = false ∧ a.unsigned = b.unsigned
  | .undefined, b | .null, b | .boolean _, b | .text _, b => by cases b <;> simp [same, hasNaN, unsigned]
  | .number _, b => by
    cases b with
    | number _ => simp only [same, hasNaN, unsigned, beq_iff_unsign, number.injEq]
    | _ => simp [same, unsigned]
  | .object _, b => by
    cases b with
    | object _ => simp only [same, hasNaN, unsigned, sameFields_iff, object.injEq]
    | _ => simp [same, unsigned]

theorem sameFields_iff : ∀ {as bs : List (String × Value)},
    sameFields as bs = true ↔ fieldsHaveNaN as = false ∧ unsignedFields as = unsignedFields bs
  | [], [] => by simp [sameFields, fieldsHaveNaN, unsignedFields]
  | [], _ :: _ | _ :: _, [] => by simp [sameFields, fieldsHaveNaN, unsignedFields]
  | (k, v) :: r, (k', v') :: r' => by
    have hkeys : (k == k') = true ↔ k = k' := beq_iff_eq
    simp only [sameFields, fieldsHaveNaN, unsignedFields, Bool.and_eq_true, Bool.or_eq_false_iff, hkeys, same_iff,
      sameFields_iff, List.cons.injEq, Prod.mk.injEq]
    constructor
    · intro ⟨⟨hkey, hnan, hv⟩, hnans, hr⟩
      exact ⟨⟨hnan, hnans⟩, ⟨hkey, hv⟩, hr⟩
    · intro ⟨⟨hnan, hnans⟩, ⟨hkey, hv⟩, hr⟩
      exact ⟨⟨hkey, hnan, hv⟩, hnans, hr⟩

end

end Eventful.Value
