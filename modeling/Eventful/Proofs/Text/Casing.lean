import Mathlib
import Eventful.Proofs.Text
import Eventful.Text.Casing

/-
  Eventful.Proofs.Text.Casing — how the small form of a letter sits with A to Z.

  What the small form of a character can be is said once (`small`). So making A to Z small
  first changes no small form (`toLower_toLower`), no small form has a capital among A to Z
  (`isUpper_of_mem_toLower`), and a text whose small form is of the letters a to z is that text
  with A to Z made small (`flatMap_toLower`): but for `k`, which the Kelvin sign gives too.
-/

namespace Eventful.Text

variable {c x : Char}

/-! ## The table -/

/-- Where small forms lie: A to Z come first, the Kelvin sign gives `k`, and the letters of
    every other run have their small forms beyond `z`. -/
theorem lowerings_cases : ∀ l ∈ lowerings,
    l.run = ⟨0x41, 0x5a, 1⟩ ∧ l.distance = 32 ∨ l.run = ⟨0x212a, 0x212a, 1⟩ ∧ l.distance = -8383 ∨
      (0x7a : Int) < l.run.first + l.distance := by
  decide +kernel

theorem lowerings_skip_small : ∀ l ∈ lowerings, l.run.last < 0x61 ∨ 0x7a < l.run.first := by decide +kernel

theorem isUpper_iff : c.isUpper = true ↔ 0x41 ≤ c.toNat ∧ c.toNat ≤ 0x5a := by
  simp [Char.isUpper, UInt32.le_iff_toNat_le, ← Char.toNat_val]

theorem isLower_iff : c.isLower = true ↔ 0x61 ≤ c.toNat ∧ c.toNat ≤ 0x7a := by
  simp [Char.isLower, UInt32.le_iff_toNat_le, ← Char.toNat_val]

/-! ## Small forms -/

/-- What the small form of a character is. -/
inductive Small (c : Char) : Prop where
  | capital (h : c.isUpper = true) (hs : toLower c = [c.toLower])
  | dotted (h : c = Char.ofNat 0x130) (hs : toLower c = ['i', Char.ofNat 0x307])
  | kelvin (h : c = Char.ofNat 0x212a) (hs : toLower c = ['k'])
  /-- A code point that is no character's counts as zero. -/
  | beyond (x : Char) (h : c.isUpper = false) (hs : toLower c = [x]) (hx : x.toNat = 0 ∨ 0x7a < x.toNat)
  | itself (h : c.isUpper = false) (hs : toLower c = [c])

theorem small (c : Char) : Small c := by
  by_cases hdotted : c.toNat = 0x130
  · obtain rfl : c = Char.ofNat 0x130 := Char.toNat_inj.mp hdotted
    exact .dotted rfl rfl
  cases hfind : lowerings.find? (·.run.holds c.toNat) with
  | none =>
    have hs : toLower c = [c] := by simp [toLower, hdotted, hfind]
    refine .itself (Bool.eq_false_iff.mpr fun hupper => ?_) hs
    obtain ⟨hfirst, hlast⟩ := isUpper_iff.mp hupper
    have hnone := List.find?_eq_none.mp hfind ⟨⟨0x41, 0x5a, 1⟩, 32⟩ List.mem_cons_self
    simp [Run.holds, hfirst, hlast, Nat.mod_one] at hnone
  | some l =>
    have hs : toLower c = [Char.ofNat (c.toNat + l.distance).toNat] := by simp [toLower, hdotted, hfind]
    have hholds : l.run.holds c.toNat = true := List.find?_some (p := fun l : Lowering => l.run.holds c.toNat) hfind
    obtain ⟨hfirst, hlast⟩ := bounds_of_holds hholds
    rcases lowerings_cases l (List.mem_of_find?_eq_some hfind) with ⟨hrun, hdistance⟩ | ⟨hrun, -⟩ | hbeyond
    · rw [hrun] at hfirst hlast
      have hupper : c.isUpper = true := isUpper_iff.mpr ⟨hfirst, hlast⟩
      rw [hdistance] at hs
      exact .capital hupper (by rw [hs, Char.toLower_eq_of_isUpper hupper]; rfl)
    · rw [hrun] at hfirst hlast
      obtain rfl : c = Char.ofNat 0x212a := Char.toNat_inj.mp (Nat.le_antisymm hlast hfirst)
      exact .kelvin rfl rfl
    · refine .beyond _ (Bool.eq_false_iff.mpr fun hupper => ?_) hs ?_
      · obtain ⟨hupperFirst, hupperLast⟩ := isUpper_iff.mp hupper
        -- The run of A to Z is the first of the table, and would have been found.
        have hhead : lowerings.find? (·.run.holds c.toNat) = some ⟨⟨0x41, 0x5a, 1⟩, 32⟩ :=
          List.find?_cons_of_pos (by simp [Run.holds, hupperFirst, hupperLast, Nat.mod_one])
        cases hfind.symm.trans hhead
        exact absurd hbeyond (by decide)
      · rw [Char.toNat_ofNat]
        split
        · right
          omega
        · exact .inl rfl

theorem toLower_small {c : Char} (h : c.isLower = true) : toLower c = [c] := by
  obtain ⟨hfirst, hlast⟩ := isLower_iff.mp h
  have hnone : lowerings.find? (·.run.holds c.toNat) = none := by
    refine List.find?_eq_none.mpr fun l hl hholds => ?_
    obtain ⟨hrunFirst, hrunLast⟩ := bounds_of_holds hholds
    rcases lowerings_skip_small l hl with hbefore | hafter <;> omega
  have hdotted : c.toNat ≠ 0x130 := by omega
  simp [toLower, hdotted, hnone]

theorem isLower_toLower (h : c.isUpper = true) : c.toLower.isLower = true := by
  rw [Char.isLower_toLower_eq_isAlpha, Char.isAlpha, h, Bool.true_or]

/-- A letter of A to Z has the small form of the small letter. -/
theorem toLower_toLower (c : Char) : toLower c.toLower = toLower c := by
  cases hupper : c.isUpper with
  | false => rw [Char.toLower_eq_of_not_isUpper (Bool.eq_false_iff.mp hupper)]
  | true =>
    rw [toLower_small (isLower_toLower hupper)]
    cases small c with
    | capital _ hs => exact hs.symm
    | dotted h | kelvin h => cases (h ▸ hupper : Char.isUpper _ = true)
    | beyond _ h | itself h => cases h.symm.trans hupper

/-- No small form has a capital of A to Z. -/
theorem isUpper_of_mem_toLower (hx : x ∈ toLower c) : x.isUpper = false := by
  cases small c with
  | capital _ hs =>
    rw [hs, List.mem_singleton] at hx
    rw [hx, Char.isUpper_toLower_eq_false]
  | dotted _ hs =>
    rw [hs, List.mem_cons, List.mem_singleton] at hx
    rcases hx with rfl | rfl <;> rfl
  | kelvin _ hs =>
    rw [hs, List.mem_singleton] at hx
    rw [hx]
    decide
  | beyond y _ hs hy =>
    rw [hs, List.mem_singleton] at hx
    subst hx
    refine Bool.eq_false_iff.mpr fun hupper => ?_
    have hbounds := isUpper_iff.mp hupper
    omega
  | itself h hs =>
    rw [hs, List.mem_singleton] at hx
    rw [hx, h]

/-- A letter of a to z that is the whole small form of itself and its capital alone. -/
def isSole (x : Char) : Bool := x.isLower && x != 'k'

theorem toLower_eq_singleton (h : ∀ x ∈ toLower c, isSole x = true) : toLower c = [c.toLower] := by
  cases small c with
  | capital _ hs => exact hs
  | dotted _ hs => cases h (Char.ofNat 0x307) (by simp [hs])
  | kelvin _ hs => cases h 'k' (by simp [hs])
  | beyond x _ hs hx =>
    have hbounds := isLower_iff.mp (Bool.and_eq_true_iff.mp (h x (by simp [hs]))).1
    omega
  | itself hupper hs => rw [hs, Char.toLower_eq_of_not_isUpper (Bool.eq_false_iff.mp hupper)]

theorem flatMap_toLower {cs : List Char} (h : ∀ x ∈ cs.flatMap toLower, isSole x = true) :
    cs.flatMap toLower = cs.map Char.toLower := by
  induction cs with
  | nil => rfl
  | cons c cs ih =>
    rw [List.flatMap_cons] at h ⊢
    obtain ⟨hc, hcs⟩ := List.forall_mem_append.mp h
    rw [toLower_eq_singleton hc, ih hcs]
    rfl

end Eventful.Text
