import Eventful.Number.Numeral

/-
  Eventful.Proofs.Number.Digits — decimal digits and the number they write.

  The number that digits write is the library's own reading of them (`natOfDigits_eq`), so the
  digits of a number write it. Digits that write a positive number are zeros and then the digits
  of that number (`zeros_digits`).
-/

namespace Eventful.Number

variable {ds : List Char} {c : Char} {n : Nat}

theorem natOfDigits_eq (ds : List Char) : natOfDigits ds = Nat.ofDigitChars 10 ds 0 := by
  rw [Nat.ofDigitChars_eq_foldl]
  unfold natOfDigits digitValue
  simp only [Nat.mul_comm]

theorem natOfDigits_toDigits (n : Nat) : natOfDigits (Nat.toDigits 10 n) = n := by
  rw [natOfDigits_eq, Nat.ofDigitChars_ten_toDigits]

theorem isDigit_iff : c.isDigit = true ↔ 0x30 ≤ c.toNat ∧ c.toNat ≤ 0x39 := by
  simp [Char.isDigit, UInt32.le_iff_toNat_le, ← Char.toNat_val]

theorem digitValue_lt (h : c.isDigit = true) : digitValue c < 10 := by
  have hbounds := isDigit_iff.mp h
  have hzero : '0'.toNat = 48 := rfl
  unfold digitValue
  omega

theorem digitChar_digitValue (h : c.isDigit = true) : (digitValue c).digitChar = c := by
  have hbounds := isDigit_iff.mp h
  have hzero : '0'.toNat = 48 := rfl
  refine Char.toNat_inj.mp ?_
  rw [Nat.toNat_digitChar_of_lt_ten (digitValue_lt h)]
  unfold digitValue
  omega

theorem toDigits_append (hn : 0 < n) (hds : ∀ d ∈ ds, d.isDigit = true) :
    Nat.toDigits 10 n ++ ds = Nat.toDigits 10 (Nat.ofDigitChars 10 ds n) := by
  induction ds generalizing n with
  | nil => rw [List.append_nil, Nat.ofDigitChars_nil]
  | cons d ds ih =>
    obtain ⟨hd, hds⟩ := List.forall_mem_cons.mp hds
    have hlt := digitValue_lt hd
    have hone : Nat.toDigits 10 n ++ [d] = Nat.toDigits 10 (10 * n + digitValue d) := by
      rw [← Nat.toDigits_append_toDigits (by decide) hn hlt, Nat.toDigits_of_lt_base hlt, digitChar_digitValue hd]
    rw [Nat.ofDigitChars_cons, ← List.singleton_append, ← List.append_assoc, hone]
    exact ih (by omega) hds

/-- Zeros may stand before the digits of a number, and nothing else may. -/
theorem zeros_digits (hds : ∀ d ∈ ds, d.isDigit = true) (hpos : 0 < natOfDigits ds) :
    ∃ k, ds = List.replicate k '0' ++ Nat.toDigits 10 (natOfDigits ds) := by
  rw [natOfDigits_eq] at hpos ⊢
  induction ds with
  | nil => exact absurd hpos (Nat.lt_irrefl 0)
  | cons d ds ih =>
    obtain ⟨hd, hds⟩ := List.forall_mem_cons.mp hds
    have hcons : Nat.ofDigitChars 10 (d :: ds) 0 = Nat.ofDigitChars 10 ds (digitValue d) := by
      rw [Nat.ofDigitChars_cons, Nat.mul_zero, Nat.zero_add]
      rfl
    rw [hcons] at hpos ⊢
    by_cases hzero : digitValue d = 0
    · rw [hzero] at hpos ⊢
      obtain ⟨k, hk⟩ := ih hds hpos
      refine ⟨k + 1, ?_⟩
      rw [List.replicate_succ, List.cons_append, ← hk, ← digitChar_digitValue hd, hzero]
      rfl
    · refine ⟨0, ?_⟩
      rw [← toDigits_append (Nat.pos_of_ne_zero hzero) hds, Nat.toDigits_of_lt_base (digitValue_lt hd),
        digitChar_digitValue hd]
      rfl

end Eventful.Number
