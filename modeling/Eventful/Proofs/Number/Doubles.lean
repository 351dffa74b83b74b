import Mathlib
import Eventful.Number.Binary

/-
  Eventful.Proofs.Number.Doubles — the doubles that are integers.

  The bits of a finite double are its sign, its exponent and its mantissa (`bits_of_split`), so
  the double nearest to the integer that a double equals is that double (`ofRatio_toInt?`). Two
  doubles that equal integers compare equal if the integers do (`beq_iff_toInt?`).
-/

namespace Eventful.Number

variable {x y : Float} {negative : Bool} {m n d : Nat} {e z w : Int}

/-! ## Bits -/

theorem bits_of_split (h : split x = .finite negative m e) :
    x.toBits.toNat = negative.toNat * 2 ^ 63 + ((e + 1074).toNat * 2 ^ 52 + m) ∧
      (2 ^ 52 ≤ m ∧ m < 2 ^ 53 ∧ -1074 ≤ e ∧ e ≤ 971 ∨ m < 2 ^ 52 ∧ e = -1074) := by
  have hsize : x.toBits.toNat < 2 ^ 64 := x.toBits.toNat_lt
  unfold split at h
  simp only [Nat.shiftRight_eq_div_pow, Nat.one_shiftLeft, beq_iff_eq, Int.ofNat_eq_natCast] at h
  generalize x.toBits.toNat = bits at h hsize ⊢
  have hsign : (bits / 2 ^ 63 == 1).toNat = bits / 2 ^ 63 := by
    have hone : bits / 2 ^ 63 < 2 := by omega
    interval_cases bits / 2 ^ 63 <;> rfl
  split_ifs at h with hspecial hzero hsubnormal <;> cases h <;> rw [hsign] <;> omega

/-! ## Integers -/

/-- The natural is `m · 2^e`. -/
def Whole (m : Nat) : Int → Nat → Prop
  | .ofNat k, n => n = m * 2 ^ k
  | .negSucc k, n => n * 2 ^ (k + 1) = m

theorem toInt?_eq_some_iff : toInt? x = some z ↔
    ∃ negative m e n, split x = .finite negative m e ∧ Whole m e n ∧ z = if negative then -(n : Int) else n := by
  unfold toInt?
  cases split x with
  | nan | infinite => simp
  | finite negative m e =>
    dsimp only
    rw [Option.map_eq_some_iff]
    cases e with
    | ofNat k =>
      constructor
      · rintro ⟨n, hn, rfl⟩
        exact ⟨negative, m, .ofNat k, n, rfl, (Option.some.inj hn).symm.trans (Nat.shiftLeft_eq m k), rfl⟩
      · rintro ⟨_, _, _, n, hs, hn, rfl⟩
        cases hs
        exact ⟨n, congrArg some ((Nat.shiftLeft_eq m k).trans hn.symm), rfl⟩
    | negSucc k =>
      simp only [Nat.shiftRight_eq_div_pow, Nat.one_shiftLeft, beq_iff_eq, Option.ite_none_right_eq_some, Option.some.injEq]
      constructor
      · rintro ⟨n, ⟨hmod, rfl⟩, rfl⟩
        exact ⟨negative, m, .negSucc k, _, rfl, Nat.div_mul_cancel (Nat.dvd_of_mod_eq_zero hmod), rfl⟩
      · rintro ⟨_, _, _, n, hs, hn, rfl⟩
        cases hs
        have hmul : n * 2 ^ (k + 1) = m := hn
        refine ⟨n, ⟨?_, ?_⟩, rfl⟩
        · rw [← hmul, Nat.mul_mod_left]
        · rw [← hmul, Nat.mul_div_cancel _ (by positivity)]

theorem whole_pred (h : Whole m e n) : Whole (2 * m) (e - 1) n := by
  cases e with
  | ofNat k =>
    cases k with
    | zero =>
      show n * 2 ^ 1 = 2 * m
      have h : n = m * 2 ^ 0 := h
      omega
    | succ k =>
      have he : Int.ofNat (k + 1) - 1 = Int.ofNat k := by simp
      rw [he]
      show n = 2 * m * 2 ^ k
      have h : n = m * 2 ^ (k + 1) := h
      rw [h]
      ring
  | negSucc k =>
    have he : Int.negSucc k - 1 = Int.negSucc (k + 1) := by omega
    rw [he]
    show n * 2 ^ (k + 1 + 1) = 2 * m
    have h : n * 2 ^ (k + 1) = m := h
    rw [← h]
    ring

theorem roundHalfEven_mul (hd : 0 < d) : roundHalfEven (m * d) d = m := by
  simp [roundHalfEven, hd]

theorem scaled_whole (h : Whole m e n) : scaled n 1 e = m := by
  cases e with
  | ofNat k =>
    have h : n = m * 2 ^ k := h
    rw [scaled, Nat.one_shiftLeft, h]
    exact roundHalfEven_mul (by positivity)
  | negSucc k =>
    have h : n * 2 ^ (k + 1) = m := h
    rw [scaled, Nat.shiftLeft_eq, h]
    simpa using roundHalfEven_mul (m := m) (d := 1) (by decide)

theorem log2_mul_two_pow (hn : n ≠ 0) (k : Nat) : (n * 2 ^ k).log2 = n.log2 + k := by
  induction k with
  | zero => simp
  | succ k ih =>
    have hne : n * 2 ^ k ≠ 0 := Nat.mul_ne_zero hn (by positivity)
    rw [Nat.pow_succ, ← Nat.mul_assoc, Nat.mul_comm, Nat.log2_two_mul hne, ih]
    rfl

theorem log2_whole (h : Whole m e n) (hn : n ≠ 0) : (n.log2 : Int) = m.log2 + e := by
  cases e with
  | ofNat k =>
    obtain rfl : n = m * 2 ^ k := h
    have hm : m ≠ 0 := by
      rintro rfl
      exact hn (Nat.zero_mul _)
    rw [log2_mul_two_pow hm]
    simp
  | negSucc k =>
    obtain rfl : n * 2 ^ (k + 1) = m := h
    rw [log2_mul_two_pow hn]
    omega

/-- At the exponent of a double the mantissa has 53 bits. -/
theorem exponentOf_whole (h : Whole m e n) (hm : 2 ^ 52 ≤ m) (hm' : m < 2 ^ 53) (he : -1074 ≤ e) : exponentOf n 1 = e := by
  have hn : n ≠ 0 := by
    rintro rfl
    cases e <;> simp [Whole] at h <;> omega
  have hlog : m.log2 = 52 := (Nat.log2_eq_iff (by omega)).mpr ⟨hm, hm'⟩
  have hguess : Int.ofNat n.log2 - Int.ofNat (Nat.log2 1) - 53 = e - 1 := by
    have hbits := log2_whole h hn
    have hone : Nat.log2 1 = 0 := by decide
    rw [hone]
    simp only [Int.ofNat_eq_natCast]
    omega
  -- The guess is one too low: there the mantissa has a bit too many.
  have hdouble : ¬scaled n 1 (e - 1) < 1 <<< 53 := by
    rw [scaled_whole (whole_pred h), Nat.one_shiftLeft]
    omega
  unfold exponentOf
  dsimp only
  rw [hguess, if_neg hdouble]
  omega

/-- A mantissa of few bits stands for no integer at a low exponent. -/
theorem lt_of_whole {j k : Nat} (h : Whole m (.negSucc k) n) (hn : n ≠ 0) (hm : m < 2 ^ j) : k + 1 < j := by
  have hwhole : n * 2 ^ (k + 1) = m := h
  have hle : 2 ^ (k + 1) ≤ m := hwhole ▸ Nat.le_mul_of_pos_left _ (Nat.pos_of_ne_zero hn)
  exact (Nat.pow_lt_pow_iff_right (by decide)).mp (Nat.lt_of_le_of_lt hle hm)

theorem ofBits_of_split (hs : split x = .finite negative m e) : ofBits negative ((e + 1074).toNat * 2 ^ 52 + m) = x := by
  have hsigned : (if negative then (e + 1074).toNat * 2 ^ 52 + m + 1 <<< 63 else (e + 1074).toNat * 2 ^ 52 + m) =
      x.toBits.toNat := by
    rw [(bits_of_split hs).1, Nat.one_shiftLeft]
    cases negative <;> simp [Nat.add_comm]
  rw [ofBits, hsigned, UInt64.ofNat_toNat, Float.ofBits_toBits]

/-- The double nearest to the integer that a double equals is that double. -/
theorem ofRatio_of_split (hs : split x = .finite negative m e) (h : Whole m e n) : ofRatio negative n 1 = x := by
  have hrange := (bits_of_split hs).2
  by_cases hn : n = 0
  · obtain rfl : m = 0 := by
      subst hn
      cases e with
      | ofNat k => exact (Nat.mul_eq_zero.mp h.symm).resolve_right (by positivity)
      | negSucc k => exact h.symm.trans (Nat.zero_mul _)
    have hleast : (e + 1074).toNat * 2 ^ 52 + 0 = 0 := by omega
    have hzero := ofBits_of_split hs
    rw [hleast] at hzero
    rw [hn]
    exact hzero
  obtain ⟨hm, hm', he, he'⟩ : 2 ^ 52 ≤ m ∧ m < 2 ^ 53 ∧ -1074 ≤ e ∧ e ≤ 971 := by
    -- At the least exponent there are only fractions.
    refine hrange.resolve_right ?_
    rintro ⟨hm, rfl⟩
    have hshort := lt_of_whole (k := 1073) h hn hm
    omega
  have hmin : min ((e + 1074).toNat <<< 52 + m) (2047 <<< 52) = (e + 1074).toNat * 2 ^ 52 + m := by
    rw [Nat.shiftLeft_eq, Nat.shiftLeft_eq]
    omega
  have hpositive : ¬(n == 0 || (1 : Nat) == 0) = true := by simpa using hn
  unfold ofRatio
  dsimp only
  rw [if_neg hpositive, exponentOf_whole h hm hm' he, scaled_whole h, hmin]
  exact ofBits_of_split hs

theorem ofRatio_toInt? (h : toInt? x = some z) :
    ∃ negative, ofRatio negative z.natAbs 1 = x ∧ z = if negative then -(z.natAbs : Int) else z.natAbs := by
  obtain ⟨negative, m, e, n, hs, hn, rfl⟩ := toInt?_eq_some_iff.mp h
  have habs : (if negative then -(n : Int) else n).natAbs = n := by cases negative <;> simp
  rw [habs]
  exact ⟨negative, ofRatio_of_split hs hn, rfl⟩

theorem toInt?_ofRatio (h : toInt? x = some z) : toInt? (ofRatio (decide (z < 0)) z.natAbs 1) = some z := by
  obtain ⟨negative, rfl, hz⟩ := ofRatio_toInt? h
  by_cases hzero : z = 0
  · rw [hzero]
    decide
  · have hsign : decide (z < 0) = negative := by
      cases negative with
      | false =>
        rw [if_neg Bool.false_ne_true] at hz
        exact decide_eq_false (by omega)
      | true =>
        rw [if_pos rfl] at hz
        exact decide_eq_true (by omega)
    rw [hsign]
    exact h

/-! ## Comparing -/

/-- Doubles that equal integers compare as these. -/
theorem beq_iff_toInt? (hx : toInt? x = some z) (hy : toInt? y = some w) : (x == y) = true ↔ z = w := by
  have hnan : toInt? Float.nan = none := by decide
  have hzero : toInt? 0 = some 0 := by decide
  have hminus : toInt? (-0) = some 0 := by decide
  rw [Float.beq_iff_ne_nan_and_eq]
  constructor
  · rintro ⟨-, -, rfl | ⟨rfl, rfl⟩ | ⟨rfl, rfl⟩⟩
    · exact Option.some.inj (hx.symm.trans hy)
    · exact Option.some.inj (hx.symm.trans (hzero.trans (hminus.symm.trans hy)))
    · exact Option.some.inj (hx.symm.trans (hminus.trans (hzero.symm.trans hy)))
  · rintro rfl
    refine ⟨?_, ?_, ?_⟩
    · rintro rfl
      cases hnan.symm.trans hx
    · rintro rfl
      cases hnan.symm.trans hy
    obtain ⟨negative, rfl, hz⟩ := ofRatio_toInt? hx
    obtain ⟨negative', rfl, hz'⟩ := ofRatio_toInt? hy
    by_cases hsame : negative = negative'
    · exact .inl (hsame ▸ rfl)
    · -- Only a zero has two signs.
      obtain hz : z = 0 := by cases negative <;> cases negative' <;> simp at hsame hz hz' <;> omega
      right
      rw [hz]
      cases negative <;> cases negative' <;> first | exact absurd rfl hsame | decide

end Eventful.Number
