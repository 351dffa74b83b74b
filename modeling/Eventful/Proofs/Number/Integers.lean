import Eventful.Proofs.Number.Digits
import Eventful.Proofs.Number.Doubles
import Eventful.Proofs.Text.Casing
import Eventful.Value.Basic

/-
  Eventful.Proofs.Number.Integers — integers as texts, and the texts as numbers.

  The text of an integer is read as the double nearest to it (`numberOfText_toString`). A double
  that is an integer is written as this integer, as far as a word goes (`text_integer`). So it
  reads back up to 2^63 in magnitude, and beyond reads back as that (`toInt?_readBack`). Any
  finite number starts with a digit or a sign (`text_head`).
-/

namespace Eventful

open Number

namespace Text

/-- What numerals are made of is not blank. -/
theorem isBlank_numeral {c : Char} (h : 0x2b ≤ c.toNat ∧ c.toNat ≤ 0x39) : isBlank c = false := by
  have hblanks : ∀ r ∈ blanks, r.last < 0x2b ∨ 0x39 < r.first := by decide
  refine Bool.eq_false_iff.mpr fun hblank => ?_
  obtain ⟨r, hmem, hfirst, hlast⟩ := run_of_holds hblank
  rcases hblanks r hmem with hbefore | hafter <;> omega

end Text

namespace Number

variable {negative : Bool} {ds : List Char} {x y : Float} {n m : Int}

/-! ## Digits as a numeral -/

theorem natOfDigits_dropWhile (ds : List Char) : natOfDigits (ds.dropWhile (· == '0')) = natOfDigits ds := by
  induction ds with
  | nil => rfl
  | cons d ds ih =>
    by_cases hd : d = '0'
    · subst hd
      exact ih
    · rw [List.dropWhile_cons_of_neg (by simpa using hd)]

/-- Digits that are not too many stand for the double nearest to the number they write. -/
theorem ofDecimal_digits (hlength : ds.length ≤ 400) : ofDecimal negative ds 0 = ofRatio negative (natOfDigits ds) 1 := by
  have hdrop : (ds.dropWhile (· == '0')).length ≤ ds.length := List.length_dropWhile_le ..
  rw [← natOfDigits_dropWhile ds]
  unfold ofDecimal
  dsimp only
  generalize ds.dropWhile (· == '0') = digits at hdrop ⊢
  by_cases hempty : digits = []
  · subst hempty
    rfl
  have hsmall : ¬(digits.isEmpty || decide (0 + (digits.length : Int) < -400)) = true := by simp [hempty]
  have hlarge : ¬(0 + (digits.length : Int) > 400) := by omega
  rw [if_neg hsmall, if_neg hlarge]
  show ofRatio negative (natOfDigits digits * 1) 1 = _
  rw [Nat.mul_one]

theorem unsigned?_digits (hne : ds ≠ []) (hds : ∀ d ∈ ds, d.isDigit = true) (hlength : ds.length ≤ 400) :
    unsigned? negative ds = some (ofRatio negative (natOfDigits ds) 1) := by
  have hlower : ds.map Char.toLower = ds := by
    refine (List.map_congr_left fun d hd => Char.toLower_eq_of_not_isUpper fun hupper => ?_).trans (List.map_id ds)
    have hdigit := isDigit_iff.mp (hds d hd)
    have hcapital := Text.isUpper_iff.mp hupper
    omega
  have hword (c : Char) (cs : List Char) (hc : c.isDigit = false) :
      (String.ofList (ds.map Char.toLower) == String.ofList (c :: cs)) = false := by
    rw [hlower, beq_eq_false_iff_ne]
    intro he
    have hmem : c ∈ ds := String.ofList_injective he ▸ List.mem_cons_self
    exact Bool.false_ne_true (hc.symm.trans (hds c hmem))
  have hwhole : ds.takeWhile Char.isDigit = ds := List.takeWhile_eq_self_iff.mpr hds
  have hrest : ds.dropWhile Char.isDigit = [] := List.dropWhile_eq_nil_iff.mpr hds
  unfold unsigned?
  dsimp only
  rw [hword 'i' ['n', 'f'] rfl, hword 'i' ['n', 'f', 'i', 'n', 'i', 't', 'y'] rfl, hword 'n' ['a', 'n'] rfl, hwhole, hrest]
  simp only [Bool.or_self, Bool.false_eq_true, ↓reduceIte, List.isEmpty_nil, Bool.and_true, List.isEmpty_iff, hne, exponent?,
    Option.map_some, List.append_nil, List.length_nil]
  exact congrArg some (ofDecimal_digits hlength)

theorem ofNumeral?_digits (hne : ds ≠ []) (hds : ∀ d ∈ ds, d.isDigit = true) (hlength : ds.length ≤ 400) :
    ofNumeral? ds = some (ofRatio false (natOfDigits ds) 1) ∧
      ofNumeral? ('-' :: ds) = some (ofRatio true (natOfDigits ds) 1) := by
  refine ⟨?_, unsigned?_digits hne hds hlength⟩
  rw [← unsigned?_digits hne hds hlength]
  unfold ofNumeral?
  split
  · cases hds '-' List.mem_cons_self
  · cases hds '+' List.mem_cons_self
  · rfl

end Number

theorem toList_toString (n : Int) :
    (toString n).toList = (if n < 0 then ['-'] else []) ++ Nat.toDigits 10 n.natAbs := by
  have hdigits (k : Nat) : k.repr.toList = Nat.toDigits 10 k := by
    rw [← Nat.toString_eq_repr, Nat.toString_eq_ofList_toDigits, String.toList_ofList]
  cases n with
  | ofNat k => exact hdigits k
  | negSucc k =>
    show ("-" ++ (k + 1).repr).toList = _
    rw [String.toList_append, hdigits, if_pos (Int.negSucc_lt_zero k)]
    rfl

/-- The text of an integer stands for the double nearest to it. -/
theorem Value.numberOfText_toString (n : Int) (hn : n.natAbs < 10 ^ 21) :
    numberOfText (toString n) = ofRatio (decide (n < 0)) n.natAbs 1 := by
  have hdigits : ∀ d ∈ Nat.toDigits 10 n.natAbs, d.isDigit = true :=
    fun d hd => Nat.isDigit_of_mem_toDigits (by decide) (by decide) hd
  have hlength : (Nat.toDigits 10 n.natAbs).length ≤ 21 := (Nat.length_toDigits_le_iff (by decide) (by decide)).mpr hn
  obtain ⟨hplain, hminus⟩ := ofNumeral?_digits Nat.toDigits_ne_nil hdigits (hlength.trans (by decide))
  rw [natOfDigits_toDigits] at hplain hminus
  have htrim : Text.trim (toString n).toList = (toString n).toList := by
    refine Text.trim_eq fun c hc => Text.isBlank_numeral ?_
    rw [toList_toString, List.mem_append] at hc
    rcases hc with hc | hc
    · split_ifs at hc
      · rw [List.mem_singleton.mp hc]
        decide
      · cases hc
    · have hbounds := isDigit_iff.mp (hdigits c hc)
      omega
  have hread : ofNumeral? (toString n).toList = some (ofRatio (decide (n < 0)) n.natAbs 1) := by
    rw [toList_toString]
    by_cases hneg : n < 0
    · rw [if_pos hneg, decide_eq_true hneg]
      exact hminus
    · rw [if_neg hneg, decide_eq_false hneg]
      exact hplain
  unfold numberOfText
  rw [htrim]
  split
  · rename_i hempty
    rw [hempty] at hread
    cases hread
  · rw [hread, Option.getD_some]

/-! ## Integers as texts -/

namespace Number

/-- The integers are the same or lie beyond the same end of a word. -/
def Alike (n m : Int) : Prop := n = m ∨ (2 ^ 63 ≤ n ∧ 2 ^ 63 ≤ m) ∨ (n ≤ -2 ^ 63 ∧ m ≤ -2 ^ 63)

instance (n m : Int) : Decidable (Alike n m) := inferInstanceAs (Decidable (_ ∨ _))

theorem clampToWord_eq (n : Int) : clampToWord n = max (-2 ^ 63) (min (2 ^ 63 - 1) n) := rfl

theorem text_integer (h : toInt? x = some n) (hn : n.natAbs < 10 ^ 21) : text x = toString (clampToWord n) := by
  obtain ⟨negative, m, e, -, hs, -⟩ := toInt?_eq_some_iff.mp h
  unfold text
  rw [hs]
  dsimp only
  rw [h]
  exact if_pos hn

/-- What is written reads back as the same integer, but no further than 2^63 either way. -/
theorem toInt?_readBack (h : toInt? x = some n) (hn : n.natAbs < 10 ^ 21) :
    toInt? (Value.numberOfText (text x)) = some (max (-2 ^ 63) (min (2 ^ 63) n)) := by
  have hclamp := clampToWord_eq n
  rw [text_integer h hn, Value.numberOfText_toString _ (by omega)]
  rcases Int.lt_or_le n (2 ^ 63) with hhigh | hhigh
  · rcases Int.lt_or_le (-2 ^ 63) n with hlow | hlow
    · have hsame : clampToWord n = n := by omega
      have hwithin : max (-2 ^ 63) (min (2 ^ 63) n) = n := by omega
      rw [hsame, hwithin]
      exact toInt?_ofRatio h
    · have hend : clampToWord n = -2 ^ 63 := by omega
      have hbound : max (-2 ^ 63) (min (2 ^ 63) n) = -2 ^ 63 := by omega
      rw [hend, hbound]
      decide +kernel
  · -- The last integer of a word is no double, and reads as the next one.
    have hend : clampToWord n = 2 ^ 63 - 1 := by omega
    have hbound : max (-2 ^ 63) (min (2 ^ 63) n) = 2 ^ 63 := by omega
    rw [hend, hbound]
    decide +kernel

theorem readBack_beq (h : toInt? x = some n) (hn : n.natAbs < 10 ^ 21) :
    (Value.numberOfText (text x) == x) = true ↔ n.natAbs ≤ 2 ^ 63 := by
  rw [beq_iff_toInt? (toInt?_readBack h hn) h]
  omega

theorem ne_lastOfWord (h : toInt? x = some n) : n ≠ 2 ^ 63 - 1 := by
  rintro rfl
  have hnext : toInt? (ofRatio (decide ((2 ^ 63 - 1 : Int) < 0)) (2 ^ 63 - 1 : Int).natAbs 1) = some (2 ^ 63) := by
    decide +kernel
  cases hnext.symm.trans (toInt?_ofRatio h)

theorem text_eq_iff (hx : toInt? x = some n) (hy : toInt? y = some m) (hn : n.natAbs < 10 ^ 21) (hm : m.natAbs < 10 ^ 21) :
    text x = text y ↔ Alike n m := by
  have hlast := ne_lastOfWord hx
  have hlast' := ne_lastOfWord hy
  rw [text_integer hx hn, text_integer hy hm, Int.toString_eq_repr, Int.toString_eq_repr, Int.repr_inj, clampToWord_eq,
    clampToWord_eq]
  unfold Alike
  omega

/-! ## How a number starts -/

section start

variable {mantissa : Nat} {exponent : Int} {d : Decimal} {c : Char} {cs : List Char}

theorem isDigit_shortest (mantissa : Nat) (exponent : Int) :
    ∀ c ∈ (shortest mantissa exponent).digits, c.isDigit = true := by
  intro c hc
  unfold shortest dropTrailingZeros at hc
  have hmem := List.mem_reverse.mp ((List.dropWhile_sublist _).subset (List.mem_reverse.mp hc))
  exact Nat.isDigit_of_mem_toDigits (by decide) (by decide) hmem

/-- Laid out plainly, a number starts with a digit. -/
theorem isDigit_of_plain (hd : ∀ c ∈ d.digits, c.isDigit = true) (h : Layout.plain.digitsText d = c :: cs) :
    c.isDigit = true := by
  have hzeros (n : Nat) : ∀ c ∈ zeros n, c.isDigit = true := fun c hc => by
    rw [List.eq_of_mem_replicate hc]
    rfl
  unfold Layout.digitsText Layout.plain at h
  dsimp only at h
  rw [if_pos rfl] at h
  split at h
  · cases h
    rfl
  · rename_i hpoint
    obtain ⟨whole, hwhole⟩ : ∃ whole, whole = d.digits.take d.point.toNat ++
        zeros (d.point.toNat - (d.digits.take d.point.toNat).length) := ⟨_, rfl⟩
    have hdigits : ∀ c ∈ whole, c.isDigit = true :=
      hwhole ▸ List.forall_mem_append.mpr ⟨fun c hc => hd c (List.mem_of_mem_take hc), hzeros _⟩
    rw [← hwhole] at h
    cases whole with
    | nil =>
      -- Before the point there are as many digits and zeros as it says, so at least one.
      have hlength := congrArg List.length hwhole
      rw [List.length_append, zeros, List.length_replicate, List.length_nil] at hlength
      omega
    | cons c' whole =>
      cases h
      exact hdigits _ List.mem_cons_self

/-- A finite number is written with a digit or a sign first. -/
theorem text_head (hs : split x = .finite negative mantissa exponent) (h : (text x).toList = c :: cs) :
    c = '-' ∨ c.isDigit = true := by
  have hplain (h : (Layout.plain.text x).toList = c :: cs) : c = '-' ∨ c.isDigit = true := by
    unfold Layout.text at h
    rw [hs] at h
    dsimp only at h
    rw [String.toList_ofList] at h
    split at h
    · exact .inl (List.cons.inj h).1.symm
    · split at h
      · cases h
        exact .inr rfl
      · exact .inr (isDigit_of_plain (isDigit_shortest mantissa exponent) h)
  unfold text at h
  rw [hs] at h
  dsimp only at h
  split at h
  · rename_i n _
    split at h
    · rw [toList_toString] at h
      split at h
      · exact .inl (List.cons.inj h).1.symm
      · have hmem : c ∈ Nat.toDigits 10 (clampToWord n).natAbs := by
          rw [← List.nil_append (Nat.toDigits _ _), h]
          exact List.mem_cons_self
        exact .inr (Nat.isDigit_of_mem_toDigits (by decide) (by decide) hmem)
    · exact hplain h
  · exact hplain h

end start

end Number
end Eventful
