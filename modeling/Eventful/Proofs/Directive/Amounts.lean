import Eventful.Directive.Modifier
import Mathlib.Data.List.Basic

/-
  Eventful.Proofs.Directive.Amounts — digits and a unit, as a word of a chain.

  Digits with `ms`, `s` or nothing after them are read as a number, which has to fit 64 bits;
  digits that write more are a word like any other (`ofText_amount`). Nothing but an amount is
  read as a duration (`amount_of_duration`), and no key is known by the name of one
  (`isKnownKey_amount`).
-/

namespace Eventful.Directive

variable {ds cs rest ending : List Char} {d : Char} {n bound : Nat}

/-! ## Digits -/

/-- The number that digits write. -/
def decimal (ds : List Char) : Nat := ds.foldl (fun n d => n * 10 + (d.toNat - '0'.toNat)) 0

theorem count?_digits (hne : ds ≠ []) (hds : ∀ d ∈ ds, d.isDigit = true) :
    count? ds = if decimal ds < UInt64.size then some (decimal ds) else none := by
  have hdigits : ¬(ds.isEmpty || !ds.all Char.isDigit) = true := by simpa [hne] using hds
  unfold count?
  rw [if_neg hdigits]
  rfl

theorem count?_nondigit (hd : d ∈ cs) (h : d.isDigit = false) : count? cs = none := by
  have hall : ¬cs.all Char.isDigit = true := fun hall => by
    rw [List.all_eq_true.mp hall d hd] at h
    cases h
  unfold count?
  rw [if_pos (by simp [hall])]

/-- The number that the digits write, if there are digits alone and it stays below the bound. -/
theorem digits_eq_some_iff :
    (if ds.isEmpty || !ds.all Char.isDigit then none else if decimal ds < bound then some (decimal ds) else none) = some n ↔
      ds ≠ [] ∧ (∀ d ∈ ds, d.isDigit = true) ∧ decimal ds = n ∧ n < bound := by
  rw [Option.ite_none_left_eq_some, Option.ite_none_right_eq_some]
  simp only [Bool.or_eq_true, Bool.not_eq_true', not_or, List.isEmpty_iff, Bool.not_eq_false, List.all_eq_true,
    Option.some.injEq, ne_eq, and_assoc]
  constructor
  · rintro ⟨hne, hds, hlt, rfl⟩
    exact ⟨hne, hds, rfl, hlt⟩
  · rintro ⟨hne, hds, rfl, hlt⟩
    exact ⟨hne, hds, hlt, rfl⟩

theorem count?_eq_some_iff :
    count? ds = some n ↔ ds ≠ [] ∧ (∀ d ∈ ds, d.isDigit = true) ∧ decimal ds = n ∧ n < UInt64.size :=
  digits_eq_some_iff

theorem count?_eq_some (h : count? ds = some n) : n < UInt64.size ∧ ∀ d ∈ ds, d.isDigit = true :=
  have ⟨_, hds, _, hlt⟩ := count?_eq_some_iff.mp h
  ⟨hlt, hds⟩

theorem before?_eq_some_iff : before? ending cs = some rest ↔ rest ++ ending = cs :=
  List.isSuffixOf?_eq_some_iff_append_eq

/-- Digits do not end in anything else. -/
theorem before?_digits (hds : ∀ d ∈ ds, d.isDigit = true) (hd : d ∈ ending) (hdigit : d.isDigit = false) :
    before? ending ds = none := by
  refine Option.eq_none_iff_forall_ne_some.mpr fun rest h => ?_
  have hmem : d ∈ ds := before?_eq_some_iff.mp h ▸ List.mem_append_right rest hd
  rw [hds d hmem] at hdigit
  cases hdigit

/-! ## Amounts -/

/-- What stands after the digits. -/
inductive Scale where
  | bare | milliseconds | seconds
  deriving DecidableEq

def Scale.chars : Scale → List Char
  | .bare => []
  | .milliseconds => ['m', 's']
  | .seconds => ['s']

/-- How many milliseconds one of them is; a bare number counts milliseconds. -/
def Scale.factor : Scale → Nat
  | .bare | .milliseconds => 1
  | .seconds => 1000

/-- Digits, and a unit or none. -/
structure Amount where
  digits : List Char
  scale : Scale
  ne_nil : digits ≠ []
  isDigit : ∀ d ∈ digits, d.isDigit = true

namespace Amount

def text (a : Amount) : String := String.ofList (a.digits ++ a.scale.chars)

def number (a : Amount) : Nat := decimal a.digits

/-- What it is in milliseconds, if the number fits 64 bits. -/
def wait? (a : Amount) : Option Nat := if a.number < UInt64.size then some (a.number * a.scale.factor) else none

/-- The word that it is. -/
def word (a : Amount) : Word :=
  match a.wait?, a.scale with
  | none, _ => .other
  | some wait, .bare => .number wait
  | some wait, _ => .duration wait

theorem word_wait? (a : Amount) : a.word.wait? = a.wait? := by
  unfold word
  cases a.wait? with
  | none => rfl
  | some wait => cases a.scale <;> rfl

end Amount

/-- The word that a count is: none counts too far. -/
def Word.ofCount (make : Nat → Word) (count : Option Nat) : Word := count.elim .other make

theorem ofText_milliseconds (ds : List Char) :
    Word.ofText (String.ofList (ds ++ ['m', 's'])) = Word.ofCount .duration (count? ds) := by
  have hms : before? ['m', 's'] (ds ++ ['m', 's']) = some ds := before?_eq_some_iff.mpr rfl
  have hs : before? ['s'] (ds ++ ['m', 's']) = some (ds ++ ['m']) := before?_eq_some_iff.mpr (List.append_assoc ..)
  have hshort : count? (ds ++ ['m']) = none := count?_nondigit (d := 'm') (by simp) rfl
  have hwhole : count? (ds ++ ['m', 's']) = none := count?_nondigit (d := 'm') (by simp) rfl
  unfold Word.ofText
  rw [String.toList_ofList]
  dsimp only
  rw [hms, hs, Option.bind_some, Option.bind_some, hshort, hwhole]
  cases count? ds <;> rfl

theorem ofText_seconds (hds : ∀ d ∈ ds, d.isDigit = true) :
    Word.ofText (String.ofList (ds ++ ['s'])) = Word.ofCount (fun n => .duration (n * 1000)) (count? ds) := by
  have hms : before? ['m', 's'] (ds ++ ['s']) = none := by
    refine Option.eq_none_iff_forall_ne_some.mpr fun rest h => ?_
    have happend : rest ++ ['m'] ++ ['s'] = ds ++ ['s'] := by simpa using before?_eq_some_iff.mp h
    have hm : 'm' ∈ ds := (List.append_left_inj _).mp happend ▸ List.mem_append_right rest List.mem_cons_self
    cases hds 'm' hm
  have hs : before? ['s'] (ds ++ ['s']) = some ds := before?_eq_some_iff.mpr rfl
  have hwhole : count? (ds ++ ['s']) = none := count?_nondigit (d := 's') (by simp) rfl
  unfold Word.ofText
  rw [String.toList_ofList]
  dsimp only
  rw [hms, hs, Option.bind_none, Option.bind_some, hwhole]
  cases count? ds <;> rfl

theorem ofText_bare (hds : ∀ d ∈ ds, d.isDigit = true) :
    Word.ofText (String.ofList ds) = Word.ofCount .number (count? ds) := by
  have hms : before? ['m', 's'] ds = none := before?_digits (d := 'm') hds List.mem_cons_self rfl
  have hs : before? ['s'] ds = none := before?_digits (d := 's') hds List.mem_cons_self rfl
  unfold Word.ofText
  rw [String.toList_ofList]
  dsimp only
  rw [hms, hs, Option.bind_none]
  cases count? ds <;> rfl

/-- Digits and `ms` say so many milliseconds, digits and `s` so many seconds. -/
theorem ofText_duration (h : count? ds = some n) :
    Word.ofText (String.ofList (ds ++ ['m', 's'])) = .duration n ∧
      Word.ofText (String.ofList (ds ++ ['s'])) = .duration (n * 1000) := by
  rw [ofText_milliseconds, ofText_seconds (count?_eq_some h).2, h]
  exact ⟨rfl, rfl⟩

/-- An amount is read as its number, if that fits 64 bits. -/
theorem ofText_amount (a : Amount) : Word.ofText a.text = a.word := by
  have hcount := count?_digits a.ne_nil a.isDigit
  obtain ⟨ds, scale, hne, hds⟩ := a
  unfold Amount.text Amount.word Amount.wait? Amount.number
  cases scale with
  | bare =>
    simp only [Scale.chars, Scale.factor, List.append_nil, Nat.mul_one]
    rw [ofText_bare hds, hcount]
    split <;> rfl
  | milliseconds =>
    simp only [Scale.chars, Scale.factor, Nat.mul_one]
    rw [ofText_milliseconds, hcount]
    split <;> rfl
  | seconds =>
    rw [Scale.chars, ofText_seconds hds, hcount]
    split <;> rfl

/-- What is read as a duration is an amount with a unit. -/
theorem amount_of_duration {word : String} (h : Word.ofText word = .duration n) :
    ∃ a : Amount, a.scale ≠ .bare ∧ a.text = word := by
  have hamount : ∀ (scale : Scale), scale ≠ .bare → ∀ {m : Nat},
      (before? scale.chars word.toList).bind count? = some m → ∃ a : Amount, a.scale ≠ .bare ∧ a.text = word := by
    intro scale hscale m hm
    obtain ⟨ds, hbefore, hcount⟩ := Option.bind_eq_some_iff.mp hm
    obtain ⟨hne, hds, -, -⟩ := count?_eq_some_iff.mp hcount
    refine ⟨⟨ds, scale, hne, hds⟩, hscale, ?_⟩
    rw [Amount.text, before?_eq_some_iff.mp hbefore, String.ofList_toList]
  unfold Word.ofText at h
  dsimp only at h
  split at h
  · rename_i m hm
    exact hamount .milliseconds (by decide) hm
  · split at h
    · rename_i m hm
      exact hamount .seconds (by decide) hm
    · split at h <;> cases h

/-! ## The keys' names -/

/-- The text begins with a digit. -/
def startsWithDigit (s : String) : Bool := s.toList.head?.any Char.isDigit

variable {name : String} {a : Amount}

theorem startsWithDigit_lower (h : startsWithDigit name = true) : startsWithDigit (Text.lower name) = true := by
  unfold startsWithDigit at h ⊢
  unfold Text.lower
  rw [String.toList_ofList, List.head?_map]
  obtain ⟨d, hd, hdigit⟩ := (Option.any_eq_true _ _).mp h
  have hsame : d.toLower = d := by
    delta Char.toLower
    grind [Char.isDigit]
  rw [hd, Option.map_some, hsame]
  exact hdigit

theorem lower_ne_of_digit {s : String} (h : startsWithDigit name = true) (hs : startsWithDigit s = false) :
    Text.lower name ≠ s := by
  rintro rfl
  rw [startsWithDigit_lower h] at hs
  cases hs

theorem aliases_of_digit (h : startsWithDigit name = true) : aliases name = [] := by
  have hspellings : ∀ p ∈ spellings, startsWithDigit p.1 = false := by decide
  have hkeys : ∀ p ∈ keysOfName, startsWithDigit p.1 = false := by decide
  have hcanonical : canonical (Text.lower name) = Text.lower name := by
    unfold canonical
    rw [List.lookup_eq_none_iff.mpr fun p hp => bne_iff_ne.mpr (lower_ne_of_digit h (hspellings p hp)), Option.getD_none]
  unfold aliases
  rw [hcanonical, List.lookup_eq_none_iff.mpr fun p hp => bne_iff_ne.mpr (lower_ne_of_digit h (hkeys p hp)),
    Option.getD_none]

theorem modifierKey_of_digit (h : startsWithDigit name = true) : ModifierKey.ofName? name = none := by
  unfold ModifierKey.ofName?
  split
  all_goals first | rfl | exact absurd ‹_› (lower_ne_of_digit h (by decide))

/-- No key of more than one letter has a name that begins with a digit. -/
theorem isKnownKey_of_digit (h : startsWithDigit name = true) (hlong : name.length ≠ 1) : isKnownKey name = false := by
  have hlower := startsWithDigit_lower h
  have hlength : (Text.lower name).length = name.length := by simp [Text.lower, ← String.length_toList]
  have hplain : plainNames.contains (Text.lower name) = false := by
    rw [← Bool.not_eq_true, List.contains_iff_mem]
    have hplain : ∀ s ∈ plainNames, startsWithDigit s = false := by decide
    exact fun hmem => lower_ne_of_digit h (hplain _ hmem) rfl
  have hfunction : isFunctionKey (Text.lower name) = false := by
    unfold isFunctionKey
    split
    · rename_i digits hf
      unfold startsWithDigit at hlower
      rw [hf] at hlower
      cases hlower
    · rfl
  unfold isKnownKey
  dsimp only
  rw [modifierKey_of_digit hlower, aliases_of_digit hlower, hlength, hplain, hfunction]
  simpa using hlong

theorem startsWithDigit_amount (a : Amount) : startsWithDigit a.text = true := by
  obtain ⟨d, ds, hds⟩ := List.exists_cons_of_ne_nil a.ne_nil
  unfold startsWithDigit Amount.text
  rw [String.toList_ofList, hds]
  exact a.isDigit d (hds ▸ List.mem_cons_self)

theorem isKnownKey_amount (hscale : a.scale ≠ .bare) : isKnownKey a.text = false := by
  have hdigits : 0 < a.digits.length := List.length_pos_iff.mpr a.ne_nil
  have hunit : 0 < a.scale.chars.length := by cases hs : a.scale <;> first | exact absurd hs hscale | decide
  refine isKnownKey_of_digit (startsWithDigit_amount a) ?_
  unfold Amount.text
  rw [String.length_ofList, List.length_append]
  omega

end Eventful.Directive
