import Eventful.Proofs.Directive.Naming
import Eventful.Proofs.Directive.Places
import Eventful.Proofs.Number.Digits

/-
  Eventful.Proofs.Directive.Known — the words that a strict chain takes as keys.

  The names of keys are written down: those of the modifier keys and of the tables, single
  characters, and `f1` to `f24` (`Listed`). A strict chain takes them all. Besides them it takes
  the numbers of function keys with a plus or zeros before them, and digits that write any number
  of 64 bits (`Taken`); every other word it refuses (`strict_takes`).
-/

namespace Eventful.Directive

variable {name word w attr : String} {cs : List Char} {n : Nat} {front : List String}

/-! ## The names -/

def modifierNames : List String := ["ctrl", "control", "shift", "alt", "option", "meta", "cmd", "command", "super"]

/-- `f` and the number, with a plus and zeros between. -/
def functionName (plus : Bool) (zeros n : Nat) : String :=
  String.ofList ('f' :: ((if plus then ['+'] else []) ++ (List.replicate zeros '0' ++ Nat.toDigits 10 n)))

/-- The names of keys. -/
inductive Listed (name : String) : Prop where
  | modifier (h : name ∈ modifierNames)
  | canonical (h : name ∈ keysOfName.map Prod.fst)
  | spelling (h : name ∈ spellings.map Prod.fst)
  | plain (h : name ∈ plainNames)
  | character (h : name.length = 1)
  | function (n : Nat) (hfirst : 1 ≤ n) (hlast : n ≤ 24) (h : name = "f" ++ toString n)

/-- What a strict chain takes as a key. -/
inductive Taken (name : String) : Prop where
  | listed (h : Listed name)
  | padded (plus : Bool) (zeros n : Nat) (hpad : plus = true ∨ 0 < zeros) (hfirst : 1 ≤ n) (hlast : n ≤ 24)
      (h : name = functionName plus zeros n)
  /-- Several digits that write a number of 64 bits. -/
  | number (a : Amount) (hscale : a.scale = .bare) (hlong : 1 < a.digits.length) (hfits : a.number < UInt64.size)
      (h : name = a.text)

theorem modifierKey_isSome : (ModifierKey.ofName? name).isSome = true ↔ Text.lower name ∈ modifierNames := by
  unfold ModifierKey.ofName? modifierNames
  split <;> simp_all

theorem aliases_isEmpty : (aliases name).isEmpty = false ↔
    Text.lower name ∈ keysOfName.map Prod.fst ∨ Text.lower name ∈ spellings.map Prod.fst := by
  have hnames : ∀ s ∈ keysOfName.map Prod.fst ++ spellings.map Prod.fst,
      ((keysOfName.lookup (canonical s)).getD []).isEmpty = false := by
    decide
  constructor
  · intro h
    unfold aliases at h
    cases hlookup : keysOfName.lookup (canonical (Text.lower name)) with
    | none =>
      rw [hlookup] at h
      cases h
    | some keys =>
      obtain ⟨before, after, he, -⟩ := List.lookup_eq_some_iff.mp hlookup
      have hmem : canonical (Text.lower name) ∈ keysOfName.map Prod.fst := by simp [he]
      rcases canonical_cases (Text.lower name) with hsame | hspelling
      · exact .inl (hsame ▸ hmem)
      · exact .inr (List.mem_map_of_mem hspelling)
  · exact fun h => hnames _ (List.mem_append.mpr h)

theorem functionName_plain (n : Nat) : functionName false 0 n = "f" ++ toString n := by
  refine String.toList_injective ?_
  rw [functionName, Nat.toString_eq_ofList_toDigits]
  simp

/-! ## Function keys -/

theorem byte?_eq_some_iff : byte? cs = some n ↔
    ∃ (plus : Bool) (ds : List Char), cs = (if plus then ['+'] else []) ++ ds ∧ ds ≠ [] ∧
      (∀ d ∈ ds, d.isDigit = true) ∧ decimal ds = n ∧ n < 256 := by
  constructor
  · intro h
    unfold byte? at h
    dsimp only at h
    split at h
    · rename_i ds
      exact ⟨true, ds, rfl, digits_eq_some_iff.mp h⟩
    · exact ⟨false, cs, rfl, digits_eq_some_iff.mp h⟩
  · rintro ⟨plus, ds, rfl, hds⟩
    cases plus with
    | true => exact digits_eq_some_iff.mpr hds
    | false =>
      show byte? ds = some n
      unfold byte?
      dsimp only
      split
      · cases hds.2.1 '+' List.mem_cons_self
      · exact digits_eq_some_iff.mpr hds

theorem decimal_zeros (k n : Nat) : decimal (List.replicate k '0' ++ Nat.toDigits 10 n) = n := by
  show Number.natOfDigits _ = n
  rw [Number.natOfDigits_eq, Nat.ofDigitChars_append, Nat.ofDigitChars_replicate_zero, Nat.mul_zero,
    Nat.ofDigitChars_ten_toDigits]

theorem isFunctionKey_iff : isFunctionKey name = true ↔
    ∃ plus zeros n, 1 ≤ n ∧ n ≤ 24 ∧ name = functionName plus zeros n := by
  constructor
  · intro h
    unfold isFunctionKey at h
    split at h
    · rename_i cs hname
      obtain ⟨n, hbyte, hrange⟩ := (Option.any_eq_true _ _).mp h
      obtain ⟨hfirst, hlast⟩ := (Bool.and_eq_true_iff.mp hrange).imp of_decide_eq_true of_decide_eq_true
      obtain ⟨plus, ds, rfl, -, hds, rfl, -⟩ := byte?_eq_some_iff.mp hbyte
      -- The number is positive, so its own digits come after the zeros.
      obtain ⟨zeros, hzeros⟩ : ∃ zeros, ds = List.replicate zeros '0' ++ Nat.toDigits 10 (decimal ds) :=
        Number.zeros_digits hds hfirst
      refine ⟨plus, zeros, decimal ds, hfirst, hlast, String.toList_injective ?_⟩
      rw [hname, functionName, String.toList_ofList, ← hzeros]
    · cases h
  · rintro ⟨plus, zeros, n, hfirst, hlast, rfl⟩
    have hbyte : byte? ((if plus then ['+'] else []) ++ (List.replicate zeros '0' ++ Nat.toDigits 10 n)) = some n := by
      refine byte?_eq_some_iff.mpr ⟨plus, _, rfl, ?_, ?_, decimal_zeros zeros n, by omega⟩
      · exact List.append_ne_nil_of_right_ne_nil _ Nat.toDigits_ne_nil
      · intro d hd
        rcases List.mem_append.mp hd with hd | hd
        · rw [List.eq_of_mem_replicate hd]
          rfl
        · exact Nat.isDigit_of_mem_toDigits (by decide) (by decide) hd
    unfold isFunctionKey functionName
    rw [String.toList_ofList]
    simp [hbyte, hfirst, hlast]

theorem isKnownKey_iff : isKnownKey name = true ↔
    Listed (Text.lower name) ∨ ∃ plus zeros n, 1 ≤ n ∧ n ≤ 24 ∧ Text.lower name = functionName plus zeros n := by
  unfold isKnownKey
  simp only [Bool.or_eq_true, Bool.not_eq_true', beq_iff_eq, List.contains_iff_mem, isFunctionKey_iff,
    modifierKey_isSome, aliases_isEmpty, Text.lower_lower]
  constructor
  · rintro ((((h | h | h) | h) | h) | h)
    · exact .inl (.modifier h)
    · exact .inl (.canonical h)
    · exact .inl (.spelling h)
    · exact .inl (.character h)
    · exact .inl (.plain h)
    · exact .inr h
  · rintro ((h | h | h | h | h | ⟨n, hfirst, hlast, h⟩) | h)
    · exact .inl (.inl (.inl (.inl h)))
    · exact .inl (.inl (.inl (.inr (.inl h))))
    · exact .inl (.inl (.inl (.inr (.inr h))))
    · exact .inl (.inr h)
    · exact .inl (.inl (.inr h))
    · exact .inr ⟨false, 0, n, hfirst, hlast, h.trans (functionName_plain n).symm⟩
    · exact .inr h

/-! ## Words -/

theorem isNumber_iff : (Word.ofText word).isNumber = true ↔
    ∃ a : Amount, a.scale = .bare ∧ a.number < UInt64.size ∧ word = a.text := by
  constructor
  · intro h
    unfold Word.ofText at h
    dsimp only at h
    split at h
    · cases h
    split at h
    · cases h
    split at h
    · rename_i n hcount
      obtain ⟨hne, hds, rfl, hfits⟩ := count?_eq_some_iff.mp hcount
      refine ⟨⟨word.toList, .bare, hne, hds⟩, rfl, hfits, ?_⟩
      rw [Amount.text, Scale.chars, List.append_nil, String.ofList_toList]
    · cases h
  · rintro ⟨a, hscale, hfits, rfl⟩
    rw [ofText_amount, Amount.word, Amount.wait?, if_pos hfits, hscale]
    rfl

/-- A word is taken that is a known key or a number. -/
theorem taken_iff (hlower : Text.lower name = name) :
    Taken name ↔ isKnownKey name = true ∨ (Word.ofText name).isNumber = true := by
  rw [isKnownKey_iff, isNumber_iff, hlower]
  constructor
  · rintro (h | ⟨plus, zeros, n, -, hfirst, hlast, h⟩ | ⟨a, hscale, -, hfits, h⟩)
    · exact .inl (.inl h)
    · exact .inl (.inr ⟨plus, zeros, n, hfirst, hlast, h⟩)
    · exact .inr ⟨a, hscale, hfits, h⟩
  · rintro ((h | ⟨plus, zeros, n, hfirst, hlast, h⟩) | ⟨a, hscale, hfits, h⟩)
    · exact .listed h
    · by_cases hpad : plus = true ∨ 0 < zeros
      · exact .padded plus zeros n hpad hfirst hlast h
      · obtain ⟨rfl, rfl⟩ : plus = false ∧ zeros = 0 := by simpa using hpad
        exact .listed (.function n hfirst hlast (h.trans (functionName_plain n)))
    · by_cases hlong : 1 < a.digits.length
      · exact .number a hscale hlong hfits h
      · -- A digit alone is a single character.
        refine .listed (.character ?_)
        have hdigits : 0 < a.digits.length := List.length_pos_iff.mpr a.ne_nil
        rw [h, Amount.text, hscale, String.length_ofList, Scale.chars, List.append_nil]
        omega

theorem isKnownKey_control {m : Modifier} (h : controlWord? word = some m) : isKnownKey word = false := by
  have hwords : ∀ p ∈ controlWords, isKnownKey p.1 = false := by decide
  exact hwords (word, m) (controlWord_iff.mp h)

/-- What is taken is neither a control word nor a duration. -/
theorem plain_of_taken (hlower : Text.lower name = name) (h : Taken name) :
    controlWord? name = none ∧ ∀ n, Word.ofText name ≠ .duration n := by
  have h := (taken_iff hlower).mp h
  constructor
  · refine Option.eq_none_iff_forall_ne_some.mpr fun m hc => ?_
    rw [isKnownKey_control hc, ofText_control hc] at h
    exact h.elim nofun nofun
  · intro n hn
    rw [isKnownKey_duration hn, hn] at h
    exact h.elim nofun nofun

/-- Where it is neither a control word nor a wait, a word is taken or offends. -/
theorem taken_iff_not_offends (hlower : Text.lower word = word) (hc : controlWord? word = none)
    (hg : gives? front word = none) : Taken word ↔ ¬Offends front word := by
  rw [taken_iff hlower]
  constructor
  · rintro (hknown | hnumber) ho
    · exact Bool.false_ne_true (ho.notKey ▸ hknown)
    · exact Bool.false_ne_true (ho.notNumber ▸ hnumber)
  · intro h
    by_contra hneither
    rw [not_or, Bool.not_eq_true, Bool.not_eq_true] at hneither
    exact h ⟨hc, hg, hneither.2, hneither.1⟩

/-! ## Chains -/

theorem wordsOf_word (hdots : '.' ∉ w.toList) (hne : w ≠ "") : wordsOf w = [Text.lower w] := by
  have hsplit : w.toList.splitOn '.' = [w.toList] :=
    List.splitOnP_eq_singleton fun c hc => beq_eq_false_iff_ne.mpr fun he => hdots (he ▸ hc)
  unfold wordsOf
  rw [hsplit]
  simp [hne]

theorem lower_of_mem_wordsOf {raw : String} (h : word ∈ wordsOf raw) : Text.lower word = word := by
  obtain ⟨part, -, rfl⟩ := List.mem_map.mp h
  exact Text.lower_lower part

/-- A word alone. -/
theorem readChain_word (hdots : '.' ∉ w.toList) (hne : w ≠ "") :
    readChain (some attr) w =
      if Offends [] (Text.lower w) then .error (.unknownModifier (Text.lower w) attr)
      else .ok (reading [] (Text.lower w) []) := by
  have hwords : wordsOf w = [] ++ Text.lower w :: [] := wordsOf_word hdots hne
  split_ifs with h
  · exact readChain_offends attr hwords accepted_nil h
  · rw [readChain_accepted w attr (hwords ▸ accepted_cons.mpr ⟨h, accepted_nil⟩), modifiersOf_eq, hwords]
    exact congrArg Except.ok (List.append_nil _)

theorem not_taken_empty : ¬Taken "" := by
  rw [taken_iff rfl]
  decide

theorem word_taken (hdots : '.' ∉ w.toList) :
    readChain (some attr) w = .ok [.key (Text.lower w)] ↔ Taken (Text.lower w) := by
  by_cases hne : w = ""
  · subst hne
    exact iff_of_false nofun not_taken_empty
  have hlower := Text.lower_lower w
  rw [readChain_word hdots hne]
  constructor
  · intro h
    split_ifs at h with hoffends
    have hreading : reading [] (Text.lower w) [] = [.key (Text.lower w)] := Except.ok.inj h
    obtain ⟨-, hc, hg, -⟩ := key_mem_reading.mp (hreading ▸ List.mem_singleton_self (Modifier.key (Text.lower w)))
    exact (taken_iff_not_offends hlower hc hg).mpr hoffends
  · intro h
    obtain ⟨hc, -⟩ := plain_of_taken hlower h
    have hoffends : ¬Offends [] (Text.lower w) := (taken_iff_not_offends hlower hc rfl).mp h
    rw [if_neg hoffends, reading, if_neg hoffends, hc]
    rfl

theorem word_refused (hdots : '.' ∉ w.toList) (hne : w ≠ "") (h : ¬Taken (Text.lower w))
    (hc : controlWord? (Text.lower w) = none) :
    readChain (some attr) w = .error (.unknownModifier (Text.lower w) attr) := by
  have hgives : gives? [] (Text.lower w) = none := rfl
  have hoffends := mt (taken_iff_not_offends (Text.lower_lower w) hc hgives).mpr h
  rw [readChain_word hdots hne, if_pos (not_not.mp hoffends)]

/-- A strict chain takes a word as a key exactly if it is the name of a key, the padded name of a
    function key or a number, and refuses it if it is none of these and no control word. So it
    does wherever the word stands, but where it is the wait of a `debounce`. -/
theorem strict_takes (attr : String) :
    (∀ w, '.' ∉ w.toList →
        (readChain (some attr) w = .ok [.key (Text.lower w)] ↔ Taken (Text.lower w)) ∧
          (w ≠ "" → ¬Taken (Text.lower w) → controlWord? (Text.lower w) = none →
            readChain (some attr) w = .error (.unknownModifier (Text.lower w) attr))) ∧
      ∀ raw ms, readChain (some attr) raw = .ok ms → ∀ name, .key name ∈ ms ↔
        Taken name ∧ ∃ front back, wordsOf raw = front ++ name :: back ∧ gives? front name = none := by
  refine ⟨fun w hdots => ⟨word_taken hdots, word_refused hdots⟩, fun raw ms hread name => ?_⟩
  obtain ⟨haccepted, rfl⟩ := accepted_of_ok hread
  have hlower (front back) (hwords : wordsOf raw = front ++ name :: back) : Text.lower name = name :=
    lower_of_mem_wordsOf (hwords ▸ List.mem_append_right front List.mem_cons_self)
  rw [key_mem_modifiersOf]
  constructor
  · rintro ⟨front, back, hwords, hc, hg, -⟩
    exact ⟨(taken_iff_not_offends (hlower front back hwords) hc hg).mpr (haccepted front name back hwords),
      front, back, hwords, hg⟩
  · rintro ⟨htaken, front, back, hwords, hg⟩
    obtain ⟨hc, hduration⟩ := plain_of_taken (hlower front back hwords) htaken
    exact ⟨front, back, hwords, hc, hg, hduration⟩

theorem f24_taken :
    '.' ∉ "F24".toList ∧ readChain (some "@keydown.F24") "F24" = .ok [.key "f24"] ∧
    '.' ∉ "f25".toList ∧ readChain (some "@keydown.f25") "f25" = .error (.unknownModifier "f25" "@keydown.f25") ∧
    (.key "enter" : Modifier) ∈ [Modifier.key "cmd", .key "enter", .debounce (some 100)] ∧ Taken "enter" := by
  have hlast : Taken "f24" := .listed (.function 24 (by decide) (by decide) (by decide))
  have hbeyond : ¬Taken "f25" := by
    rw [taken_iff rfl]
    decide
  have hchain := (strict_takes "@keydown").2 "cmd.enter.debounce.100ms" [.key "cmd", .key "enter", .debounce (some 100)]
    (by decide) "enter"
  refine ⟨by decide, ((strict_takes _).1 "F24" (by decide)).1.mpr hlast, by decide,
    ((strict_takes _).1 "f25" (by decide)).2 (by decide) hbeyond (by decide), by decide, (hchain.mp (by decide)).1⟩

/-- The number of a function key may be padded, and a number is no key but is taken for one. -/
theorem f01_taken :
    readChain (some "@keydown.f01") "f01" = .ok [.key "f01"] ∧ ¬Listed "f01" ∧
    readChain (some "@keydown.f+5") "f+5" = .ok [.key "f+5"] ∧ ¬Listed "f+5" ∧
    readChain (some "@keydown.12") "12" = .ok [.key "12"] ∧ ¬Listed "12" := by
  have hfunctions : ∀ n ∈ List.range 25, "f" ++ toString n ∉ ["f01", "f+5", "12"] := by decide
  have hothers : ∀ name ∈ ["f01", "f+5", "12"], name ∉ modifierNames ∧ name ∉ keysOfName.map Prod.fst ∧
      name ∉ spellings.map Prod.fst ∧ name ∉ plainNames ∧ name.length ≠ 1 := by
    decide
  have hunlisted : ∀ name ∈ ["f01", "f+5", "12"], ¬Listed name := by
    intro name hname hlisted
    obtain ⟨hmodifier, hcanonical, hspelling, hplain, hcharacter⟩ := hothers name hname
    cases hlisted with
    | modifier h => exact hmodifier h
    | canonical h => exact hcanonical h
    | spelling h => exact hspelling h
    | plain h => exact hplain h
    | character h => exact hcharacter h
    | function n _ hlast h => exact hfunctions n (List.mem_range.mpr (by omega)) (h ▸ hname)
  exact ⟨by decide, hunlisted _ (by decide), by decide, hunlisted _ (by decide), by decide, hunlisted _ (by decide)⟩

end Eventful.Directive
