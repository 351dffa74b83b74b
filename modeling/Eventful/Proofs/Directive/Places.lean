import Eventful.Proofs.Directive.Chain

/-
  Eventful.Proofs.Directive.Places — what a word is read as where it stands.

  The words before a word say whether it gives a debounce its wait (`gives?`), and so whether
  it has any business there (`Offends`). A chain that is read loosely is every word's reading
  in turn (`readings`); read strictly, it is the same unless a word offends, and then the
  first such word is its error.

  - `strict_reads_as_loose`: the two readings of a chain, and what each comes to.
  - `amount_places`: where digits and a unit are a wait, and where they are a key after all.
-/

namespace Eventful.Directive

variable {before words after : List String} {word attr : String} {strict : Option String} {read : List Modifier}
  {wait : Option Nat} {m : Modifier}

/-! ## Places -/

/-- The wait that a word gives to a `debounce` that is the word right before it. -/
def gives? (before : List String) (word : String) : Option Nat :=
  if before.getLast? = some "debounce" then (Word.ofText word).wait? else none

def Word.isNumber : Word → Bool
  | .number _ => true
  | _ => false

/-- The word has no business where it stands. -/
structure Offends (before : List String) (word : String) : Prop where
  notControl : controlWord? word = none
  notRefining : gives? before word = none
  notNumber : (Word.ofText word).isNumber = false
  notKey : isKnownKey word = false

instance : Decidable (Offends before word) :=
  decidable_of_iff
    (controlWord? word = none ∧ gives? before word = none ∧ (Word.ofText word).isNumber = false ∧ isKnownKey word = false)
    ⟨fun ⟨hc, hg, hn, hk⟩ => ⟨hc, hg, hn, hk⟩, fun ⟨hc, hg, hn, hk⟩ => ⟨hc, hg, hn, hk⟩⟩

/-- No word offends, when `before` stands before them all. -/
def Accepted (before words : List String) : Prop :=
  ∀ front word back, words = front ++ word :: back → ¬Offends (before ++ front) word

/-- What a word is read as. Of the words that offend, a duration is nothing and any other
    word is a key. -/
def reading (before : List String) (word : String) (after : List String) : List Modifier :=
  if Offends before word then
    match Word.ofText word with
    | .duration _ => []
    | _ => [.key word]
  else
    match controlWord? word with
    | some (.debounce _) => [.debounce (after.head?.bind (gives? (before ++ [word])))]
    | some m => [m]
    | none => if (gives? before word).isSome then [] else [.key word]

/-- What words are read as, in their order. -/
def readings (before : List String) : List String → List Modifier
  | [] => []
  | word :: after => reading before word after ++ readings (before ++ [word]) after

/-- A duration counts only right after `debounce`, and a word that no key has never does. -/
example : readings [] ["5s", "debounce", "100", "7", "enter", "nokey"] =
      [.debounce (some 100), .key "7", .key "enter", .key "nokey"] ∧
    ¬Accepted [] ["enter", "5s"] ∧ ¬Accepted [] ["nokey"] := by
  refine ⟨by decide, fun h => h ["enter"] "5s" [] rfl (by decide), fun h => h [] "nokey" [] rfl (by decide)⟩

theorem accepted_nil : Accepted before [] := fun front word back h => by simp at h

theorem accepted_cons : Accepted before (word :: words) ↔ ¬Offends before word ∧ Accepted (before ++ [word]) words := by
  constructor
  · intro h
    refine ⟨fun ho => h [] word words rfl ((List.append_nil before).symm ▸ ho), fun front later back hw ho => ?_⟩
    refine h (word :: front) later back (congrArg (word :: ·) hw) ?_
    rwa [List.append_assoc] at ho
  · rintro ⟨hword, hrest⟩ front later back hw ho
    cases front with
    | nil =>
      cases hw
      exact hword (List.append_nil before ▸ ho)
    | cons first front =>
      cases hw
      refine hrest front later back rfl ?_
      rwa [List.append_assoc]

/-- Words are accepted, or there is a first one that offends. -/
theorem accepted_or_offends (before words : List String) :
    Accepted before words ∨
      ∃ front word back, words = front ++ word :: back ∧ Accepted before front ∧ Offends (before ++ front) word := by
  induction words generalizing before with
  | nil => exact .inl accepted_nil
  | cons word words ih =>
    by_cases hword : Offends before word
    · exact .inr ⟨[], word, words, rfl, accepted_nil, (List.append_nil before).symm ▸ hword⟩
    rcases ih (before ++ [word]) with h | ⟨front, later, back, rfl, hfront, hlater⟩
    · exact .inl (accepted_cons.mpr ⟨hword, h⟩)
    · refine .inr ⟨word :: front, later, back, rfl, accepted_cons.mpr ⟨hword, hfront⟩, ?_⟩
      rwa [List.append_assoc] at hlater

/-! ## What a word may be -/

theorem ofText_control (h : controlWord? word = some m) : Word.ofText word = .other := by
  have hwords : ∀ p ∈ controlWords, Word.ofText p.1 = .other := by decide
  exact hwords (word, m) (controlWord_iff.mp h)

theorem debounce_of_control (h : controlWord? word = some (.debounce wait)) : word = "debounce" ∧ wait = none := by
  have hwords : ∀ p ∈ controlWords, p.2.sort = .debounce none → p = ("debounce", .debounce none) := by decide
  cases hwords _ (controlWord_iff.mp h) rfl
  exact ⟨rfl, rfl⟩

theorem isKnownKey_duration {n : Nat} (h : Word.ofText word = .duration n) : isKnownKey word = false := by
  obtain ⟨a, hscale, rfl⟩ := amount_of_duration h
  exact isKnownKey_amount hscale

theorem gives?_control (h : controlWord? word = some m) : gives? before word = none := by
  unfold gives?
  rw [ofText_control h]
  split <;> rfl

/-- Only right after `debounce` does a word give a wait. -/
theorem gives?_of_ne (h : word ≠ "debounce") (next : String) : gives? (before ++ [word]) next = none := by
  unfold gives?
  rw [if_neg (by simpa using h)]

/-! ## One word -/

/-- The modifiers that were read, with the wait for a `debounce` that stands open. -/
def give (wait : Option Nat) : List Modifier → List Modifier
  | .debounce none :: read => .debounce wait :: read
  | read => read

/-- A `debounce` stands open if it is the last word read. -/
def Held (before : List String) (read : List Modifier) : Prop := refines read = true ↔ before.getLast? = some "debounce"

/-- What one word adds to the modifiers: a `debounce` stands open at first. -/
def added (before : List String) (word : String) : List Modifier :=
  match controlWord? word, gives? before word, Word.ofText word with
  | some m, _, _ => [m]
  | none, some _, _ => []
  | none, none, .duration _ => []
  | none, none, _ => [.key word]

theorem give_none (read : List Modifier) : give none read = read := by
  unfold give
  split <;> rfl

theorem held_nil : Held [] [] := by simp [Held, refines]

/-- What becomes of a word: it is a control word, a wait, a stray duration or a key. -/
inductive Becomes (before : List String) (word : String) : Prop where
  | control (m : Modifier) (hc : controlWord? word = some m) (ha : added before word = [m])
  | wait (n : Nat) (hc : controlWord? word = none) (hg : gives? before word = some n) (ha : added before word = [])
  | stray (n : Nat) (hc : controlWord? word = none) (hg : gives? before word = none) (hw : Word.ofText word = .duration n)
      (ha : added before word = [])
  | key (hc : controlWord? word = none) (hg : gives? before word = none) (hw : ∀ n, Word.ofText word ≠ .duration n)
      (ha : added before word = [.key word])

theorem becomes (before : List String) (word : String) : Becomes before word := by
  cases hc : controlWord? word with
  | some m => exact .control m hc (by unfold added; rw [hc])
  | none =>
    cases hg : gives? before word with
    | some n => exact .wait n hc hg (by unfold added; rw [hc, hg])
    | none =>
      cases hw : Word.ofText word with
      | duration n => exact .stray n hc hg hw (by unfold added; rw [hc, hg, hw])
      | _ => exact .key hc hg (fun n => by rw [hw]; exact nofun) (by unfold added; rw [hc, hg, hw])

theorem ne_debounce (h : controlWord? word = none) : word ≠ "debounce" := by
  rintro rfl
  cases h

theorem gives?_eq_some {n : Nat} (hh : Held before read) (hg : gives? before word = some n) :
    (∃ rest, read = .debounce none :: rest) ∧ (Word.ofText word).wait? = some n := by
  obtain ⟨hlast, hwait⟩ := Option.ite_none_right_eq_some.mp hg
  exact ⟨refines_iff.mp (hh.mpr hlast), hwait⟩

theorem gives?_eq_none (hh : Held before read) (hg : gives? before word = none) (hr : refines read = true) :
    (Word.ofText word).wait? = none := by
  rwa [gives?, if_pos (hh.mp hr)] at hg

/-- One more word of a loose chain. -/
theorem readWord_loose (hh : Held before read) :
    readWord none read word = .ok (added before word ++ give (gives? before word) read) := by
  cases becomes before word with
  | control m hc ha => rw [ha, readWord_control hc, gives?_control hc, give_none, List.singleton_append]
  | wait n hc hg ha =>
    obtain ⟨⟨rest, rfl⟩, hwait⟩ := gives?_eq_some hh hg
    rw [ha, readWord_wait hc hwait, hg]
    rfl
  | stray n hc hg hw ha => rw [ha, readWord_alone hc (gives?_eq_none hh hg), hg, give_none, hw, List.nil_append]
  | key hc hg hw ha =>
    rw [ha, readWord_alone hc (gives?_eq_none hh hg), hg, give_none, List.singleton_append]
    cases h : Word.ofText word with
    | duration n => exact absurd h (hw n)
    | _ => rfl

theorem held_readWord (hh : Held before read) :
    Held (before ++ [word]) (added before word ++ give (gives? before word) read) := by
  unfold Held
  rw [List.getLast?_concat, Option.some.injEq]
  cases becomes before word with
  | control m hc ha =>
    rw [ha]
    constructor
    · intro hr
      obtain ⟨_, he⟩ := refines_iff.mp hr
      cases he
      exact (debounce_of_control hc).1
    · rintro rfl
      cases hc
      rfl
  | wait n hc hg ha =>
    obtain ⟨⟨rest, rfl⟩, -⟩ := gives?_eq_some hh hg
    rw [ha, hg]
    exact iff_of_false Bool.false_ne_true (ne_debounce hc)
  | stray n hc hg hw ha =>
    -- Had a debounce stood open before it, the duration would be its wait.
    refine iff_of_false (fun hr => ?_) (ne_debounce hc)
    rw [ha, hg, give_none, List.nil_append] at hr
    cases (hw ▸ gives?_eq_none hh hg hr : (Word.duration n).wait? = none)
  | key hc hg hw ha =>
    rw [ha]
    exact iff_of_false Bool.false_ne_true (ne_debounce hc)

theorem offends_stray {n : Nat} (hc : controlWord? word = none) (hg : gives? before word = none)
    (hw : Word.ofText word = .duration n) : Offends before word :=
  ⟨hc, hg, by rw [hw]; rfl, isKnownKey_duration hw⟩

theorem not_offends_control (hc : controlWord? word = some m) : ¬Offends before word := fun h => nomatch hc ▸ h.notControl

theorem not_offends_wait {n : Nat} (hg : gives? before word = some n) : ¬Offends before word :=
  fun h => nomatch hg ▸ h.notRefining

/-- A word of a strict chain is read as in a loose one, unless it offends. -/
theorem readWord_strict (hh : Held before read) :
    readWord (some attr) read word =
      if Offends before word then .error (.unknownModifier word attr) else readWord none read word := by
  cases becomes before word with
  | control m hc ha => rw [if_neg (not_offends_control hc), readWord_control hc, readWord_control hc]
  | wait n hc hg ha =>
    obtain ⟨⟨rest, rfl⟩, hwait⟩ := gives?_eq_some hh hg
    rw [if_neg (not_offends_wait hg), readWord_wait hc hwait, readWord_wait hc hwait]
  | stray n hc hg hw ha => rw [if_pos (offends_stray hc hg hw), readWord_alone hc (gives?_eq_none hh hg), hw]
  | key hc hg hw ha =>
    rw [readWord_alone hc (gives?_eq_none hh hg), readWord_alone hc (gives?_eq_none hh hg)]
    cases h : Word.ofText word with
    | duration n => exact absurd h (hw n)
    | number n => rw [if_neg fun ho => nomatch h ▸ ho.notNumber]
    | other =>
      cases hk : isKnownKey word with
      | true =>
        rw [if_neg fun ho => nomatch hk ▸ ho.notKey]
        rfl
      | false =>
        rw [if_pos ⟨hc, hg, by rw [h]; rfl, hk⟩]
        rfl

/-- A word's reading is what it adds, with the wait that the next word gives it. -/
theorem reading_eq :
    reading before word after = give (after.head?.bind (gives? (before ++ [word]))) (added before word) := by
  unfold reading
  cases becomes before word with
  | control m hc ha =>
    rw [if_neg (not_offends_control hc), hc, ha]
    cases m with
    | debounce wait =>
      cases (debounce_of_control hc).2
      rfl
    | _ => rfl
  | wait n hc hg ha =>
    rw [if_neg (not_offends_wait hg), hc, hg, ha]
    rfl
  | stray n hc hg hw ha =>
    rw [if_pos (offends_stray hc hg hw), hw, ha]
    rfl
  | key hc hg hw ha =>
    rw [hc, hg, ha]
    split
    · split
      · rename_i n hn
        exact absurd hn (hw n)
      · rfl
    · rfl

/-- Nothing more comes to a word's own modifier but the wait that the next word gives it. -/
theorem give_added : give (after.head?.bind (gives? (before ++ [word]))) (added before word ++ read) =
    reading before word after ++ read := by
  have hclosed (h : controlWord? word = none) : after.head?.bind (gives? (before ++ [word])) = none := by
    cases after with
    | nil => rfl
    | cons next after => exact gives?_of_ne (ne_debounce h) next
  rw [reading_eq]
  cases becomes before word with
  | control m hc ha =>
    rw [ha]
    cases m with
    | debounce wait =>
      cases (debounce_of_control hc).2
      rfl
    | _ => rfl
  | wait n hc hg ha => rw [ha, hclosed hc, give_none, give_none]
  | stray n hc hg hw ha => rw [ha, hclosed hc, give_none, give_none]
  | key hc hg hw ha =>
    rw [ha]
    rfl

theorem reverse_reading : (reading before word after).reverse = reading before word after := by
  unfold reading
  repeat' split
  all_goals rfl

/-! ## Chains -/

/-- The words of a loose chain, after others: each is what it is read as, and the first one
    may give its wait to the last before. -/
theorem readWords_loose (hh : Held before read) :
    readWords none read words = .ok ((give (words.head?.bind (gives? before)) read).reverse ++ readings before words) := by
  induction words generalizing before read with
  | nil => simp [readWords, readings, give_none]
  | cons word after ih =>
    simp only [readWords, readWord_loose hh, ih (held_readWord hh), give_added, readings, List.head?_cons, Option.bind_some,
      List.reverse_append, reverse_reading, List.append_assoc]

theorem readWords_accepted (hh : Held before read) (haccepted : Accepted before words) :
    readWords (some attr) read words = readWords none read words := by
  induction words generalizing before read with
  | nil => rfl
  | cons word after ih =>
    obtain ⟨hword, hafter⟩ := accepted_cons.mp haccepted
    rw [readWords, readWords, readWord_strict hh, if_neg hword, readWord_loose hh]
    exact ih (held_readWord hh) hafter

/-- A strict chain is not read beyond the first word that offends. -/
theorem readWords_offends (hh : Held before read) (haccepted : Accepted before words)
    (hword : Offends (before ++ words) word) :
    readWords (some attr) read (words ++ word :: after) = .error (.unknownModifier word attr) := by
  induction words generalizing before read with
  | nil =>
    rw [List.append_nil] at hword
    rw [List.nil_append, readWords, readWord_strict hh, if_pos hword]
  | cons first words ih =>
    obtain ⟨hfirst, hwords⟩ := accepted_cons.mp haccepted
    rw [List.cons_append, readWords, readWord_strict hh, if_neg hfirst, readWord_loose hh]
    refine ih (held_readWord hh) hwords ?_
    rwa [List.append_assoc]

theorem readChain_loose (raw : String) : readChain none raw = .ok (readings [] (wordsOf raw)) := by
  have hnone : (wordsOf raw).head?.bind (gives? []) = none := by cases wordsOf raw <;> rfl
  rw [readChain, readWords_loose held_nil, hnone]
  rfl

theorem modifiersOf_eq (raw : String) : modifiersOf raw = readings [] (wordsOf raw) := by
  unfold modifiersOf
  rw [readChain_loose]

theorem readChain_accepted (raw attr : String) (h : Accepted [] (wordsOf raw)) :
    readChain (some attr) raw = .ok (modifiersOf raw) := by
  rw [modifiersOf_eq, ← readChain_loose]
  exact readWords_accepted held_nil h

theorem readChain_offends {raw : String} (attr : String) (hwords : wordsOf raw = before ++ word :: after)
    (hbefore : Accepted [] before) (hword : Offends before word) :
    readChain (some attr) raw = .error (.unknownModifier word attr) := by
  rw [readChain, hwords]
  exact readWords_offends held_nil hbefore hword

/-- A strict chain that reads has no word that offends. -/
theorem accepted_of_ok {raw : String} {ms : List Modifier} (h : readChain (some attr) raw = .ok ms) :
    Accepted [] (wordsOf raw) ∧ ms = modifiersOf raw := by
  rcases accepted_or_offends [] (wordsOf raw) with haccepted | ⟨before, word, after, hwords, hbefore, hword⟩
  · cases (readChain_accepted raw attr haccepted).symm.trans h
    exact ⟨haccepted, rfl⟩
  · cases (readChain_offends attr hwords hbefore hword).symm.trans h

/-- A strict chain reads as a loose one if none of its words offends, and is otherwise refused
    for the first that does. A loose chain always reads, and every word of it is what it is
    read as where it stands. -/
theorem strict_reads_as_loose (raw attr : String) :
    (∀ ms, readChain (some attr) raw = .ok ms ↔ Accepted [] (wordsOf raw) ∧ ms = modifiersOf raw) ∧
      (∀ e, readChain (some attr) raw = .error e ↔
        ∃ before word after, wordsOf raw = before ++ word :: after ∧ Accepted [] before ∧ Offends before word ∧
          e = .unknownModifier word attr) ∧
      readChain none raw = .ok (modifiersOf raw) ∧ modifiersOf raw = readings [] (wordsOf raw) := by
  refine ⟨fun ms => ⟨accepted_of_ok, ?_⟩, fun e => ⟨fun h => ?_, ?_⟩, ?_, modifiersOf_eq raw⟩
  · rintro ⟨haccepted, rfl⟩
    exact readChain_accepted raw attr haccepted
  · rcases accepted_or_offends [] (wordsOf raw) with haccepted | ⟨before, word, after, hwords, hbefore, hword⟩
    · cases (readChain_accepted raw attr haccepted).symm.trans h
    · cases (readChain_offends attr hwords hbefore hword).symm.trans h
      exact ⟨before, word, after, hwords, hbefore, hword, rfl⟩
  · rintro ⟨before, word, after, hwords, hbefore, hword, rfl⟩
    exact readChain_offends attr hwords hbefore hword
  · rw [modifiersOf_eq, readChain_loose]

/-! ## Amounts -/

theorem reading_congr {after' : List String}
    (h : after.head?.bind (gives? (before ++ [word])) = after'.head?.bind (gives? (before ++ [word]))) :
    reading before word after = reading before word after' := by
  rw [reading_eq, reading_eq, h]

/-- Words are read as on their own, if the next one gives them no wait. -/
theorem readings_append (h : gives? (before ++ words) word = none) :
    readings before (words ++ word :: after) = readings before words ++ readings (before ++ words) (word :: after) := by
  induction words generalizing before with
  | nil => simp [readings]
  | cons first words ih =>
    have hfirst : reading before first (words ++ word :: after) = reading before first words := by
      -- A reading looks no further than the next word.
      refine reading_congr ?_
      cases words with
      | nil => exact h
      | cons second words => rfl
    have hrest : readings (before ++ [first]) (words ++ word :: after) =
        readings (before ++ [first]) words ++ readings (before ++ [first] ++ words) (word :: after) :=
      ih (by rwa [List.append_assoc])
    show reading before first (words ++ word :: after) ++ readings (before ++ [first]) (words ++ word :: after) =
      (reading before first words ++ readings (before ++ [first]) words) ++ _
    rw [hfirst, hrest, List.append_assoc before, List.singleton_append, List.append_assoc]

theorem mem_readings : m ∈ readings before words ↔
    ∃ front word back, words = front ++ word :: back ∧ m ∈ reading (before ++ front) word back := by
  induction words generalizing before with
  | nil => simp [readings]
  | cons word after ih =>
    rw [readings, List.mem_append, ih]
    constructor
    · rintro (hm | ⟨front, later, back, rfl, hm⟩)
      · exact ⟨[], word, after, rfl, (List.append_nil before).symm ▸ hm⟩
      · refine ⟨word :: front, later, back, rfl, ?_⟩
        rwa [List.append_assoc] at hm
    · rintro ⟨front, later, back, he, hm⟩
      cases front with
      | nil =>
        cases he
        exact .inl (List.append_nil before ▸ hm)
      | cons first front =>
        cases he
        refine .inr ⟨front, later, back, rfl, ?_⟩
        rwa [List.append_assoc]

/-- A word is a key name where it is no control word, gives no wait and says no duration. -/
theorem key_mem_reading {name : String} : .key name ∈ reading before word after ↔
    word = name ∧ controlWord? word = none ∧ gives? before word = none ∧ ∀ n, Word.ofText word ≠ .duration n := by
  have hcontrols : ∀ p ∈ controlWords, ∀ wait name, .key name ∉ give wait [p.2] := by
    simp [controlWords, give]
  rw [reading_eq]
  cases becomes before word with
  | control m hc ha =>
    rw [ha, hc]
    exact iff_of_false (hcontrols (word, m) (controlWord_iff.mp hc) _ name) fun h => Option.some_ne_none _ h.2.1
  | wait n hc hg ha => simp [ha, hg, give]
  | stray n hc hg hw ha => simp [ha, hw, give]
  | key hc hg hw ha => simp [ha, hc, hg, hw, give, eq_comm]

theorem key_mem_modifiersOf {raw name : String} : .key name ∈ modifiersOf raw ↔
    ∃ front back, wordsOf raw = front ++ name :: back ∧ controlWord? name = none ∧ gives? front name = none ∧
      ∀ n, Word.ofText name ≠ .duration n := by
  rw [modifiersOf_eq, mem_readings]
  constructor
  · rintro ⟨front, word, back, hwords, hkey⟩
    obtain ⟨rfl, hplain⟩ := key_mem_reading.mp hkey
    exact ⟨front, back, hwords, hplain⟩
  · rintro ⟨front, back, hwords, hplain⟩
    exact ⟨front, name, back, hwords, key_mem_reading.mpr ⟨rfl, hplain⟩⟩

variable {a : Amount}

theorem controlWord_amount (a : Amount) : controlWord? a.text = none := by
  have hwords : ∀ p ∈ controlWords, startsWithDigit p.1 = false := by decide
  refine Option.eq_none_iff_forall_ne_some.mpr fun m h => ?_
  have hdigit := startsWithDigit_amount a
  rw [hwords _ (controlWord_iff.mp h)] at hdigit
  cases hdigit

theorem wait?_amount (a : Amount) : (Word.ofText a.text).wait? = a.wait? := by rw [ofText_amount, Amount.word_wait?]

/-- With a unit it is a duration, unless the number does not fit. -/
theorem no_duration_iff (hscale : a.scale ≠ .bare) :
    (∀ n, Word.ofText a.text ≠ .duration n) ↔ UInt64.size ≤ a.number := by
  rw [ofText_amount, ← Nat.not_lt]
  unfold Amount.word Amount.wait?
  split_ifs with hfits
  · cases hs : a.scale <;> simp_all
  · simp [hfits]

/-- Right after `debounce` an amount is the wait of it, or else a key. -/
theorem reading_amount (before : List String) (a : Amount) (after : List String) :
    reading before "debounce" (a.text :: after) = [.debounce a.wait?] ∧
      reading (before ++ ["debounce"]) a.text after = if a.number < UInt64.size then [] else [.key a.text] := by
  have hgives : gives? (before ++ ["debounce"]) a.text = a.wait? := by
    unfold gives?
    rw [if_pos (List.getLast?_concat ..), wait?_amount]
  constructor
  · rw [reading_eq, List.head?_cons, Option.bind_some, hgives]
    rfl
  · rw [reading_eq]
    unfold added
    rw [controlWord_amount, hgives, ofText_amount]
    unfold Amount.word Amount.wait?
    split_ifs <;> rfl

/-- Digits right after `debounce` are its wait, with a unit or without, if they write a number
    of 64 bits. Otherwise the debounce is left without, and the digits are a key; with a unit
    they are one only then, wherever they stand, and in a strict chain they never are. -/
theorem amount_places (raw : String) (a : Amount) :
    (∀ before after, wordsOf raw = before ++ "debounce" :: a.text :: after →
        modifiersOf raw = readings [] before ++ .debounce a.wait? ::
          ((if a.number < UInt64.size then [] else [.key a.text]) ++ readings (before ++ ["debounce", a.text]) after)) ∧
      (a.scale ≠ .bare →
        (.key a.text ∈ modifiersOf raw ↔ a.text ∈ wordsOf raw ∧ UInt64.size ≤ a.number) ∧
          ∀ attr ms, readChain (some attr) raw = .ok ms → .key a.text ∉ ms) := by
  refine ⟨fun before after hwords => ?_, fun hscale => ⟨⟨fun hkey => ?_, ?_⟩, fun attr ms hread hkey => ?_⟩⟩
  · obtain ⟨hdebounce, hamount⟩ := reading_amount before a after
    have hnone : gives? ([] ++ before) "debounce" = none := gives?_control rfl
    rw [modifiersOf_eq, hwords, readings_append hnone, List.nil_append, readings, readings, hdebounce, hamount,
      List.append_assoc before]
    rfl
  · obtain ⟨front, back, hwords, -, -, hduration⟩ := key_mem_modifiersOf.mp hkey
    exact ⟨hwords ▸ List.mem_append_right front List.mem_cons_self, (no_duration_iff hscale).mp hduration⟩
  · rintro ⟨hmem, hlarge⟩
    obtain ⟨front, back, hwords⟩ := List.append_of_mem hmem
    have hnone : gives? front a.text = none := by
      unfold gives?
      rw [wait?_amount, Amount.wait?, if_neg (Nat.not_lt.mpr hlarge)]
      split <;> rfl
    exact key_mem_modifiersOf.mpr
      ⟨front, back, hwords, controlWord_amount a, hnone, (no_duration_iff hscale).mpr hlarge⟩
  · obtain ⟨haccepted, rfl⟩ := accepted_of_ok hread
    obtain ⟨front, back, hwords, hcontrol, hgives, hduration⟩ := key_mem_modifiersOf.mp hkey
    have hnumber : (Word.ofText a.text).isNumber = false := by
      rw [ofText_amount, Amount.word, Amount.wait?, if_neg (Nat.not_lt.mpr ((no_duration_iff hscale).mp hduration))]
      rfl
    exact haccepted front a.text back hwords ⟨hcontrol, hgives, hnumber, isKnownKey_amount hscale⟩

/-- Two seconds are a wait right after `debounce`, and nothing anywhere else. -/
def twoSeconds : Amount := ⟨['2'], .seconds, List.cons_ne_nil _ _, List.forall_mem_singleton.mpr rfl⟩

theorem twoSeconds_places : twoSeconds.scale ≠ .bare ∧
    modifiersOf "2s.debounce.2s" = [.debounce (some 2000)] ∧ .key "2s" ∉ modifiersOf "2s.debounce.2s" := by
  have hscale : twoSeconds.scale ≠ .bare := by decide
  have hplaces := amount_places "2s.debounce.2s" twoSeconds
  refine ⟨hscale, (hplaces.1 ["2s"] [] (by decide)).trans (by decide), fun hkey => ?_⟩
  exact absurd ((hplaces.2 hscale).1.mp hkey).2 (by decide)

/-- One millisecond more than 64 bits hold. -/
def pastRange : Amount :=
  ⟨"18446744073709551616".toList, .milliseconds, by decide, List.all_eq_true.mp (by decide)⟩

/-- The debounce is left without its wait, and the amount is the name of a key. -/
theorem pastRange_key : pastRange.text = "18446744073709551616ms" ∧
    wordsOf "debounce.18446744073709551616ms" = ["debounce", pastRange.text] ∧
    modifiersOf "debounce.18446744073709551616ms" = [.debounce none, .key pastRange.text] := by
  decide

end Eventful.Directive
