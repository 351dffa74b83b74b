import Eventful.Directive.Basic
import Eventful.Proofs.Directive.Amounts
import Eventful.Proofs.Directive.Plan

/-
  Eventful.Proofs.Directive.Chain — what the words of an attribute ask for.

  A directive that was read has the modifiers that the words of its chain ask for, in their
  order (`parse_asks`). So what the directive does can be said of the attribute as it is
  written: a control word asks for what it says wherever it stands; which other words are
  key names depends on what stands before them (`keyNames`).
-/

namespace Eventful.Directive

variable {c : Config} {d : Directive} {attr expression word name : String} {words : List String} {strict : Option String}
  {read read' ms : List Modifier} {m : Modifier} {refining : Bool}

/-- The words of the chain of an attribute. -/
def chain (c : Config) (attr : String) : List String :=
  ((rest? c attr).map fun rest => wordsOf (splitName rest).2).getD []

/-! ## What a word asks for -/

/-- What a word asks for, its wait aside; `refining` if the word before it was `debounce`.
    Durations ask for nothing, nor do numbers that refine. -/
def wordAsks (refining : Bool) (word : String) : Option Modifier :=
  match controlWord? word, Word.ofText word with
  | some m, _ => some m
  | none, .duration _ => none
  | none, .number _ => if refining then none else some (.key word)
  | none, .other => some (.key word)

/-- What words ask for, in their order. -/
def asked (refining : Bool) : List String → List Modifier
  | [] => []
  | word :: words =>
    (wordAsks refining word).toList ++ asked (wordAsks refining word == some (.debounce none)) words

/-- The key names among the words. -/
def keyNames (words : List String) : List String :=
  (asked false words).filterMap fun
    | .key name => some name
    | _ => none

/-- The word before was `debounce`. -/
def refines (read : List Modifier) : Bool := read.head? == some (.debounce none)

theorem sort_controlWord (h : controlWord? word = some m) : m.sort = m := by
  unfold controlWord? at h
  split at h <;> cases h <;> rfl

theorem refines_iff : refines read = true ↔ ∃ rest, read = .debounce none :: rest := by
  unfold refines
  rw [beq_iff_eq, List.head?_eq_some_iff]

theorem readWord_control (h : controlWord? word = some m) : readWord strict read word = .ok (m :: read) := by
  unfold readWord
  rw [h]

theorem readWord_wait {rest : List Modifier} {n : Nat} (hc : controlWord? word = none) (hw : (Word.ofText word).wait? = some n) :
    readWord strict (.debounce none :: rest) word = .ok (.debounce (some n) :: rest) := by
  unfold readWord
  rw [hc]
  dsimp only
  rw [hw]

/-- A word that is no control word and refines nothing: here alone a chain is strict or not. -/
theorem readWord_alone (hc : controlWord? word = none) (hn : refines read = true → (Word.ofText word).wait? = none) :
    readWord strict read word =
      match Word.ofText word, strict with
      | .duration _, some attr => .error (.unknownModifier word attr)
      | .duration _, none => .ok read
      | .number _, _ => .ok (.key word :: read)
      | .other, some attr => if isKnownKey word then .ok (.key word :: read) else .error (.unknownModifier word attr)
      | .other, none => .ok (.key word :: read) := by
  unfold readWord
  rw [hc]
  dsimp only
  split
  · rename_i n rest hwait
    cases hwait.symm.trans (hn rfl)
  · rfl

/-- Such a word is a modifier of its own, or is dropped. -/
theorem readWord_plain (hc : controlWord? word = none) (hn : refines read = true → (Word.ofText word).wait? = none)
    (h : readWord strict read word = .ok read') :
    read' = (wordAsks false word).toList ++ read := by
  rw [readWord_alone hc hn] at h
  unfold wordAsks
  rw [hc]
  cases hw : Word.ofText word with
  | duration n =>
    rw [hw] at h
    cases strict <;> cases h
    rfl
  | number n =>
    rw [hw] at h
    cases h
    rfl
  | other =>
    rw [hw] at h
    cases strict with
    | none =>
      cases h
      rfl
    | some attr =>
      dsimp only at h
      split at h <;> cases h
      rfl

/-- A word right after `debounce` gives it a wait, or is a modifier of its own. -/
theorem readWord_refining {rest : List Modifier} (hc : controlWord? word = none)
    (h : readWord strict (.debounce none :: rest) word = .ok read') :
    (wordAsks true word = none ∧ ∃ n, read' = .debounce (some n) :: rest) ∨
      (wordAsks true word = some (.key word) ∧ read' = .key word :: .debounce none :: rest) := by
  have hasks (refining : Bool) (hw : Word.ofText word = .other) : wordAsks refining word = some (.key word) := by
    unfold wordAsks
    rw [hc, hw]
  cases hw : Word.ofText word with
  | other =>
    have hread := readWord_plain hc (fun _ => by rw [hw]; rfl) h
    rw [hasks false hw] at hread
    exact .inr ⟨hasks true hw, hread⟩
  | _ =>
    rw [readWord_wait hc (by rw [hw]; rfl)] at h
    cases h
    exact .inl ⟨by simp [wordAsks, hc, hw], _, rfl⟩

/-- One more word: what it asks for is read, and whether the next one refines it is known. -/
theorem readWord_asks (h : readWord strict read word = .ok read') :
    read'.map Modifier.sort = (wordAsks (refines read) word).toList ++ read.map Modifier.sort ∧
      refines read' = (wordAsks (refines read) word == some (.debounce none)) := by
  cases hc : controlWord? word with
  | some m =>
    have hasks : wordAsks (refines read) word = some m := by unfold wordAsks; rw [hc]
    rw [readWord_control hc] at h
    cases h
    rw [hasks, List.map_cons, sort_controlWord hc]
    exact ⟨rfl, rfl⟩
  | none =>
    cases hr : refines read with
    | true =>
      obtain ⟨rest, rfl⟩ := refines_iff.mp hr
      rcases readWord_refining hc h with ⟨hasks, n, rfl⟩ | ⟨hasks, rfl⟩ <;> rw [hasks] <;> exact ⟨rfl, rfl⟩
    | false =>
      rw [readWord_plain hc (fun h => nomatch hr.symm.trans h) h]
      have hkey : wordAsks false word = none ∨ wordAsks false word = some (.key word) := by
        unfold wordAsks
        rw [hc]
        cases Word.ofText word with
        | duration n => exact .inl rfl
        | _ => exact .inr rfl
      rcases hkey with hasks | hasks <;> rw [hasks]
      · exact ⟨rfl, hr⟩
      · exact ⟨rfl, rfl⟩

theorem readWords_asks (h : readWords strict read words = .ok ms) :
    ms.map Modifier.sort = (read.map Modifier.sort).reverse ++ asked (refines read) words := by
  induction words generalizing read with
  | nil =>
    cases h
    simp [asked]
  | cons word words ih =>
    simp only [readWords] at h
    split at h
    · cases h
    · rename_i read' hread
      obtain ⟨hmap, hrefines⟩ := readWord_asks hread
      rw [ih h, hmap, hrefines, asked]
      cases wordAsks (refines read) word <;> simp

/-- A directive that was read has what the words of its chain ask for. -/
theorem parse_asks (h : parse c attr expression = .ok d) :
    d.modifiers.map Modifier.sort = asked false (chain c attr) ∧ d.expression = expression := by
  unfold parse at h
  cases hrest : rest? c attr with
  | none =>
    rw [hrest] at h
    cases h
  | some rest =>
    have hchain : chain c attr = wordsOf (splitName rest).2 := by
      unfold chain
      rw [hrest, Option.map_some, Option.getD_some]
    rw [hrest] at h
    dsimp only at h
    split at h
    · cases h
    · cases hread : readChain (if c.strictModifiers then some attr else none) (splitName rest).2 with
      | error e =>
        rw [hread] at h
        cases h
      | ok ms =>
        rw [hread] at h
        cases h
        rw [readChain] at hread
        have hwords := readWords_asks hread
        rw [List.map_nil, List.reverse_nil, List.nil_append, ← hchain] at hwords
        exact ⟨hwords, rfl⟩

/-! ## What the words of a chain ask for -/

/-- A control word asks for what it says, wherever it stands. -/
theorem mem_asked (hm : ∀ name, m ≠ .key name) : m ∈ asked refining words ↔ ∃ word ∈ words, controlWord? word = some m := by
  induction words generalizing refining with
  | nil => simp [asked]
  | cons word words ih =>
    have hword : wordAsks refining word = some m ↔ controlWord? word = some m := by
      unfold wordAsks
      cases hc : controlWord? word with
      | some m' => rfl
      | none =>
        cases Word.ofText word with
        | duration n => rfl
        | number n => cases refining <;> simp [(hm word).symm]
        | other => simp [(hm word).symm]
    simp only [asked, List.mem_append, Option.mem_toList, hword, ih, List.mem_cons, exists_eq_or_imp]

/-- The control words and what they say. -/
def controlWords : List (String × Modifier) := [
  ("stop", .stop),
  ("prevent", .prevent),
  ("window", .window),
  ("document", .document),
  ("outside", .outside),
  ("away", .outside),
  ("once", .once),
  ("debounce", .debounce none)]

theorem controlWord_iff : controlWord? word = some m ↔ (word, m) ∈ controlWords := by
  constructor
  · intro h
    unfold controlWord? at h
    split at h <;> cases h <;> simp [controlWords]
  · intro h
    simp only [controlWords, List.mem_cons, Prod.mk.injEq, List.not_mem_nil, or_false] at h
    rcases h with ⟨rfl, rfl⟩ | ⟨rfl, rfl⟩ | ⟨rfl, rfl⟩ | ⟨rfl, rfl⟩ | ⟨rfl, rfl⟩ | ⟨rfl, rfl⟩ | ⟨rfl, rfl⟩ | ⟨rfl, rfl⟩ <;> rfl

theorem mem_keyNames : name ∈ keyNames words ↔ .key name ∈ asked false words := by
  unfold keyNames
  rw [List.mem_filterMap]
  constructor
  · rintro ⟨m, hm, he⟩
    split at he <;> cases he
    exact hm
  · exact fun hm => ⟨_, hm, rfl⟩

/-- The number after `debounce` is its wait; a number that follows no `debounce` is a key name. -/
example : keyNames ["debounce", "100", "enter", "5"] = ["enter", "5"] := by decide

section

variable (h : parse c attr expression = .ok d)

include h

/-- A modifier that is not a `debounce` is one that the words ask for. -/
theorem mem_modifiers (hm : ∀ wait, m ≠ .debounce wait) : m ∈ d.modifiers ↔ m ∈ asked false (chain c attr) := by
  have hsort : m.sort = m := by
    cases m with
    | debounce wait => exact absurd rfl (hm wait)
    | _ => rfl
  rw [← (parse_asks h).1, List.mem_map]
  constructor
  · exact fun hmem => ⟨m, hmem, hsort⟩
  · rintro ⟨m', hmem, he⟩
    exact Modifier.eq_of_sort hm (hsort.trans he.symm) ▸ hmem

theorem control_mem_modifiers (hd : ∀ wait, m ≠ .debounce wait) (hk : ∀ name, m ≠ .key name) :
    m ∈ d.modifiers ↔ ∃ word ∈ chain c attr, (word, m) ∈ controlWords := by
  rw [mem_modifiers h hd, mem_asked hk]
  simp only [controlWord_iff]

theorem stop_mem_modifiers : .stop ∈ d.modifiers ↔ "stop" ∈ chain c attr :=
  (control_mem_modifiers h (m := .stop) (fun _ => nofun) fun _ => nofun).trans (by simp [controlWords])

theorem prevent_mem_modifiers : .prevent ∈ d.modifiers ↔ "prevent" ∈ chain c attr :=
  (control_mem_modifiers h (m := .prevent) (fun _ => nofun) fun _ => nofun).trans (by simp [controlWords])

theorem once_mem_modifiers : .once ∈ d.modifiers ↔ "once" ∈ chain c attr :=
  (control_mem_modifiers h (m := .once) (fun _ => nofun) fun _ => nofun).trans (by simp [controlWords])

theorem outside_mem_modifiers : .outside ∈ d.modifiers ↔ "outside" ∈ chain c attr ∨ "away" ∈ chain c attr :=
  (control_mem_modifiers h (m := .outside) (fun _ => nofun) fun _ => nofun).trans
    (by simp [controlWords, and_or_left, exists_or])

theorem debounce_mem_modifiers : (∃ wait, .debounce wait ∈ d.modifiers) ↔ "debounce" ∈ chain c attr := by
  have hsorts : (∃ wait, .debounce wait ∈ d.modifiers) ↔ .debounce none ∈ d.modifiers.map Modifier.sort := by
    rw [List.mem_map]
    constructor
    · exact fun ⟨wait, hmem⟩ => ⟨_, hmem, rfl⟩
    · rintro ⟨m, hmem, he⟩
      obtain ⟨wait, rfl⟩ := Modifier.debounce_of_sort he
      exact ⟨wait, hmem⟩
  rw [hsorts, (parse_asks h).1, mem_asked (m := .debounce none) fun _ => nofun]
  simp [controlWord_iff, controlWords]

theorem key_mem_modifiers : .key name ∈ d.modifiers ↔ name ∈ keyNames (chain c attr) :=
  (mem_modifiers h (m := .key name) fun _ => nofun).trans mem_keyNames.symm

end

end Eventful.Directive
