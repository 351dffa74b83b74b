import Mathlib.Data.List.TakeWhile
import Eventful.Proofs.Expr.Dotted
import Eventful.Proofs.Expr.Scanning

/-
  Eventful.Proofs.Expr.Lexemes — what a lexeme says about its source text.

  A lexeme was read off the text that its span takes (`readOff_lexemes`), and each lexeme has
  a span of its own (`Lined.eq_of_span`). So a name among the lexemes is the text there, and
  it is an identifier: a letter, `_` or `$` first, then such characters and digits, and no
  keyword (`name_lexeme`).
-/

namespace Eventful.Expr

variable {c : Char} {cs rest source before : List Char} {l m : Lexeme} {ls : List Lexeme} {start stop : Nat} {name : String}

/-! ## Names -/

theorem keyword?_ne_name (word name : String) : keyword? word ≠ some (.name name) := by
  unfold keyword?
  split <;> nofun

theorem readText_ne_name (quote : Char) (read cs : List Char) (name : String) :
    (readText quote read cs).1 ≠ .name name := by
  rcases readText_cases quote read cs with ⟨s, h⟩ | ⟨f, h⟩ <;> rw [h] <;> nofun

/-- Only an identifier is read as a name. -/
theorem isName_of_readToken (h : readToken c cs = (.name name, rest)) :
    isName name = true ∧ c :: cs = name.toList ++ rest := by
  unfold readToken at h
  split at h
  · rename_i hstart
    obtain ⟨hword, rfl⟩ := Prod.mk.inj h
    cases hkey : keyword? (String.ofList (c :: cs.takeWhile isNamePart)) with
    | some t =>
      rw [hkey] at hword
      exact absurd (hkey.trans (congrArg some hword)) (keyword?_ne_name _ _)
    | none =>
      rw [hkey] at hword
      cases hword
      refine ⟨isName_iff.mpr ⟨c, _, String.toList_ofList, hstart, fun d hd => List.mem_takeWhile_imp hd, hkey⟩, ?_⟩
      rw [String.toList_ofList, List.cons_append, List.takeWhile_append_dropWhile]
  · split at h
    · unfold readNumber at h
      dsimp only at h
      split at h <;> cases h
    · split at h
      · exact absurd (congrArg Prod.fst h) (readText_ne_name c [] cs name)
      · split at h <;> cases h

/-! ## Where lexemes stand -/

/-- The token is what is read at the start of the span, and the span is what was read. -/
def ReadOff (source : List Char) (l : Lexeme) : Prop :=
  ∃ before c read rest, source = before ++ (c :: read ++ rest) ∧
    l.span = ⟨bytes before, bytes before + bytes (c :: read)⟩ ∧ readToken c (read ++ rest) = (l.token, rest)

/-- The next lexeme is read off what is left, and what is left then comes after it. -/
theorem next_readOff {r : Reader} (hpos : r.position = bytes before) (heof : r.next.1.token ≠ .eof) :
    ReadOff (before ++ r.rest) r.next.1 ∧
      ∃ taken, before ++ r.rest = taken ++ r.next.2.rest ∧ r.next.2.position = bytes taken := by
  obtain ⟨gap, hgap⟩ := skip_suffix .between r.rest
  revert heof
  unfold Reader.next
  cases hcs : skip .between r.rest with
  | nil => exact fun heof => absurd rfl heof
  | cons c cs =>
    intro _
    have hread := readToken_suffix c cs
    rw [hcs] at hgap
    dsimp only
    generalize htoken : readToken c cs = token at hread ⊢
    obtain ⟨token, rest⟩ := token
    obtain ⟨read, rfl⟩ := hread
    have hstart : r.position + (bytes r.rest - bytes (c :: (read ++ rest))) = bytes (before ++ gap) := by
      rw [← hgap, bytes_append, bytes_append, hpos, Nat.add_sub_cancel]
    have hstop : bytes (c :: (read ++ rest)) - bytes rest = bytes (c :: read) := by
      rw [← List.cons_append, bytes_append, Nat.add_sub_cancel]
    rw [hstart, hstop]
    refine ⟨⟨before ++ gap, c, read, rest, ?_, rfl, htoken⟩, before ++ gap ++ (c :: read), ?_, ?_⟩
    · rw [List.append_assoc, ← hgap]
      rfl
    · rw [List.append_assoc, List.append_assoc, ← hgap]
      rfl
    · exact (bytes_append ..).symm

theorem readOff_lexemes (before : List Char) (limit : Nat) {r : Reader} (hpos : r.position = bytes before) :
    ∀ l ∈ (r.lexemes limit).1, ReadOff (before ++ r.rest) l := by
  induction limit generalizing r before with
  | zero => nofun
  | succ limit ih =>
    by_cases heof : r.next.1.token = .eof
    · rw [lexemes_end rfl heof]
      nofun
    · obtain ⟨hfirst, taken, hleft, hpos'⟩ := next_readOff hpos heof
      rw [lexemes_token rfl heof]
      refine List.forall_mem_cons.mpr ⟨hfirst, ?_⟩
      rw [hleft]
      exact ih taken hpos'

/-- A name among the lexemes is an identifier, and it is the text at its span. -/
theorem name_lexeme {source : String} {span : Span} (h : ⟨.name name, span⟩ ∈ (lexemes source).1) :
    isName name = true ∧ slice source.toList span.start span.stop = some name.toList := by
  obtain ⟨before, c, read, rest, hsource, hspan, hread⟩ :=
    readOff_lexemes [] source.length (r := .ofSource source) rfl _ h
  obtain ⟨hname, hchars⟩ := isName_of_readToken hread
  have htext : c :: read = name.toList := List.append_cancel_right hchars
  rw [htext] at hsource hspan
  cases hspan
  exact ⟨hname, slice_eq_some.mpr ⟨before, rest, hsource, rfl, rfl⟩⟩

/-! ## Spans -/

theorem Lined.after (h : Lined start ls stop) (hl : l ∈ ls) : start ≤ l.span.start ∧ l.span.start < l.span.stop := by
  induction ls generalizing start with
  | nil => cases hl
  | cons m ls ih =>
    obtain ⟨-, hstart, hne, hrest⟩ := h
    rcases List.mem_cons.mp hl with rfl | hl'
    · exact ⟨hstart, hne⟩
    · obtain ⟨hafter, hne'⟩ := ih hrest hl'
      exact ⟨by omega, hne'⟩

/-- Lexemes with one span are one lexeme. -/
theorem Lined.eq_of_span (h : Lined start ls stop) (hl : l ∈ ls) (hm : m ∈ ls) (hspan : l.span = m.span) : l = m := by
  induction ls generalizing start with
  | nil => cases hl
  | cons k ls ih =>
    obtain ⟨-, -, hne, hrest⟩ := h
    have hlater {k' : Lexeme} (hk' : k' ∈ ls) : k'.span ≠ k.span := by
      have := (hrest.after hk').1
      intro hspan
      rw [hspan] at this
      omega
    rcases List.mem_cons.mp hl with rfl | hl' <;> rcases List.mem_cons.mp hm with rfl | hm'
    · rfl
    · exact absurd hspan.symm (hlater hm')
    · exact absurd hspan (hlater hl')
    · exact ih hrest hl' hm'

end Eventful.Expr
