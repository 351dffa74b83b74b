import Eventful.Expr.Lexer

/-
  Eventful.Proofs.Expr.Lexing — the lexemes of a source text stand one after the other.

  Whatever is skipped or read is a piece off the front of what is left, and a token takes
  at least one character. So the lexemes of a text lie in its bytes in order, none of them
  empty, and the `eof` comes at the end of the text (`lexemes_lined`).
-/

namespace Eventful.Expr

variable {c : Char} {cs cs' rest : List Char} {start stop : Nat}

/-! ## Sizes -/

@[simp] theorem bytes_nil : bytes [] = 0 := rfl

@[simp] theorem bytes_cons : bytes (c :: cs) = c.utf8Size + bytes cs := rfl

@[simp] theorem bytes_append : bytes (cs ++ cs') = bytes cs + bytes cs' := by
  induction cs with
  | nil => simp
  | cons c cs ih => simp [ih, Nat.add_assoc]

theorem bytes_suffix (h : cs <:+ cs') : bytes cs ≤ bytes cs' := by
  obtain ⟨before, rfl⟩ := h
  simp

/-! ## What is left -/

theorem skip_suffix (g : Gap) (cs : List Char) : skip g cs <:+ cs := by
  fun_induction skip g cs with
  | case1 => exact List.suffix_refl _
  | case2 cs ih => exact ih.trans ((List.suffix_cons _ _).trans (List.suffix_cons _ _))
  | case3 cs ih => exact ih.trans ((List.suffix_cons _ _).trans (List.suffix_cons _ _))
  | case4 c cs _ _ _ ih => exact ih.trans (List.suffix_cons _ _)
  | case5 => exact List.suffix_refl _
  | case6 c cs _ ih => exact ih.trans (List.suffix_cons _ _)
  | case7 c cs _ ih => exact ih.trans (List.suffix_cons _ _)
  | case8 cs ih => exact ih.trans ((List.suffix_cons _ _).trans (List.suffix_cons _ _))
  | case9 c cs _ ih => exact ih.trans (List.suffix_cons _ _)

theorem fractionPart_suffix (cs : List Char) : (fractionPart cs).2 <:+ cs := by
  unfold fractionPart
  split
  · split
    · exact (List.dropWhile_suffix _).trans ((List.suffix_cons _ _).trans (List.suffix_cons _ _))
    · exact List.suffix_refl _
  · exact List.suffix_refl _

theorem exponentPart_suffix (cs : List Char) : (exponentPart cs).2 <:+ cs := by
  unfold exponentPart
  split
  · exact List.suffix_refl _
  · dsimp only
    split
    · split
      · exact (List.dropWhile_suffix _).trans ((List.suffix_cons _ _).trans (List.suffix_cons _ _))
      · exact (List.dropWhile_suffix _).trans ((List.suffix_cons _ _).trans (List.suffix_cons _ _))
      · exact (List.dropWhile_suffix _).trans (List.suffix_cons _ _)
    · exact List.suffix_refl _

theorem readNumber_suffix (c : Char) (cs : List Char) : (readNumber c cs).2 <:+ cs := by
  have hrest : (exponentPart (fractionPart (cs.dropWhile fun c => c.isDigit || c == '_')).2).2 <:+ cs :=
    (exponentPart_suffix _).trans ((fractionPart_suffix _).trans (List.dropWhile_suffix _))
  unfold readNumber
  dsimp only
  split <;> exact hrest

theorem readText_suffix (quote : Char) (read cs : List Char) : (readText quote read cs).2 <:+ cs := by
  fun_induction readText quote read cs with
  | case1 => exact List.suffix_refl _
  | case2 => exact List.nil_suffix
  | case3 read c cs ih => exact ih.trans ((List.suffix_cons _ _).trans (List.suffix_cons _ _))
  | case4 => exact List.suffix_cons _ _
  | case5 read c cs _ _ _ ih => exact ih.trans (List.suffix_cons _ _)

theorem readPunct_suffix {p : Punct} (h : readPunct cs = some (p, rest)) : rest <:+ cs.tail := by
  unfold readPunct at h
  split at h <;> cases h <;>
    first
    | exact List.suffix_refl _
    | exact List.suffix_cons _ _
    | exact (List.suffix_cons _ _).trans (List.suffix_cons _ _)

/-- A token takes its first character at least. -/
theorem readToken_suffix (c : Char) (cs : List Char) : (readToken c cs).2 <:+ cs := by
  unfold readToken
  split
  · exact List.dropWhile_suffix _
  · split
    · exact readNumber_suffix c cs
    · split
      · exact readText_suffix c [] cs
      · split
        · rename_i h
          exact readPunct_suffix h
        · exact List.suffix_refl _

theorem keyword?_ne_eof (s : String) : keyword? s ≠ some .eof := by
  unfold keyword?
  split <;> nofun

theorem readText_ne_eof (quote : Char) (read cs : List Char) : (readText quote read cs).1 ≠ .eof := by
  fun_induction readText quote read cs with
  | case1 | case2 | case4 => nofun
  | case3 read c cs ih => exact ih
  | case5 read c cs _ _ _ ih => exact ih

/-- `eof` is not read off a text. -/
theorem readToken_ne_eof (c : Char) (cs : List Char) : (readToken c cs).1 ≠ .eof := by
  unfold readToken
  split
  · unfold readName
    dsimp only
    cases h : keyword? (String.ofList (c :: cs.takeWhile isNamePart)) with
    | none => nofun
    | some t => exact fun e => keyword?_ne_eof _ (h.trans (congrArg some e))
  · split
    · unfold readNumber
      dsimp only
      split <;> nofun
    · split
      · exact readText_ne_eof c [] cs
      · split <;> nofun

/-! ## Lexemes -/

/-- Lexemes one after the other between two offsets, none of them empty and none an `eof`. -/
def Lined (start : Nat) : List Lexeme → Nat → Prop
  | [], stop => start ≤ stop
  | l :: ls, stop =>
    l.token ≠ .eof ∧ start ≤ l.span.start ∧ l.span.start < l.span.stop ∧ Lined l.span.stop ls stop

theorem Lined.le {ls : List Lexeme} (h : Lined start ls stop) : start ≤ stop := by
  induction ls generalizing start with
  | nil => exact h
  | cons l ls ih =>
    obtain ⟨-, h₁, h₂, h⟩ := h
    have := ih h
    omega

theorem Lined.from {ls : List Lexeme} {start' : Nat} (h : Lined start ls stop) (hs : start' ≤ start) :
    Lined start' ls stop := by
  cases ls with
  | nil => exact Nat.le_trans hs h
  | cons l ls => exact ⟨h.1, Nat.le_trans hs h.2.1, h.2.2⟩

/-- The end of the text that a reader reads. -/
def Reader.limit (r : Reader) : Nat := r.position + bytes r.rest

/-- What the next lexeme is: `eof` at the end, or a token off the front of what is left. -/
theorem next_cases (r : Reader) :
    (r.next = (⟨.eof, ⟨r.limit, r.limit⟩⟩, ⟨[], r.limit⟩)) ∨
      ∃ l r', r.next = (l, r') ∧ l.token ≠ .eof ∧ r.position ≤ l.span.start ∧ l.span.start < l.span.stop ∧
        r'.position = l.span.stop ∧ r'.limit = r.limit ∧ r'.rest.length < r.rest.length := by
  have hskip := skip_suffix .between r.rest
  unfold Reader.next
  split
  · exact .inl rfl
  · rename_i c cs hcs
    rw [hcs] at hskip
    have heof := readToken_ne_eof c cs
    have h₁ := bytes_suffix hskip
    have h₂ := bytes_suffix (readToken_suffix c cs)
    have h₃ := hskip.length_le
    have h₄ := (readToken_suffix c cs).length_le
    have hpos := c.utf8Size_pos
    generalize readToken c cs = read at heof h₂ h₄ ⊢
    obtain ⟨token, rest⟩ := read
    rw [bytes_cons] at h₁
    rw [List.length_cons] at h₃
    refine .inr ⟨_, _, rfl, heof, ?_, ?_, rfl, ?_, ?_⟩ <;> simp only [Reader.limit, bytes_cons] at * <;> omega

/-- At the end there is only `eof`, whatever the limit. -/
theorem lexemes_end {r r' : Reader} {l : Lexeme} (h : r.next = (l, r')) (he : l.token = .eof) (limit : Nat) :
    r.lexemes limit = ([], l) := by
  cases limit with
  | zero => rw [Reader.lexemes, h]
  | succ limit =>
    rw [Reader.lexemes, h]
    simp only [he]

theorem lexemes_token {r r' : Reader} {l : Lexeme} (h : r.next = (l, r')) (he : l.token ≠ .eof) (limit : Nat) :
    r.lexemes (limit + 1) = (l :: (r'.lexemes limit).1, (r'.lexemes limit).2) := by
  rw [Reader.lexemes, h]
  dsimp only
  split
  · rename_i e
    exact absurd e he
  · rfl

/-- The lexemes of a text stand in it, and the `eof` at its end. -/
theorem lined_lexemes (limit : Nat) (r : Reader) (hl : r.rest.length ≤ limit) :
    Lined r.position (r.lexemes limit).1 r.limit ∧ (r.lexemes limit).2 = ⟨.eof, ⟨r.limit, r.limit⟩⟩ := by
  have hstop : r.position ≤ r.limit := Nat.le_add_right _ _
  induction limit generalizing r with
  | zero =>
    rcases next_cases r with h | ⟨l, r', -, -, -, -, -, -, hlt⟩
    · rw [Reader.lexemes, h]
      exact ⟨hstop, rfl⟩
    · omega
  | succ limit ih =>
    rcases next_cases r with h | ⟨l, r', h, heof, h₁, h₂, hpos, hend, hlt⟩
    · rw [Reader.lexemes, h]
      exact ⟨hstop, rfl⟩
    · obtain ⟨hlined, hlast⟩ := ih r' (by omega) (Nat.le_add_right _ _)
      rw [Reader.lexemes, h]
      dsimp only
      split
      · rename_i e
        exact absurd e heof
      · rw [hpos, hend] at hlined
        rw [hend] at hlast
        exact ⟨⟨heof, h₁, h₂, hlined⟩, hlast⟩

theorem lexemes_lined (source : String) :
    Lined 0 (lexemes source).1 (bytes source.toList) ∧
      (lexemes source).2 = ⟨.eof, ⟨bytes source.toList, bytes source.toList⟩⟩ := by
  have h := lined_lexemes source.length (.ofSource source) (Nat.le_of_eq String.length_toList)
  rw [show (Reader.ofSource source).limit = bytes source.toList from Nat.zero_add _] at h
  exact h

end Eventful.Expr
