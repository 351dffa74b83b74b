import Eventful.Proofs.Expr.Lexing
import Eventful.Proofs.Expr.Printing

/-
  Eventful.Proofs.Expr.Spelling — spelled tokens are read back.

  What reads as a token alone reads as the same token before a blank (`readToken_before`),
  and gaps are skipped (`skip_fillers`, `skip_spacing`). So the lexemes of tokens that were
  spelled out are the tokens, if each is read back alone (`lexemes_text`); the tokens of a
  program that can be printed are (`lexes_tokens`).
-/

namespace Eventful.Expr

variable {μ : Type} {c d : Char} {cs rest : List Char} {t : Token}

/-! ## Gaps -/

theorem eq_of_isSpace (h : isSpace c = true) : c = ' ' ∨ c = '\t' ∨ c = '\r' ∨ c = '\n' := by
  simpa [isSpace, or_assoc] using h

theorem skip_blank (h : isSpace c = true) (cs : List Char) : skip .between (c :: cs) = skip .between cs := by
  obtain rfl | rfl | rfl | rfl := eq_of_isSpace h <;> rfl

/-- Where neither a blank nor a comment begins, nothing is skipped. -/
theorem skip_solid (hspace : isSpace c = false) (hslash : c ≠ '/') (cs : List Char) :
    skip .between (c :: cs) = c :: cs := by
  rw [skip, if_neg (by rw [hspace]; exact Bool.false_ne_true)]
  · rintro cs' rfl
    exact absurd rfl hslash
  · rintro cs' rfl
    exact absurd rfl hslash

theorem skip_lineComment {text : List Char} (h : '\n' ∉ text) (cs : List Char) :
    skip .line (text ++ '\n' :: cs) = skip .between cs := by
  induction text with
  | nil => rw [List.nil_append, skip, if_pos (by decide)]
  | cons c text ih =>
    rw [List.mem_cons, not_or] at h
    rw [List.cons_append, skip, if_neg (by simpa using Ne.symm h.1), ih h.2]

/-- In a block comment, a character that does not start its end. -/
theorem skip_within (h : ¬ ['*', '/'] <+: c :: cs) : skip .block (c :: cs) = skip .block cs := by
  rw [skip]
  rintro cs' rfl rfl
  exact h ⟨cs', rfl⟩

theorem skip_blockComment {text : List Char} (h : ¬ ['*', '/'] <:+: text) (cs : List Char) :
    skip .block (text ++ '*' :: '/' :: cs) = skip .between cs := by
  induction text with
  | nil => rfl
  | cons c text ih =>
    rw [List.cons_append, skip_within, ih fun h' => h (h'.trans (List.suffix_cons c text).isInfix)]
    intro hp
    cases text with
    | nil => simp [List.cons_prefix_cons] at hp
    | cons d text =>
      simp only [List.cons_append, List.cons_prefix_cons] at hp
      obtain ⟨rfl, rfl, -⟩ := hp
      exact h ⟨[], text, rfl⟩

theorem skip_fillers {fs : List Filler} (h : ∀ f ∈ fs, f.Closed) (cs : List Char) :
    skip .between (fs.flatMap Filler.chars ++ cs) = skip .between cs := by
  induction fs with
  | nil => rfl
  | cons f fs ih =>
    rw [List.forall_mem_cons] at h
    rw [List.flatMap_cons, List.append_assoc, ← ih h.2]
    cases f with
    | blank c => exact skip_blank h.1 _
    | lineComment text =>
      rw [Filler.chars, List.append_assoc]
      exact skip_lineComment h.1 _
    | blockComment text =>
      rw [Filler.chars, List.append_assoc]
      exact skip_blockComment h.1 _

theorem skip_spacing (s : Spacing) (cs : List Char) : skip .between (s.chars ++ cs) = skip .between cs := by
  rw [Spacing.chars, List.cons_append, skip_blank s.isBlank, skip_fillers s.closed]

/-! ## Tokens before a blank -/

/-- The text starts with a blank if it starts at all. -/
def BlankFirst (cs : List Char) : Prop := ∀ c ∈ cs.head?, isSpace c = true

theorem blankFirst_spacing (s : Spacing) (cs : List Char) : BlankFirst (s.chars ++ cs) := by
  rintro _ ⟨⟩
  exact s.isBlank

/-- A test that no blank passes. -/
def Solid (p : Char → Bool) : Prop := ∀ c, isSpace c = true → p c = false

theorem solid_isDigit : Solid Char.isDigit := by
  intro c h
  obtain rfl | rfl | rfl | rfl := eq_of_isSpace h <;> rfl

theorem solid_isNamePart : Solid isNamePart := by
  intro c h
  obtain rfl | rfl | rfl | rfl := eq_of_isSpace h <;> rfl

theorem solid_grouped : Solid fun c => c.isDigit || c == '_' := by
  intro c h
  obtain rfl | rfl | rfl | rfl := eq_of_isSpace h <;> rfl

variable {p : Char → Bool}

theorem dropWhile_before (hp : Solid p) (hr : BlankFirst rest) (cs : List Char) :
    (cs ++ rest).dropWhile p = cs.dropWhile p ++ rest := by
  induction cs with
  | nil =>
    cases rest with
    | nil => rfl
    | cons b bs => rw [List.nil_append, List.dropWhile_cons, hp b (hr b rfl)]; rfl
  | cons c cs ih =>
    rw [List.cons_append, List.dropWhile_cons, List.dropWhile_cons, ih]
    split <;> rfl

theorem takeWhile_before (hp : Solid p) (hr : BlankFirst rest) (cs : List Char) :
    (cs ++ rest).takeWhile p = cs.takeWhile p := by
  induction cs with
  | nil =>
    cases rest with
    | nil => rfl
    | cons b bs => rw [List.nil_append, List.takeWhile_cons, hp b (hr b rfl)]; rfl
  | cons c cs ih => rw [List.cons_append, List.takeWhile_cons, List.takeWhile_cons, ih]

theorem fractionPart_ne (h : c ≠ '.') (cs : List Char) : fractionPart (c :: cs) = ([], c :: cs) := by
  unfold fractionPart
  split
  · rename_i e
    exact absurd (List.cons.inj e).1 h
  · rfl

theorem fractionPart_blank (hr : BlankFirst rest) : fractionPart rest = ([], rest) := by
  cases rest with
  | nil => rfl
  | cons b bs => exact fractionPart_ne (by rintro rfl; cases hr '.' rfl) bs

theorem fractionPart_before (hr : BlankFirst rest) (cs : List Char) :
    fractionPart (cs ++ rest) = ((fractionPart cs).1, (fractionPart cs).2 ++ rest) := by
  cases cs with
  | nil => exact fractionPart_blank hr
  | cons c cs =>
    by_cases hc : c = '.'
    · subst hc
      cases cs with
      | nil =>
        cases rest with
        | nil => rfl
        | cons b bs => simp [fractionPart, solid_isDigit b (hr b rfl)]
      | cons d cs =>
        simp only [List.cons_append, fractionPart, takeWhile_before solid_isDigit hr,
          dropWhile_before solid_isDigit hr]
        split <;> rfl
    · rw [List.cons_append, fractionPart_ne hc, fractionPart_ne hc]
      rfl

/-- The sign before the digits of an exponent, and what is left after it. -/
def signPart : List Char → List Char × List Char
  | '+' :: cs => (['+'], cs)
  | '-' :: cs => (['-'], cs)
  | cs => ([], cs)

theorem exponentPart_cons (e : Char) (cs : List Char) :
    exponentPart (e :: cs) =
      if e == 'e' || e == 'E' then
        (e :: (signPart cs).1 ++ (signPart cs).2.takeWhile Char.isDigit, (signPart cs).2.dropWhile Char.isDigit)
      else ([], e :: cs) := by
  rw [exponentPart.eq_def]
  dsimp only
  split <;> rfl

theorem signPart_ne (hp : c ≠ '+') (hm : c ≠ '-') (cs : List Char) : signPart (c :: cs) = ([], c :: cs) := by
  unfold signPart
  split
  · rename_i e
    exact absurd (List.cons.inj e).1 hp
  · rename_i e
    exact absurd (List.cons.inj e).1 hm
  · rfl

theorem signPart_before (hr : BlankFirst rest) (cs : List Char) :
    signPart (cs ++ rest) = ((signPart cs).1, (signPart cs).2 ++ rest) := by
  cases cs with
  | nil =>
    cases rest with
    | nil => rfl
    | cons b bs => obtain rfl | rfl | rfl | rfl := eq_of_isSpace (hr b rfl) <;> rfl
  | cons c cs =>
    by_cases hp : c = '+'
    · subst hp
      rfl
    · by_cases hm : c = '-'
      · subst hm
        rfl
      · rw [List.cons_append, signPart_ne hp hm, signPart_ne hp hm]
        rfl

theorem exponentPart_before (hr : BlankFirst rest) (cs : List Char) :
    exponentPart (cs ++ rest) = ((exponentPart cs).1, (exponentPart cs).2 ++ rest) := by
  cases cs with
  | nil =>
    cases rest with
    | nil => rfl
    | cons b bs => obtain rfl | rfl | rfl | rfl := eq_of_isSpace (hr b rfl) <;> rfl
  | cons e cs =>
    rw [List.cons_append, exponentPart_cons, exponentPart_cons, signPart_before hr]
    split
    · rw [takeWhile_before solid_isDigit hr, dropWhile_before solid_isDigit hr]
    · rfl

theorem readNumber_before (hr : BlankFirst rest) (c : Char) (cs : List Char) :
    readNumber c (cs ++ rest) = ((readNumber c cs).1, (readNumber c cs).2 ++ rest) := by
  unfold readNumber
  simp only [takeWhile_before solid_grouped hr, dropWhile_before solid_grouped hr, fractionPart_before hr,
    exponentPart_before hr]
  split <;> rfl

theorem readName_before (hr : BlankFirst rest) (c : Char) (cs : List Char) :
    readName c (cs ++ rest) = ((readName c cs).1, (readName c cs).2 ++ rest) := by
  simp only [readName, takeWhile_before solid_isNamePart hr, dropWhile_before solid_isNamePart hr]

theorem readText_cons {quote : Char} {read : List Char} (h : c ≠ '\\') (cs : List Char) :
    readText quote read (c :: cs) =
      if c == quote then (.text (String.ofList read.reverse), cs) else readText quote (c :: read) cs := by
  rw [readText]
  · rintro rfl
    exact fun _ => h rfl
  · intro _ _ e
    exact absurd e h

/-- What follows the closing quote does not matter. -/
theorem readText_append {quote : Char} {read : List Char} {s : String} (h : readText quote read cs = (.text s, []))
    (rest : List Char) : readText quote read (cs ++ rest) = (.text s, rest) := by
  fun_induction readText quote read cs with
  | case1 => cases h
  | case2 => cases h
  | case3 read c cs ih => exact ih h
  | case4 read c cs h₁ h₂ hq =>
    have hc : c ≠ '\\' := by cases cs <;> simp_all
    rw [List.cons_append, readText_cons hc, if_pos hq]
    cases h
    rfl
  | case5 read c cs h₁ h₂ hq ih =>
    have hc : c ≠ '\\' := by cases cs <;> simp_all
    rw [List.cons_append, readText_cons hc, if_neg hq]
    exact ih h

theorem readText_cases (quote : Char) (read cs : List Char) :
    (∃ s, (readText quote read cs).1 = .text s) ∨ ∃ f, (readText quote read cs).1 = .fault f := by
  fun_induction readText quote read cs with
  | case1 | case2 => exact .inr ⟨_, rfl⟩
  | case3 read c cs ih => exact ih
  | case4 => exact .inl ⟨_, rfl⟩
  | case5 read c cs _ _ _ ih => exact ih

theorem readPunct_text {q : Punct} (h : readPunct cs = some (q, [])) : cs = q.text.toList := by
  unfold readPunct at h
  split at h <;> cases h <;> rfl

theorem readPunct_before (hr : BlankFirst rest) (q : Punct) : readPunct (q.text.toList ++ rest) = some (q, rest) := by
  cases rest with
  | nil => cases q <;> rfl
  | cons b bs => obtain rfl | rfl | rfl | rfl := eq_of_isSpace (hr b rfl) <;> cases q <;> rfl

theorem startsWithDigit_before (hr : BlankFirst rest) (cs : List Char) :
    startsWithDigit (cs ++ rest) = startsWithDigit cs := by
  cases cs with
  | nil =>
    cases rest with
    | nil => rfl
    | cons b bs => exact solid_isDigit b (hr b rfl)
  | cons c cs => rfl

/-- What reads as a token alone reads as the same token before a blank. -/
theorem readToken_before (hr : BlankFirst rest) (h : readToken c cs = (t, [])) (hf : ∀ f, t ≠ .fault f) :
    readToken c (cs ++ rest) = (t, rest) := by
  unfold readToken at h ⊢
  rw [startsWithDigit_before hr]
  split at h
  · rename_i hn
    rw [if_pos hn, readName_before hr, h]
    rfl
  · rename_i hn
    rw [if_neg hn]
    split at h
    · rename_i hd
      rw [if_pos hd, readNumber_before hr, h]
      rfl
    · rename_i hd
      rw [if_neg hd]
      split at h
      · rename_i hq
        rw [if_pos hq]
        obtain ⟨s, hs⟩ | ⟨f, hs⟩ := readText_cases c [] cs
        · rw [h] at hs
          obtain rfl : t = .text s := hs
          exact readText_append h rest
        · rw [h] at hs
          exact absurd hs (hf f)
      · rename_i hq
        rw [if_neg hq]
        split at h
        · rename_i q cs' hp
          cases h
          rw [← List.cons_append, readPunct_text hp, readPunct_before hr]
        · cases h
          exact absurd rfl (hf _)

/-! ## Texts of tokens -/

/-- Nothing of a token is skipped. -/
theorem skip_token (hr : BlankFirst rest) (h : readToken c cs = (t, [])) (hf : ∀ f, t ≠ .fault f) :
    skip .between (c :: (cs ++ rest)) = c :: (cs ++ rest) := by
  have hspace : ¬ isSpace c = true := by
    intro hc
    obtain rfl | rfl | rfl | rfl := eq_of_isSpace hc <;> cases h <;> exact hf _ rfl
  rw [skip, if_neg hspace]
  · rintro cs' rfl e
    cases cs with
    | nil =>
      rw [List.nil_append] at e
      cases hr '/' (by rw [e]; rfl)
    | cons d cs =>
      cases e
      cases h
  · rintro cs' rfl e
    cases cs with
    | nil =>
      rw [List.nil_append] at e
      cases hr '*' (by rw [e]; rfl)
    | cons d cs =>
      cases e
      cases h

theorem next_token {r : Reader} (hs : skip .between r.rest = c :: cs) (h : readToken c cs = (t, rest)) :
    r.next.1.token = t ∧ r.next.2.rest = rest := by
  unfold Reader.next
  rw [hs]
  dsimp only
  rw [h]
  exact ⟨rfl, rfl⟩

theorem next_eof {r : Reader} (hs : skip .between r.rest = []) : r.next.1.token = .eof := by
  unfold Reader.next
  rw [hs]

/-- One token is read, and the others follow. -/
theorem lexemes_cons (limit : Nat) {r : Reader} (hs : skip .between r.rest = c :: cs) (h : readToken c cs = (t, rest)) :
    (r.lexemes (limit + 1)).1.map (·.token) = t :: (r.next.2.lexemes limit).1.map (·.token) ∧ r.next.2.rest = rest := by
  obtain ⟨htoken, hrest⟩ := next_token hs h
  have hnext : r.next = (r.next.1, r.next.2) := rfl
  have heof : r.next.1.token ≠ .eof := by
    have := readToken_ne_eof c cs
    rwa [htoken, ← show (readToken c cs).1 = t from congrArg Prod.fst h]
  rw [lexemes_token hnext heof, List.map_cons, htoken]
  exact ⟨rfl, hrest⟩

/-- What stands after a token starts with a blank, and after its gap the other tokens stand. -/
theorem spread_cons (style : Style) (i : Nat) (t : Token) (ts : List Token) :
    ∃ rest, BlankFirst rest ∧ style.spread i (t :: ts) = t.spell style.numeral ++ rest ∧
      skip .between rest = skip .between (style.spread (i + 1) ts) ∧ (style.spread (i + 1) ts).length ≤ rest.length := by
  cases ts with
  | nil =>
    refine ⟨style.trail.elim [] Spacing.chars, ?_, rfl, ?_, Nat.zero_le _⟩
    · cases style.trail with
      | none => nofun
      | some s => simpa using blankFirst_spacing s []
    · cases style.trail with
      | none => rfl
      | some s =>
        show skip .between s.chars = skip .between []
        simpa using skip_spacing s []
  | cons t' ts =>
    refine ⟨_, blankFirst_spacing (style.spacing i) (style.spread (i + 1) (t' :: ts)), ?_, skip_spacing _ _, ?_⟩
    · rw [Style.spread, List.append_assoc]
      nofun
    · rw [List.length_append]
      exact Nat.le_add_left _ _

/-- A reader before tokens that were spelled out reads them. -/
theorem lexemes_spread {style : Style} {ts : List Token} (h : ∀ t ∈ ts, LexesAs (t.spell style.numeral) t) (i : Nat)
    {limit : Nat} (hl : ts.length ≤ limit) {r : Reader} (hr : skip .between r.rest = skip .between (style.spread i ts)) :
    (r.lexemes limit).1.map (·.token) = ts := by
  induction ts generalizing i limit r with
  | nil =>
    have heof := next_eof hr
    cases limit with
    | zero => rfl
    | succ limit =>
      rw [Reader.lexemes]
      dsimp only
      rw [heof]
      rfl
  | cons t ts ih =>
    rw [List.forall_mem_cons] at h
    obtain ⟨rest, hrest, hspread, hskip, -⟩ := spread_cons style i t ts
    obtain ⟨limit, rfl⟩ : ∃ n, limit = n + 1 := ⟨limit - 1, by rw [List.length_cons] at hl; omega⟩
    have ht := h.1
    have hf : ∀ f, t ≠ .fault f := by
      rintro f rfl
      exact ht
    rw [hspread] at hr
    revert ht hr
    cases t.spell style.numeral with
    | nil => exact fun hr ht => ht.elim
    | cons c cs =>
      intro hr ht
      rw [List.cons_append, skip_token hrest ht hf] at hr
      obtain ⟨htokens, hleft⟩ := lexemes_cons limit hr (readToken_before hrest ht hf)
      rw [htokens, ih h.2 (i + 1) (Nat.le_of_succ_le_succ hl) (by rw [hleft, hskip])]

theorem length_spread {style : Style} {ts : List Token} (h : ∀ t ∈ ts, LexesAs (t.spell style.numeral) t) (i : Nat) :
    ts.length ≤ (style.spread i ts).length := by
  induction ts generalizing i with
  | nil => exact Nat.zero_le _
  | cons t ts ih =>
    rw [List.forall_mem_cons] at h
    obtain ⟨rest, -, hspread, -, hle⟩ := spread_cons style i t ts
    have hpos : 0 < (t.spell style.numeral).length := by
      have ht := h.1
      cases he : t.spell style.numeral with
      | nil => exact (he ▸ ht).elim
      | cons c cs => exact Nat.succ_pos _
    have := ih h.2 (i + 1)
    rw [hspread, List.length_append, List.length_cons]
    omega

/-- Tokens that are read back alone are read back from their text. -/
theorem lexemes_text (style : Style) {ts : List Token} (h : ∀ t ∈ ts, LexesAs (t.spell style.numeral) t) :
    (lexemes (style.text ts)).1.map (·.token) = ts := by
  refine lexemes_spread h 0 ?_ ?_
  · rw [Style.text, String.length_ofList, List.length_append]
    exact Nat.le_trans (length_spread h 0) (Nat.le_add_left _ _)
  · rw [Reader.ofSource, Style.text, String.toList_ofList]
    exact skip_fillers style.closed _

/-! ## Tokens of trees -/

variable {numeral : Float → List Char}

/-- The tokens are read back alone. -/
def Legible (numeral : Float → List Char) (ts : List Token) : Prop := ∀ t ∈ ts, LexesAs (t.spell numeral) t

theorem Legible.nil : Legible numeral [] := nofun

theorem Legible.cons {ts : List Token} (h : LexesAs (t.spell numeral) t) (hs : Legible numeral ts) :
    Legible numeral (t :: ts) :=
  List.forall_mem_cons.mpr ⟨h, hs⟩

theorem Legible.append {ts ts' : List Token} (h : Legible numeral ts) (h' : Legible numeral ts') :
    Legible numeral (ts ++ ts') :=
  List.forall_mem_append.mpr ⟨h, h'⟩

theorem lexesAs_punct (q : Punct) : LexesAs ((Token.punct q).spell numeral) (.punct q) := by
  cases q <;> rfl

theorem Legible.punct (q : Punct) : Legible numeral [.punct q] := .cons (lexesAs_punct q) .nil

theorem Legible.enclose {limit level : Level} {ts : List Token} (h : Legible numeral ts) :
    Legible numeral (enclose limit level ts) := by
  unfold Expr.enclose
  split
  · exact h
  · exact .append (.cons (lexesAs_punct _) h) (.punct _)

theorem Legible.separate {tss : List (List Token)} (h : ∀ ts ∈ tss, Legible numeral ts) :
    Legible numeral (separate tss) := by
  induction tss with
  | nil => exact .nil
  | cons ts tss ih =>
    rw [List.forall_mem_cons] at h
    cases tss with
    | nil => exact h.1
    | cons ts' tss => exact .append h.1 (.cons (lexesAs_punct _) (ih h.2))

/-- An escaped text is read up to the quote. -/
theorem readText_escape (read cs : List Char) :
    readText '"' read (cs.flatMap escape ++ ['"']) = (.text (String.ofList (read.reverse ++ cs)), []) := by
  induction cs generalizing read with
  | nil => simp [readText]
  | cons c cs ih =>
    rw [List.flatMap_cons, List.append_assoc]
    by_cases hc : (c == '"' || c == '\\') = true
    · have hread : readText '"' read (escape c ++ (cs.flatMap escape ++ ['"'])) =
          readText '"' (c :: read) (cs.flatMap escape ++ ['"']) := by
        rw [escape, if_pos hc]
        obtain rfl | rfl : c = '"' ∨ c = '\\' := by simpa using hc
        · rfl
        · rfl
      rw [hread, ih, List.reverse_cons, List.append_assoc]
      rfl
    · rw [escape, if_neg hc]
      rw [Bool.or_eq_true, not_or] at hc
      rw [List.singleton_append, readText_cons (by simpa using hc.2), if_neg hc.1, ih, List.reverse_cons, List.append_assoc]
      rfl

theorem lexesAs_text (s : String) : LexesAs ((Token.text s).spell numeral) (.text s) := by
  show readText '"' [] (s.toList.flatMap escape ++ ['"']) = _
  rw [readText_escape]
  simp

theorem spell_wordToken (s : String) : (wordToken s).spell numeral = s.toList := by
  unfold wordToken keyword?
  split <;> rfl

theorem legible_entries {es : List (String × Term μ)} (h : ∀ e ∈ es, Legible numeral e.2.tokens) :
    ∀ ts ∈ entryTokens es, Legible numeral ts := by
  induction es with
  | nil => nofun
  | cons e es ih =>
    rw [List.forall_mem_cons] at h
    exact List.forall_mem_cons.mpr ⟨.cons (lexesAs_text _) (.cons (lexesAs_punct _) h.1.enclose), ih h.2⟩

theorem legible_items {es : List (Term μ)} (h : ∀ e ∈ es, Legible numeral e.tokens) :
    ∀ ts ∈ itemTokens es, Legible numeral ts := by
  induction es with
  | nil => nofun
  | cons e es ih =>
    rw [List.forall_mem_cons] at h
    exact List.forall_mem_cons.mpr ⟨h.1.enclose, ih h.2⟩

theorem Term.Printable.legible {e : Term μ} (h : e.Printable numeral) : Legible numeral e.tokens := by
  induction h with
  | @mk e hspell _ _ ih =>
    cases e with
    | name m n => exact .cons hspell .nil
    | literal m v =>
      refine .cons ?_ .nil
      cases v with
      | number x => exact hspell
      | text s => exact lexesAs_text s
      | boolean b => cases b <;> rfl
      | null => rfl
      | undefined => rfl
    | object m es =>
      have hes := legible_entries fun e he => ih e.2 (List.mem_map_of_mem he)
      exact .append (.cons (lexesAs_punct _) (.separate hes)) (.punct _)
    | member m o key =>
      have hkey : LexesAs ((wordToken key).spell numeral) (wordToken key) := by
        rw [spell_wordToken]
        exact hspell
      exact .append (ih o List.mem_cons_self).enclose (.cons (lexesAs_punct _) (.cons hkey .nil))
    | index m o k =>
      exact .append (.append (ih o (by simp [parts])).enclose (.cons (lexesAs_punct _) (ih k (by simp [parts])))) (.punct _)
    | unary m op a =>
      refine .cons ?_ (ih a List.mem_cons_self).enclose
      cases op with
      | typeof => rfl
      | _ => exact lexesAs_punct _
    | update m op before t =>
      cases before with
      | false => exact .append (ih t List.mem_cons_self).enclose (.punct _)
      | true => exact .cons (lexesAs_punct _) (ih t List.mem_cons_self).enclose
    | binary m op l r =>
      exact .append (ih l (by simp [parts])).enclose (.cons (lexesAs_punct _) (ih r (by simp [parts])).enclose)
    | logical m op l r =>
      exact .append (ih l (by simp [parts])).enclose (.cons (lexesAs_punct _) (ih r (by simp [parts])).enclose)
    | conditional m t y n =>
      exact .append (.append (ih t (by simp [parts])).enclose (.cons (lexesAs_punct _) (ih y (by simp [parts])).enclose))
        (.cons (lexesAs_punct _) (ih n (by simp [parts])).enclose)
    | assign m op t v =>
      exact .append (ih t (by simp [parts])).enclose (.cons (lexesAs_punct _) (ih v (by simp [parts])).enclose)
    | sequence m es => exact .separate (legible_items ih)

theorem Program.Printable.legible {p : Program μ} (h : p.Printable numeral) : Legible numeral p.tokens := by
  intro t ht
  obtain ⟨s, hs, ht⟩ := List.mem_flatMap.mp ht
  cases s with
  | empty m => exact Legible.punct _ t ht
  | expression m e => exact Legible.append (h _ hs e List.mem_cons_self).legible (.punct _) t ht

end Eventful.Expr
