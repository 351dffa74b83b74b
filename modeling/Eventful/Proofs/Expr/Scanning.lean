import Eventful.Proofs.Expr.Lexing

/-
  Eventful.Proofs.Expr.Scanning — reading tokens with two cursors.

  A scanner goes over a source text with an iterator over its characters and, beside it, a
  32-bit byte offset, and where it needs the text again it slices the source by the offset.
  A slice off a character boundary fails, which is `none` here (`slice_eq_some`).

  Every operation leaves a scanner as `Scanner.moveTo` has it: some suffix of the characters,
  and the offset moved by what was taken. While the two cursors are in step (`InStep`) no
  slice fails, and the scanner reads the tokens that `Reader.next` reads (`next_reads`).
-/

namespace Eventful.Expr

variable {c c' : Char} {cs rest : List Char}

/-! ## Slices -/

/-- What comes after the first `n` bytes, if a character ends there. -/
def fromByte : List Char → Nat → Option (List Char)
  | cs, 0 => some cs
  | [], _ + 1 => none
  | c :: cs, n + 1 => if c.utf8Size ≤ n + 1 then fromByte cs (n + 1 - c.utf8Size) else none

/-- The first `n` bytes, if a character ends there. -/
def toByte : List Char → Nat → Option (List Char)
  | _, 0 => some []
  | [], _ + 1 => none
  | c :: cs, n + 1 => if c.utf8Size ≤ n + 1 then (toByte cs (n + 1 - c.utf8Size)).map (c :: ·) else none

/-- The bytes from `start` to `stop`. -/
def slice (source : List Char) (start stop : Nat) : Option (List Char) :=
  if start ≤ stop then (fromByte source start).bind (toByte · (stop - start)) else none

theorem fromByte_cons (h : c.utf8Size ≤ n) : fromByte (c :: cs) n = fromByte cs (n - c.utf8Size) := by
  have := c.utf8Size_pos
  cases n with
  | zero => omega
  | succ n => rw [fromByte, if_pos h]

theorem toByte_cons (h : c.utf8Size ≤ n) : toByte (c :: cs) n = (toByte cs (n - c.utf8Size)).map (c :: ·) := by
  have := c.utf8Size_pos
  cases n with
  | zero => omega
  | succ n => rw [toByte, if_pos h]

theorem fromByte_append (before : List Char) : fromByte (before ++ rest) (bytes before) = some rest := by
  induction before with
  | nil => cases rest <;> rfl
  | cons c cs ih => simpa [fromByte_cons] using ih

theorem toByte_append (read : List Char) : toByte (read ++ rest) (bytes read) = some read := by
  induction read with
  | nil => cases rest <;> rfl
  | cons c cs ih => simpa [toByte_cons] using ih

theorem slice_append (before read : List Char) :
    slice (before ++ (read ++ rest)) (bytes before) (bytes before + bytes read) = some read := by
  rw [slice, if_pos (Nat.le_add_right _ _), fromByte_append, Nat.add_sub_cancel_left]
  exact toByte_append read

theorem of_fromByte {n : Nat} (h : fromByte cs n = some rest) : ∃ before, cs = before ++ rest ∧ bytes before = n := by
  fun_induction fromByte cs n with
  | case1 => exact ⟨[], Option.some.inj h, rfl⟩
  | case2 => nomatch h
  | case3 c cs n hle ih =>
    obtain ⟨before, rfl, hb⟩ := ih h
    exact ⟨c :: before, rfl, by rw [bytes_cons]; omega⟩
  | case4 => nomatch h

theorem of_toByte {n : Nat} {read : List Char} (h : toByte cs n = some read) :
    ∃ after, cs = read ++ after ∧ bytes read = n := by
  fun_induction toByte cs n generalizing read with
  | case1 cs =>
    cases h
    exact ⟨cs, rfl, rfl⟩
  | case2 => nomatch h
  | case3 c cs n hle ih =>
    obtain ⟨read', hread, rfl⟩ := Option.map_eq_some_iff.mp h
    obtain ⟨after, rfl, hb⟩ := ih hread
    exact ⟨after, rfl, by rw [bytes_cons]; omega⟩
  | case4 => nomatch h

/-- A slice gives what stands between two offsets, and fails unless both are between characters. -/
theorem slice_eq_some {source read : List Char} {start stop : Nat} :
    slice source start stop = some read ↔
      ∃ before after, source = before ++ (read ++ after) ∧ bytes before = start ∧ start + bytes read = stop := by
  constructor
  · intro h
    unfold slice at h
    split at h
    · obtain ⟨cs, hcs, hread⟩ := Option.bind_eq_some_iff.mp h
      obtain ⟨before, rfl, hb⟩ := of_fromByte hcs
      obtain ⟨after, rfl, hr⟩ := of_toByte hread
      exact ⟨before, after, rfl, hb, by omega⟩
    · nomatch h
  · rintro ⟨before, after, rfl, rfl, rfl⟩
    exact slice_append before read

/-! ## Scanners -/

/-- A source text, the characters an iterator over it has left, and a byte offset. -/
structure Scanner where
  source : List Char
  chars : List Char
  offset : UInt32

namespace Scanner

def ofSource (source : String) : Scanner := ⟨source.toList, source.toList, 0⟩

def peek (s : Scanner) : Option Char := s.chars.head?

/-- The character after the next one, by the offset. -/
def peekNext (s : Scanner) : Option (Option Char) :=
  (fromByte s.source s.offset.toNat).map fun cs => cs.tail.head?

def advance (s : Scanner) : Option Char × Scanner :=
  match s.chars with
  | [] => (none, s)
  | c :: cs => (some c, ⟨s.source, cs, s.offset + .ofNat c.utf8Size⟩)

theorem length_advance_lt {s : Scanner} (h : s.peek = some c) : s.advance.2.chars.length < s.chars.length := by
  unfold peek at h
  unfold advance
  split <;> simp_all

theorem length_advance_le (s : Scanner) : s.advance.2.chars.length ≤ s.chars.length := by
  unfold advance
  split <;> simp_all

def eat (s : Scanner) (expected : Char) : Bool × Scanner :=
  if s.peek = some expected then (true, s.advance.2) else (false, s)

/-- Goes on while the next character is one of these. -/
def advanceWhile (s : Scanner) (p : Char → Bool) : Scanner :=
  match _h : s.peek with
  | some c => if p c then s.advance.2.advanceWhile p else s
  | none => s
termination_by s.chars.length
decreasing_by exact length_advance_lt ‹_›

/-- Goes on past the end of a block comment. -/
def passBlock (s : Scanner) : Scanner :=
  match _h : s.peek with
  | some c =>
    if c = '*' ∧ s.advance.2.peek = some '/' then s.advance.2.advance.2 else s.advance.2.passBlock
  | none => s
termination_by s.chars.length
decreasing_by exact length_advance_lt ‹_›

/-- The bytes from an offset to where the scanner is. -/
def sliceFrom (s : Scanner) (start : UInt32) : Option (List Char) := slice s.source start.toNat s.offset.toNat

/-- The scanner once only `rest` is left. -/
def moveTo (s : Scanner) (rest : List Char) : Scanner :=
  ⟨s.source, rest, s.offset + .ofNat (bytes s.chars - bytes rest)⟩

variable {s : Scanner}

@[simp] theorem moveTo_source : (s.moveTo rest).source = s.source := rfl

@[simp] theorem moveTo_chars : (s.moveTo rest).chars = rest := rfl

@[simp] theorem moveTo_chars_self : s.moveTo s.chars = s := by simp [moveTo]

theorem moveTo_self (h : s.chars = cs) : s.moveTo cs = s := h ▸ moveTo_chars_self

theorem moveTo_moveTo {cs cs' : List Char} (h : cs <:+ s.chars) (h' : cs' <:+ cs) :
    (s.moveTo cs).moveTo cs' = s.moveTo cs' := by
  have h₁ := bytes_suffix h
  have h₂ := bytes_suffix h'
  have hsum : bytes s.chars - bytes cs + (bytes cs - bytes cs') = bytes s.chars - bytes cs' := by omega
  simp only [moveTo, UInt32.add_assoc, ← UInt32.ofNat_add, hsum]

theorem advance_eq (h : s.chars = c :: cs) : s.advance = (some c, s.moveTo cs) := by
  simp [advance, h, moveTo]

theorem peek_eq (h : s.chars = c :: cs) : s.peek = some c := by simp [peek, h]

theorem peek_eq_none (h : s.chars = []) : s.peek = none := by simp [peek, h]

theorem advanceWhile_eq (s : Scanner) (p : Char → Bool) : s.advanceWhile p = s.moveTo (s.chars.dropWhile p) := by
  generalize hn : s.chars = cs
  induction cs generalizing s with
  | nil =>
    rw [advanceWhile, peek_eq_none hn]
    exact (moveTo_self hn).symm
  | cons c cs ih =>
    rw [advanceWhile, peek_eq hn, advance_eq hn]
    by_cases hp : p c
    · simp only [hp, if_true, List.dropWhile_cons]
      rw [ih _ moveTo_chars, moveTo_moveTo (hn ▸ List.suffix_cons c cs) (List.dropWhile_suffix p)]
    · simp only [hp, List.dropWhile_cons]
      exact (moveTo_self hn).symm

/-- What a block comment leaves of the text after its start. -/
def afterBlock : List Char → List Char
  | [] => []
  | '*' :: '/' :: cs => cs
  | _ :: cs => afterBlock cs

theorem afterBlock_suffix (cs : List Char) : afterBlock cs <:+ cs := by
  fun_induction afterBlock cs with
  | case1 => exact List.suffix_refl _
  | case2 cs => exact (List.suffix_cons _ _).trans (List.suffix_cons _ _)
  | case3 c cs _ ih => exact ih.trans (List.suffix_cons _ _)

theorem passBlock_eq (s : Scanner) : s.passBlock = s.moveTo (afterBlock s.chars) := by
  generalize hn : s.chars = cs
  fun_induction afterBlock cs generalizing s with
  | case1 =>
    rw [passBlock, peek_eq_none hn]
    exact (moveTo_self hn).symm
  | case2 cs =>
    rw [passBlock, peek_eq hn, advance_eq hn]
    simp only [peek_eq moveTo_chars, advance_eq moveTo_chars, and_self, if_true]
    exact moveTo_moveTo (hn ▸ List.suffix_cons _ _) (List.suffix_cons _ _)
  | case3 c cs hend ih =>
    have hnot : ¬(c = '*' ∧ (s.moveTo cs).peek = some '/') := by
      intro ⟨hc, hp⟩
      obtain ⟨ds, rfl⟩ := List.head?_eq_some_iff.mp hp
      exact hend ds hc rfl
    rw [passBlock, peek_eq hn, advance_eq hn]
    simp only [hnot, if_false]
    rw [ih _ moveTo_chars, moveTo_moveTo (hn ▸ List.suffix_cons _ _) (afterBlock_suffix cs)]

/-! ## In step -/

/-- The offset says where the iterator is, and it can count the bytes of the source. -/
structure InStep (s : Scanner) : Prop where
  small : bytes s.source < UInt32.size
  split : ∃ before, s.source = before ++ s.chars ∧ s.offset.toNat = bytes before

theorem inStep_ofSource {source : String} (h : bytes source.toList < UInt32.size) : (ofSource source).InStep :=
  ⟨h, [], rfl, rfl⟩

namespace InStep

theorem offset_moveTo (h : s.InStep) {read : List Char} (e : s.chars = read ++ rest) :
    (s.moveTo rest).offset.toNat = s.offset.toNat + bytes read := by
  obtain ⟨before, hs, ho⟩ := h.split
  have hsmall := h.small
  rw [hs, e, bytes_append, bytes_append] at hsmall
  simp only [moveTo, e, bytes_append, Nat.add_sub_cancel, UInt32.toNat_add, UInt32.toNat_ofNat', UInt32.size, ho] at hsmall ⊢
  omega

theorem moveTo (h : s.InStep) (hr : rest <:+ s.chars) : (s.moveTo rest).InStep := by
  obtain ⟨before, hs, ho⟩ := h.split
  obtain ⟨read, e⟩ := hr
  refine ⟨h.small, before ++ read, ?_, ?_⟩
  · rw [moveTo_source, moveTo_chars, hs, ← e, List.append_assoc]
  · rw [h.offset_moveTo e.symm, ho, bytes_append]

theorem peekNext_eq (h : s.InStep) : s.peekNext = some s.chars.tail.head? := by
  obtain ⟨before, hs, ho⟩ := h.split
  rw [peekNext, hs, ho, fromByte_append]
  rfl

theorem sliceFrom_moveTo (h : s.InStep) {read : List Char} (e : s.chars = read ++ rest) :
    (s.moveTo rest).sliceFrom s.offset = some read := by
  obtain ⟨before, hs, ho⟩ := h.split
  rw [sliceFrom, h.offset_moveTo e, moveTo_source, hs, e, ho]
  exact slice_append before read

end InStep

/-! ## Gaps -/

/-- Goes on past blanks and comments. -/
def passGap (s : Scanner) : Option Scanner :=
  match _h : s.peek with
  | some '/' =>
    match s.peekNext with
    | none => none
    | some (some '/') => (s.advanceWhile (· != '\n')).passGap
    | some (some '*') => s.advance.2.advance.2.passBlock.passGap
    | some _ => some s
  | some c => if isSpace c then s.advance.2.passGap else some s
  | none => some s
termination_by s.chars.length
decreasing_by
  · obtain ⟨cs, hcs⟩ := List.head?_eq_some_iff.mp _h
    have := (List.dropWhile_suffix (· != '\n') (l := cs)).length_le
    rw [advanceWhile_eq, moveTo_chars, hcs, List.dropWhile_cons_of_pos (by decide), List.length_cons]
    omega
  · have h₁ := length_advance_lt _h
    have h₂ := length_advance_le s.advance.2
    rw [passBlock_eq, moveTo_chars]
    have h₃ := (afterBlock_suffix s.advance.2.advance.2.chars).length_le
    omega
  · exact length_advance_lt _h

end Scanner

theorem skip_line (cs : List Char) : skip .line cs = skip .between (cs.dropWhile (· != '\n')) := by
  induction cs with
  | nil => rfl
  | cons c cs ih =>
    by_cases hc : c = '\n'
    · subst hc
      rfl
    · rw [List.dropWhile_cons_of_pos (by simpa using hc), ← ih]
      simp [skip, hc]

theorem skip_block (cs : List Char) : skip .block cs = skip .between (Scanner.afterBlock cs) := by
  fun_induction Scanner.afterBlock cs with
  | case1 => rfl
  | case2 cs => rfl
  | case3 c cs hend ih => rw [skip, ih]; exact hend

namespace Scanner

variable {s : Scanner}

theorem peek_cons (h : s.peek = some c) : ∃ cs, s.chars = c :: cs := List.head?_eq_some_iff.mp h

/-- Past a part of a gap the rest of the gap is passed. -/
theorem passGap_from {t : Scanner} (h : s.InStep) (hr : rest <:+ s.chars) (ht : t = s.moveTo rest)
    (ih : t.InStep → t.passGap = some (t.moveTo (skip .between t.chars)))
    (hskip : skip .between s.chars = skip .between rest) : t.passGap = some (s.moveTo (skip .between s.chars)) := by
  subst ht
  rw [ih (h.moveTo hr), moveTo_chars, moveTo_moveTo hr (skip_suffix .between rest), hskip]

theorem passGap_eq (s : Scanner) (h : s.InStep) : s.passGap = some (s.moveTo (skip .between s.chars)) := by
  fun_induction passGap s with
  | case1 s _ hn =>
    rw [h.peekNext_eq] at hn
    nomatch hn
  | case2 s hp hn ih =>
    obtain ⟨cs, hcs⟩ := peek_cons hp
    refine passGap_from h (List.dropWhile_suffix _) (advanceWhile_eq s _) ih ?_
    rw [h.peekNext_eq, hcs] at hn
    obtain ⟨ds, rfl⟩ := List.head?_eq_some_iff.mp (Option.some.inj hn)
    rw [hcs]
    exact skip_line ds
  | case3 s hp hn ih =>
    obtain ⟨cs, hcs⟩ := peek_cons hp
    rw [h.peekNext_eq, hcs] at hn
    obtain ⟨ds, rfl⟩ := List.head?_eq_some_iff.mp (Option.some.inj hn)
    have h₁ : '*' :: ds <:+ s.chars := hcs ▸ List.suffix_cons _ _
    have h₂ : ds <:+ s.chars := (List.suffix_cons _ _).trans h₁
    have hpass : s.advance.2.advance.2.passBlock = s.moveTo (afterBlock ds) := by
      rw [advance_eq hcs, advance_eq moveTo_chars, passBlock_eq, moveTo_moveTo h₁ (List.suffix_cons _ _), moveTo_chars,
        moveTo_moveTo h₂ (afterBlock_suffix ds)]
    refine passGap_from h ((afterBlock_suffix ds).trans h₂) hpass ih ?_
    rw [hcs, ← skip_block]
    rfl
  | case4 s hp next hline hblock hn =>
    obtain ⟨cs, hcs⟩ := peek_cons hp
    rw [h.peekNext_eq, hcs, Option.some.injEq] at hn
    refine congrArg some (moveTo_self ?_).symm
    rw [hcs]
    cases cs with
    | nil => rfl
    | cons d ds =>
      subst hn
      rw [skip, if_neg (by decide)]
      · intro cs _ e
        exact hline (congrArg List.head? e)
      · intro cs _ e
        exact hblock (congrArg List.head? e)
  | case5 s c hc hp hspace ih =>
    obtain ⟨cs, hcs⟩ := peek_cons hp
    refine passGap_from h (hcs ▸ List.suffix_cons _ _) (congrArg Prod.snd (advance_eq hcs)) ih ?_
    rw [hcs, skip, if_pos hspace]
    · exact fun _ e _ => hc e
    · exact fun _ e _ => hc e
  | case6 s c hc hp hspace =>
    obtain ⟨cs, hcs⟩ := peek_cons hp
    refine congrArg some (moveTo_self ?_).symm
    rw [hcs, skip, if_neg hspace]
    · exact fun _ e _ => hc e
    · exact fun _ e _ => hc e
  | case7 s hp =>
    refine congrArg some (moveTo_self ?_).symm
    rw [List.head?_eq_none_iff.mp hp]
    rfl

/-! ## Tokens -/

def scanName (s : Scanner) (start : UInt32) : Option (Token × Scanner) := do
  let s := s.advanceWhile isNamePart
  let word := String.ofList (← s.sliceFrom start)
  return ((keyword? word).getD (.name word), s)

/-- Goes on past a point and digits, if there are digits after the point. -/
def passFraction (s : Scanner) : Option Scanner :=
  if s.peek = some '.' then do
    let next ← s.peekNext
    return if next.any Char.isDigit then s.advance.2.advanceWhile Char.isDigit else s
  else some s

/-- Goes on past an `e`, a sign and digits. -/
def passExponent (s : Scanner) : Scanner :=
  if s.peek = some 'e' ∨ s.peek = some 'E' then
    let s := s.advance.2
    let s := if s.peek = some '+' ∨ s.peek = some '-' then s.advance.2 else s
    s.advanceWhile Char.isDigit
  else s

def scanNumber (s : Scanner) (start : UInt32) : Option (Token × Scanner) := do
  let s ← (s.advanceWhile fun c => c.isDigit || c == '_').passFraction
  let s := s.passExponent
  let text := (← s.sliceFrom start).filter (· != '_')
  return match Number.ofNumeral? text with
    | some x => (.number x, s)
    | none => (.fault (.badNumber (String.ofList text)), s)

/-- Reads a text up to the closing quote; `read` is what came before, last first. -/
def scanText (quote : Char) (read : List Char) (s : Scanner) : Token × Scanner :=
  match _h : s.peek with
  | none => (.fault .unclosedText, s)
  | some c =>
    if c = quote then (.text (String.ofList read.reverse), s.advance.2)
    else if c = '\\' then
      match s.advance.2.peek with
      | none => (.fault .unclosedText, s.advance.2)
      | some d => scanText quote (unescape d :: read) s.advance.2.advance.2
    else scanText quote (c :: read) s.advance.2
termination_by s.chars.length
decreasing_by
  · have h₁ := length_advance_lt _h
    have h₂ := length_advance_le s.advance.2
    omega
  · exact length_advance_lt _h

/-- One sign or another, the first if the next character is `expected`. -/
def scanEither (s : Scanner) (expected : Char) (yes no : Punct) : Token × Scanner :=
  if (s.eat expected).1 then (.punct yes, (s.eat expected).2) else (.punct no, s)

/-- A sign that is longer with one `=` after it and longer still with two. -/
def scanEquals (s : Scanner) (one two three : Punct) : Token × Scanner :=
  if (s.eat '=').1 then (s.eat '=').2.scanEither '=' three two else (.punct one, s)

/-- A sign of twice the character `c`, which is none on its own. -/
def scanTwice (s : Scanner) (c : Char) (p : Punct) : Token × Scanner :=
  if (s.eat c).1 then (.punct p, (s.eat c).2) else (.fault (.unsupported c), s)

def scanSign (c : Char) (s : Scanner) : Token × Scanner :=
  match c with
  | '\x7b' => (.punct .openBrace, s)
  | '\x7d' => (.punct .closeBrace, s)
  | '(' => (.punct .openParen, s)
  | ')' => (.punct .closeParen, s)
  | '[' => (.punct .openBracket, s)
  | ']' => (.punct .closeBracket, s)
  | '.' => (.punct .dot, s)
  | ';' => (.punct .semicolon, s)
  | ',' => (.punct .comma, s)
  | ':' => (.punct .colon, s)
  | '?' => s.scanEither '?' .nullish .question
  | '+' =>
    if s.peek = some '+' then (.punct .plusPlus, s.advance.2) else s.scanEither '=' .plusAssign .plus
  | '-' =>
    if s.peek = some '-' then (.punct .minusMinus, s.advance.2) else s.scanEither '=' .minusAssign .minus
  | '*' => s.scanEither '=' .starAssign .star
  | '/' => s.scanEither '=' .slashAssign .slash
  | '%' => (.punct .percent, s)
  | '<' => s.scanEither '=' .lessEq .less
  | '>' => s.scanEither '=' .greaterEq .greater
  | '=' => s.scanEquals .assign .looseEq .strictEq
  | '!' => s.scanEquals .bang .looseNe .strictNe
  | '&' => s.scanTwice '&' .and
  | '|' => s.scanTwice '|' .or
  | c => (.fault (.unexpected c), s)

/-- Reads the token that starts with `c`, at the offset `start`. -/
def scanToken (c : Char) (start : UInt32) (s : Scanner) : Option (Token × Scanner) :=
  if isNameStart c then s.scanName start
  else if c.isDigit || (c == '.' && s.peek.any Char.isDigit) then s.scanNumber start
  else if c == '"' || c == '\'' then some (scanText c [] s)
  else some (scanSign c s)

/-- The next token; `none` if a slice fails. -/
def next (s : Scanner) : Option (Lexeme × Scanner) := do
  let s ← s.passGap
  let start := s.offset
  match s.advance with
  | (none, s) => return (⟨.eof, ⟨start.toNat, start.toNat⟩⟩, s)
  | (some c, s) =>
    let (token, s) ← scanToken c start s
    return (⟨token, ⟨start.toNat, s.offset.toNat⟩⟩, s)

end Scanner

/-! ## What is sliced is what was read -/

theorem fractionPart_append (cs : List Char) : (fractionPart cs).1 ++ (fractionPart cs).2 = cs := by
  unfold fractionPart
  split
  · split
    · simp [List.takeWhile_append_dropWhile]
    · rfl
  · rfl

theorem exponentPart_append (cs : List Char) : (exponentPart cs).1 ++ (exponentPart cs).2 = cs := by
  unfold exponentPart
  split
  · rfl
  · dsimp only
    split
    · split <;> simp [List.takeWhile_append_dropWhile]
    · rfl

namespace Scanner

variable {s : Scanner}

theorem scanName_eq (h : s.InStep) (e : s.chars = c :: cs) :
    (s.moveTo cs).scanName s.offset = some ((readName c cs).1, s.moveTo (readName c cs).2) := by
  have hs : cs <:+ s.chars := e ▸ List.suffix_cons c cs
  have hread : s.chars = (c :: cs.takeWhile isNamePart) ++ cs.dropWhile isNamePart := by
    rw [e, List.cons_append, List.takeWhile_append_dropWhile]
  rw [scanName, advanceWhile_eq, moveTo_chars, moveTo_moveTo hs (List.dropWhile_suffix _), h.sliceFrom_moveTo hread]
  rfl

theorem passFraction_eq (h : s.InStep) : s.passFraction = some (s.moveTo (fractionPart s.chars).2) := by
  unfold passFraction
  split
  · rename_i hp
    obtain ⟨cs, hcs⟩ := peek_cons hp
    rw [h.peekNext_eq, hcs]
    cases cs with
    | nil => exact congrArg some (moveTo_self hcs).symm
    | cons d ds =>
      have hs : d :: ds <:+ s.chars := hcs ▸ List.suffix_cons _ _
      by_cases hd : d.isDigit
      · simp only [Option.bind_eq_bind, Option.bind_some, List.tail_cons, List.head?_cons, Option.any_some, hd,
          if_true, advance_eq hcs, advanceWhile_eq, moveTo_chars, fractionPart, List.dropWhile_cons]
        exact congrArg some (moveTo_moveTo hs ((List.dropWhile_suffix _).trans (List.suffix_cons _ _)))
      · simp only [Option.bind_eq_bind, Option.bind_some, List.tail_cons, List.head?_cons, Option.any_some, hd,
          fractionPart]
        exact congrArg some (moveTo_self hcs).symm
  · rename_i hp
    refine congrArg some (moveTo_self ?_).symm
    unfold fractionPart
    split
    · rename_i hcs
      exact absurd (peek_eq hcs) hp
    · rfl

theorem passExponent_eq (s : Scanner) : s.passExponent = s.moveTo (exponentPart s.chars).2 := by
  unfold passExponent
  cases hcs : s.chars with
  | nil => simpa [peek, hcs, exponentPart] using (moveTo_self hcs).symm
  | cons e cs =>
    have hs : cs <:+ s.chars := hcs ▸ List.suffix_cons _ _
    have hs : cs <:+ s.chars := hcs ▸ List.suffix_cons _ _
    by_cases he : e = 'e' ∨ e = 'E'
    · have he' : (e == 'e' || e == 'E') = true := by simpa using he
      simp only [peek_eq hcs, Option.some.injEq, he, if_true, advance_eq hcs, exponentPart, he']
      have hdigits : ∀ {ds}, ds <:+ cs →
          (s.moveTo ds).advanceWhile Char.isDigit = s.moveTo (ds.dropWhile Char.isDigit) := by
        intro ds hds
        rw [advanceWhile_eq, moveTo_chars, moveTo_moveTo (hds.trans hs) (List.dropWhile_suffix _)]
      cases cs with
      | nil => exact hdigits (List.suffix_refl _)
      | cons d ds =>
        have hsign : (s.moveTo (d :: ds)).advance.2 = s.moveTo ds := by
          rw [advance_eq moveTo_chars, moveTo_moveTo hs (List.suffix_cons d ds)]
        simp only [peek_eq moveTo_chars, Option.some.injEq, hsign]
        by_cases hd : d = '+' ∨ d = '-'
        · rw [if_pos hd, hdigits (List.suffix_cons d ds)]
          rcases hd with rfl | rfl <;> rfl
        · rw [if_neg hd, hdigits (List.suffix_refl _)]
          split
          · rename_i h
            exact absurd (.inl (List.cons.inj h).1) hd
          · rename_i h
            exact absurd (.inr (List.cons.inj h).1) hd
          · rfl
    · have he' : (e == 'e' || e == 'E') = false := by simpa using he
      simp only [peek_eq hcs, Option.some.injEq, he, if_false, exponentPart, he']
      exact (moveTo_self hcs).symm

theorem scanText_eq {quote : Char} (hq : quote ≠ '\\') (read : List Char) (s : Scanner) :
    scanText quote read s = ((readText quote read s.chars).1, s.moveTo (readText quote read s.chars).2) := by
  generalize hn : s.chars = cs
  fun_induction readText quote read cs generalizing s with
  | case1 =>
    rw [scanText, peek_eq_none hn]
    simp [moveTo_self hn]
  | case2 read =>
    rw [scanText, peek_eq hn]
    simp [hq.symm, advance_eq hn, peek]
  | case3 read c cs ih =>
    rw [scanText, peek_eq hn]
    simp only [hq.symm, if_false, if_true, advance_eq hn, peek_eq moveTo_chars, advance_eq moveTo_chars]
    rw [ih _ moveTo_chars, moveTo_moveTo (hn ▸ List.suffix_cons _ _) (List.suffix_cons _ _), moveTo_moveTo]
    · exact hn ▸ (List.suffix_cons _ _).trans (List.suffix_cons _ _)
    · exact readText_suffix _ _ _
  | case4 read c cs _ _ hc =>
    rw [scanText, peek_eq hn]
    simp [beq_iff_eq.mp hc, advance_eq hn]
  | case5 read c cs hend hesc hc ih =>
    have hback : c ≠ '\\' := by
      intro h
      cases cs with
      | nil => exact hend h rfl
      | cons d ds => exact hesc d ds h rfl
    have hquote : c ≠ quote := by simpa using hc
    rw [scanText, peek_eq hn]
    simp only [hquote, hback, if_false, advance_eq hn]
    rw [ih _ moveTo_chars, moveTo_moveTo (hn ▸ List.suffix_cons _ _) (readText_suffix _ _ _)]

/-- The sign that starts with `c`, as it is read off the characters. -/
def signOf (c : Char) (s : Scanner) : Token × Scanner :=
  match readPunct (c :: s.chars) with
  | some (p, cs) => (.punct p, s.moveTo cs)
  | none => (.fault (if c == '&' || c == '|' then .unsupported c else .unexpected c), s)

theorem signOf_one {p : Punct} (h : readPunct (c :: s.chars) = some (p, s.chars)) : signOf c s = (.punct p, s) := by
  rw [signOf, h]
  exact congrArg (Prod.mk _) moveTo_chars_self

theorem signOf_two {p : Punct} (hs : s.peek = some c') (h : ∀ ds, readPunct (c :: c' :: ds) = some (p, ds)) :
    signOf c s = (.punct p, s.advance.2) := by
  obtain ⟨ds, hds⟩ := peek_cons hs
  rw [signOf, hds, h, advance_eq hds]

theorem signOf_none (h : readPunct (c :: s.chars) = none) :
    signOf c s = (.fault (if c == '&' || c == '|' then .unsupported c else .unexpected c), s) := by
  rw [signOf, h]

theorem not_cons (h : s.peek ≠ some c) : ∀ ds, s.chars ≠ c :: ds := fun _ e => h (peek_eq e)

theorem scanEither_eq {expected : Char} {yes no : Punct}
    (hyes : ∀ ds, readPunct (c :: expected :: ds) = some (yes, ds))
    (hno : (∀ ds, s.chars ≠ expected :: ds) → readPunct (c :: s.chars) = some (no, s.chars)) :
    s.scanEither expected yes no = signOf c s := by
  unfold scanEither eat
  by_cases h : s.peek = some expected
  · rw [if_pos h, if_pos rfl, signOf_two h hyes]
  · rw [if_neg h, if_neg Bool.false_ne_true, signOf_one (hno (not_cons h))]

theorem scanEquals_eq {one two three : Punct}
    (h₃ : ∀ ds, readPunct (c :: '=' :: '=' :: ds) = some (three, ds))
    (h₂ : ∀ ds, (∀ es, ds ≠ '=' :: es) → readPunct (c :: '=' :: ds) = some (two, ds))
    (h₁ : (∀ ds, s.chars ≠ '=' :: ds) → readPunct (c :: s.chars) = some (one, s.chars)) :
    s.scanEquals one two three = signOf c s := by
  unfold scanEquals eat
  by_cases h : s.peek = some '='
  · rw [if_pos h, if_pos rfl]
    obtain ⟨ds, hds⟩ := peek_cons h
    have hs : ds <:+ s.chars := hds ▸ List.suffix_cons _ _
    rw [advance_eq hds, signOf, hds]
    unfold scanEither eat
    by_cases h' : (s.moveTo ds).peek = some '='
    · obtain ⟨es, hes⟩ := peek_cons h'
      rw [moveTo_chars] at hes
      subst hes
      rw [if_pos h', if_pos rfl, advance_eq moveTo_chars, moveTo_moveTo hs (List.suffix_cons _ _), h₃]
    · rw [if_neg h', if_neg Bool.false_ne_true, h₂ ds (not_cons h')]
  · rw [if_neg h, if_neg Bool.false_ne_true, signOf_one (h₁ (not_cons h))]

theorem scanTwice_eq {p : Punct} (hc : c = '&' ∨ c = '|') (hyes : ∀ ds, readPunct (c :: c :: ds) = some (p, ds))
    (hno : (∀ ds, s.chars ≠ c :: ds) → readPunct (c :: s.chars) = none) : s.scanTwice c p = signOf c s := by
  unfold scanTwice eat
  by_cases h : s.peek = some c
  · rw [if_pos h, if_pos rfl, signOf_two h hyes]
  · rw [if_neg h, if_neg Bool.false_ne_true, signOf_none (hno (not_cons h)), if_pos (by simpa using hc)]

theorem scanSign_eq (c : Char) (s : Scanner) : scanSign c s = signOf c s := by
  unfold scanSign
  split
  case h_11 | h_14 | h_15 | h_17 | h_18 =>
    refine scanEither_eq (fun _ => rfl) fun h => ?_
    rw [readPunct]
    exact h
  case h_12 | h_13 =>
    split
    · rename_i h
      exact (signOf_two h fun _ => rfl).symm
    · rename_i h
      refine scanEither_eq (fun _ => rfl) fun h' => ?_
      rw [readPunct]
      · exact not_cons h
      · exact h'
  case h_19 | h_20 =>
    refine scanEquals_eq (fun _ => rfl) (fun ds h => ?_) fun h => ?_
    · rw [readPunct]
      exact h
    · rw [readPunct]
      · intro ds e
        exact h _ e
      · exact h
  case h_21 =>
    refine scanTwice_eq (.inl rfl) (fun _ => rfl) fun h => ?_
    rw [readPunct]
    all_goals
      intro ds e
      first
      | exact h _ (List.cons.inj e).2
      | exact absurd (List.cons.inj e).1 (by decide)
  case h_22 =>
    refine scanTwice_eq (.inr rfl) (fun _ => rfl) fun h => ?_
    rw [readPunct]
    all_goals
      intro ds e
      first
      | exact h _ (List.cons.inj e).2
      | exact absurd (List.cons.inj e).1 (by decide)
  case h_23 hamp hbar =>
    have hnone : readPunct (c :: s.chars) = none := by
      rw [readPunct]
      all_goals
        intro ds e
        have := (List.cons.inj e).1
        contradiction
    rw [signOf_none hnone, if_neg]
    simp only [Bool.or_eq_true, beq_iff_eq, not_or]
    exact ⟨hamp, hbar⟩
  all_goals exact (signOf_one rfl).symm

theorem scanNumber_eq (h : s.InStep) (e : s.chars = c :: cs) :
    (s.moveTo cs).scanNumber s.offset = some ((readNumber c cs).1, s.moveTo (readNumber c cs).2) := by
  have hs : cs <:+ s.chars := e ▸ List.suffix_cons c cs
  -- The three stretches that are passed, and what is left after each.
  let whole := cs.takeWhile fun c => c.isDigit || c == '_'
  let rest₁ := cs.dropWhile fun c => c.isDigit || c == '_'
  have h₁ : rest₁ <:+ cs := List.dropWhile_suffix _
  have h₂ : (fractionPart rest₁).2 <:+ rest₁ := fractionPart_suffix _
  have h₃ := exponentPart_suffix (fractionPart rest₁).2
  have hread : s.chars = (c :: whole ++ (fractionPart rest₁).1 ++ (exponentPart (fractionPart rest₁).2).1) ++
      (exponentPart (fractionPart rest₁).2).2 := by
    rw [List.append_assoc, exponentPart_append, List.append_assoc, fractionPart_append, List.cons_append,
      List.takeWhile_append_dropWhile, e]
  have hfrac : ((s.moveTo cs).advanceWhile fun c => c.isDigit || c == '_').passFraction =
      some (s.moveTo (fractionPart rest₁).2) := by
    rw [advanceWhile_eq, moveTo_chars, moveTo_moveTo hs h₁, passFraction_eq (h.moveTo (h₁.trans hs)), moveTo_chars,
      moveTo_moveTo (h₁.trans hs) h₂]
  have hexp : (s.moveTo (fractionPart rest₁).2).passExponent = s.moveTo (exponentPart (fractionPart rest₁).2).2 := by
    rw [passExponent_eq, moveTo_chars, moveTo_moveTo (h₂.trans (h₁.trans hs)) h₃]
  have hval : readNumber c cs =
      match Number.ofNumeral? ((c :: whole ++ (fractionPart rest₁).1 ++
          (exponentPart (fractionPart rest₁).2).1).filter (· != '_')) with
      | some x => (.number x, (exponentPart (fractionPart rest₁).2).2)
      | none => (.fault (.badNumber (String.ofList ((c :: whole ++ (fractionPart rest₁).1 ++
          (exponentPart (fractionPart rest₁).2).1).filter (· != '_')))), (exponentPart (fractionPart rest₁).2).2) := rfl
  rw [scanNumber, hfrac, hval]
  simp only [Option.bind_eq_bind, Option.bind_some, hexp, h.sliceFrom_moveTo hread]
  split <;> rfl

theorem scanToken_eq (h : s.InStep) (e : s.chars = c :: cs) :
    scanToken c s.offset (s.moveTo cs) = some ((readToken c cs).1, s.moveTo (readToken c cs).2) := by
  have hs : cs <:+ s.chars := e ▸ List.suffix_cons c cs
  have hdigit : (s.moveTo cs).peek.any Char.isDigit = startsWithDigit cs := by cases cs <;> rfl
  unfold scanToken readToken
  rw [hdigit]
  split
  · exact scanName_eq h e
  · split
    · exact scanNumber_eq h e
    · split
      · rename_i hq
        have hback : c ≠ '\\' := by
          rintro rfl
          revert hq
          decide
        rw [scanText_eq hback, moveTo_chars, moveTo_moveTo hs (readText_suffix c [] cs)]
      · rw [scanSign_eq, signOf, moveTo_chars]
        cases hp : readPunct (c :: cs) with
        | none => rfl
        | some read => exact congrArg some (congrArg (Prod.mk _) (moveTo_moveTo hs (readPunct_suffix hp)))

/-! ## The scanner and the reader -/

/-- The reader of what a scanner has left. -/
def reader (s : Scanner) : Reader := ⟨s.chars, s.offset.toNat⟩

theorem reader_moveTo (h : s.InStep) (hr : rest <:+ s.chars) :
    (s.moveTo rest).reader = ⟨rest, s.offset.toNat + (bytes s.chars - bytes rest)⟩ := by
  obtain ⟨read, e⟩ := hr
  rw [reader, h.offset_moveTo e.symm, moveTo_chars, ← e, bytes_append, Nat.add_sub_cancel]

/-- No slice fails, and the token is the reader's. -/
theorem next_reads (h : s.InStep) :
    ∃ s', s.next = some ((s.reader.next).1, s') ∧ s'.InStep ∧ s'.source = s.source ∧ s'.reader = (s.reader.next).2 := by
  have hskip := skip_suffix .between s.chars
  have hgap := h.moveTo hskip
  have hoff : (s.moveTo (skip .between s.chars)).offset.toNat =
      s.offset.toNat + (bytes s.chars - bytes (skip .between s.chars)) :=
    congrArg Reader.position (reader_moveTo h hskip)
  rw [next, passGap_eq s h]
  simp only [Option.bind_eq_bind, Option.bind_some, Reader.next, reader]
  cases hcs : skip .between s.chars with
  | nil =>
    rw [hcs] at hgap hoff
    rw [bytes_nil, Nat.sub_zero] at hoff
    simp only [advance, moveTo_chars, hoff]
    exact ⟨_, rfl, hgap, rfl, congrArg (Reader.mk []) hoff⟩
  | cons c cs =>
    rw [hcs] at hgap hoff hskip
    have hrest := (readToken_suffix c cs).trans (List.suffix_cons c cs)
    have hread := reader_moveTo hgap hrest
    rw [hoff, reader, Reader.mk.injEq] at hread
    simp only [advance_eq moveTo_chars, scanToken_eq hgap moveTo_chars, Option.bind_some, hoff, hread.2]
    exact ⟨_, rfl, hgap.moveTo hrest, rfl, by rw [hread.2]; rfl⟩

end Scanner
end Eventful.Expr
