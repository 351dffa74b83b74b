import Eventful.Proofs.Expr.RoundTrip
import Eventful.Proofs.Text
import Mathlib.Tactic.IntervalCases

/-
  Eventful.Proofs.Expr.Blanks — source texts of nothing but blanks.

  The lexer skips four of the blanks there are. A text of those alone is the empty program
  (`parse_spaces`). Any other blank is no token (`readToken_blank`), and a parser that comes
  to what is no token fails for that, at whatever level it is (`Fails`); so a text that
  begins with none does not parse (`parse_fault`).
-/

namespace Eventful.Expr

variable {α β : Type} {c : Cursor} {span : Span} {f : LexFault} {ch : Char} {cs before after : List Char} {source : String}

/-! ## Faults -/

/-- At a lexical fault that is what fails. -/
def Fails (p : Parse α) (c : Cursor) : Prop :=
  ∀ f span, c.current = ⟨.fault f, span⟩ → p c = .error ⟨.lexical f, span⟩

theorem fails_fail (fault : ParseFault) (c : Cursor) : Fails (fail fault : Parse α) c := by
  intro f span hc
  unfold fail
  rw [run_peek, hc]
  show (here >>= fun span => failAt (.lexical f) span) c = _
  rw [run_here, hc]
  rfl

theorem Fails.bind {p : Parse α} (h : Fails p c) (g : α → Parse β) : Fails (p >>= g) c := by
  intro f span hc
  show (do let r ← p c; g r.1 r.2 : Except ParseError (β × Cursor)) = _
  rw [h f span hc]
  rfl

/-- A parser that is too deep fails too; so only what it does at depth counts. -/
theorem fails_at {p : Nat → Parse α} (hzero : p 0 = fail .tooDeep) (hsucc : ∀ d, Fails (p (d + 1)) c) (d : Nat) :
    Fails (p d) c := by
  cases d with
  | zero => exact hzero ▸ fails_fail .tooDeep c
  | succ d => exact hsucc d

theorem fails_primary (c : Cursor) : ∀ d, Fails (primary d) c := by
  refine fails_at (by rw [primary]) fun d f span hc => ?_
  have hfail := fails_fail (α := Term Span) (.unexpected (.fault f)) c f span hc
  rw [primary, run_here, run_peek, hc]
  exact hfail

theorem fails_postfixed (c : Cursor) : ∀ d, Fails (postfixed d) c := by
  refine fails_at (by rw [postfixed]) fun d => ?_
  rw [postfixed]
  exact (fails_primary c d).bind _

theorem fails_unary (c : Cursor) : ∀ d, Fails (unary d) c := by
  refine fails_at (by rw [unary]) fun d f span hc => ?_
  rw [unary, run_here, run_peek, hc]
  exact fails_postfixed c d f span hc

theorem fails_operand (level : Nat) (c : Cursor) : ∀ d, Fails (operand d level) c := by
  induction level with
  | zero =>
    refine fails_at (by rw [operand]) fun d => ?_
    rw [operand]
    exact fails_unary c d
  | succ level ih =>
    refine fails_at (by rw [operand]) fun d => ?_
    rw [operand]
    exact (ih d).bind _

theorem fails_conditional (c : Cursor) : ∀ d, Fails (conditional d) c := by
  refine fails_at (by rw [conditional]) fun d => ?_
  rw [conditional]
  exact (fails_operand loosest c d).bind _

theorem fails_assignment (c : Cursor) : ∀ d, Fails (assignment d) c := by
  refine fails_at (by rw [assignment]) fun d => ?_
  rw [assignment]
  exact (fails_conditional c d).bind _

theorem fails_sequence (c : Cursor) : ∀ d, Fails (sequence d) c := by
  refine fails_at (by rw [sequence]) fun d => ?_
  rw [sequence]
  exact (fails_assignment c d).bind _

theorem fails_statement (d : Nat) (c : Cursor) : Fails (statement d) c := by
  intro f span hc
  rw [statement, run_here, run_peek, hc]
  exact (fails_sequence c d).bind _ f span hc

theorem fails_statements (d limit : Nat) (c : Cursor) : Fails (statements d limit) c := by
  intro f span hc
  cases limit with
  | zero =>
    rw [statements, run_peek, hc]
    exact fails_fail _ c f span hc
  | succ limit =>
    rw [statements, run_peek, hc]
    exact (fails_statement d c).bind _ f span hc

/-- A text that begins with no token does not parse. -/
theorem parse_fault (h : (Cursor.ofSource source).current = ⟨.fault f, span⟩) :
    parse source = .error ⟨.lexical f, span⟩ := by
  unfold parse
  dsimp only
  generalize Cursor.ofSource source = c at *
  have hprogram : program (depthPerLexeme * (c.rest.length + 1)) c.rest.length c = .error ⟨.lexical f, span⟩ := by
    rw [program, run_here]
    exact (fails_statements _ _ c).bind _ f span h
  simp only [StateT.run, hprogram]
  rfl

/-! ## Blanks -/

theorem skip_spaces (h : ∀ c ∈ before, isSpace c = true) (cs : List Char) :
    skip .between (before ++ cs) = skip .between cs := by
  induction before with
  | nil => rfl
  | cons c before ih =>
    obtain ⟨hc, hbefore⟩ := List.forall_mem_cons.mp h
    rw [List.cons_append, skip_blank hc, ih hbefore]

/-- A text of nothing but what the lexer skips is the empty program. -/
theorem parse_spaces (h : ∀ ch ∈ source.toList, isSpace ch = true) : ∃ m, parse source = .ok ⟨m, []⟩ := by
  have hskip : skip .between (Reader.ofSource source).rest = [] := by
    have := skip_spaces h []
    rwa [List.append_nil] at this
  have hlexemes : lexemes source = ([], (Reader.ofSource source).next.1) := lexemes_end rfl (next_eof hskip) _
  have heof : (Cursor.ofSource source).current.token = .eof := by
    unfold Cursor.ofSource Cursor.current
    rw [hlexemes]
    exact next_eof hskip
  exact ⟨_, parse_statements rfl (statements_end heof _ _)⟩

/-- The blanks that the lexer does not skip. -/
def unskipped : List Char :=
  ['\x0b', '\x0c', '\u0085', '\u00a0', '\u1680', '\u2000', '\u2001', '\u2002', '\u2003', '\u2004', '\u2005', '\u2006',
    '\u2007', '\u2008', '\u2009', '\u200a', '\u2028', '\u2029', '\u202f', '\u205f', '\u3000']

theorem mem_unskipped (hblank : Text.isBlank ch = true) (hspace : isSpace ch = false) : ch ∈ unskipped := by
  obtain ⟨r, hr, hfirst, hlast⟩ := Text.run_of_holds hblank
  have hcode : ch = Char.ofNat ch.toNat := (Char.ofNat_toNat ch).symm
  generalize ch.toNat = n at *
  subst hcode
  simp only [Text.blanks, List.mem_cons, List.not_mem_nil, or_false] at hr
  rcases hr with rfl | rfl | rfl | rfl | rfl | rfl | rfl | rfl | rfl | rfl <;> dsimp only at hfirst hlast <;>
    interval_cases n <;> first | decide | cases hspace

/-- A blank that the lexer does not skip is no token. -/
theorem readToken_blank (hblank : Text.isBlank ch = true) (hspace : isSpace ch = false) (cs : List Char) :
    readToken ch cs = (.fault (.unexpected ch), cs) := by
  have hmem := mem_unskipped hblank hspace
  -- None of them begins a name, a number, a text or an operator of two characters.
  have hplain : unskipped.all (fun ch => !isNameStart ch && !ch.isDigit && !(ch == '.') &&
      !(ch == '"' || ch == '\'') && !(ch == '&' || ch == '|')) = true := by decide +kernel
  have hch := List.all_eq_true.mp hplain ch hmem
  simp only [Bool.and_eq_true, Bool.not_eq_true'] at hch
  obtain ⟨⟨⟨⟨hname, hdigit⟩, hdot⟩, hquote⟩, hdouble⟩ := hch
  have hpunct : readPunct (ch :: cs) = none := by
    unfold readPunct
    split
    all_goals first | rfl | (rename_i heq; cases heq; exact absurd hmem (by decide))
  unfold readToken
  rw [hname, hdigit, hdot, hquote, hpunct, hdouble]
  rfl

/-- The lexer comes to the first character that it does not skip. -/
theorem current_blank (hsource : source.toList = before ++ ch :: after) (hbefore : ∀ c ∈ before, isSpace c = true)
    (hblank : Text.isBlank ch = true) (hspace : isSpace ch = false) :
    (Cursor.ofSource source).current = ⟨.fault (.unexpected ch), ⟨bytes before, bytes before + ch.utf8Size⟩⟩ := by
  have hslash : ch ≠ '/' := by
    rintro rfl
    cases hblank
  have hskip : skip .between (Reader.ofSource source).rest = ch :: after := by
    rw [Reader.ofSource, hsource, skip_spaces hbefore, skip_solid hspace hslash]
  have hnext : (Reader.ofSource source).next.1 =
      ⟨.fault (.unexpected ch), ⟨bytes before, bytes before + ch.utf8Size⟩⟩ := by
    unfold Reader.next
    rw [hskip]
    dsimp only
    rw [readToken_blank hblank hspace, Reader.ofSource, hsource]
    simp
  obtain ⟨limit, hlimit⟩ : ∃ n, source.length = n + 1 :=
    Nat.exists_eq_succ_of_ne_zero (by rw [← String.length_toList, hsource]; simp)
  have hcons : (Reader.ofSource source).next =
      (⟨.fault (.unexpected ch), ⟨bytes before, bytes before + ch.utf8Size⟩⟩, (Reader.ofSource source).next.2) :=
    Prod.ext hnext rfl
  unfold Cursor.ofSource Cursor.current lexemes
  rw [hlimit, lexemes_token hcons (by rintro ⟨⟩)]
  rfl

end Eventful.Expr
