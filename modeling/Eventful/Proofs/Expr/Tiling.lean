import Mathlib.Data.String.Basic
import Eventful.Proofs.Expr.Scanning

/-
  Eventful.Proofs.Expr.Tiling — the tokens of a source text and the gaps between them.

  A scanner that is asked for one token after the other goes through its source from end to
  end: the tokens take pieces of it in order, what is left before, between and after them is
  `Blanks`, and once the source is at its end there is only `eof`, as often as it is asked.

  - `next_tiles`: one call takes a gap and a token off what is left, or the last gap.
  - `tiled_lexemes`: the lexemes of a text tile it.
  - `calls_lexemes`: the calls of a scanner give the lexemes and then `eof` for ever.
  - `scanner_tiles`: all of it, for every source text of less than 2³¹ bytes.
-/

namespace Eventful.Expr

variable {c : Char} {cs rest : List Char} {start : Nat} {last last' : Prop}

/-! ## Blanks and comments -/

/-- A text of blanks and comments. If it is the `last` of its source, its last comment need
    not end. -/
inductive Blanks (last : Prop) : List Char → Prop
  | nil : Blanks last []
  | blank {c : Char} {gap : List Char} : isSpace c → Blanks last gap → Blanks last (c :: gap)
  | line {body gap : List Char} : '\n' ∉ body → Blanks last gap → Blanks last ('/' :: '/' :: (body ++ '\n' :: gap))
  | lastLine {body : List Char} : last → '\n' ∉ body → Blanks last ('/' :: '/' :: body)
  | block {body gap : List Char} : ¬['*', '/'] <:+: body → Blanks last gap →
      Blanks last ('/' :: '*' :: (body ++ '*' :: '/' :: gap))
  | openBlock {body : List Char} : last → ¬['*', '/'] <:+: body → Blanks last ('/' :: '*' :: body)

theorem Blanks.imp {gap : List Char} (h : Blanks last gap) (hl : last → last') : Blanks last' gap := by
  induction h with
  | nil => exact .nil
  | blank hc _ ih => exact .blank hc ih
  | line hb _ ih => exact .line hb ih
  | lastLine h hb => exact .lastLine (hl h) hb
  | block hb _ ih => exact .block hb ih
  | openBlock h hb => exact .openBlock (hl h) hb

/-- What a skip takes that stands between tokens or in a comment. -/
def Skipped (last : Prop) : Gap → List Char → Prop
  | .between, gap => Blanks last gap
  | .line, gap => (last ∧ '\n' ∉ gap) ∨ ∃ body more, gap = body ++ '\n' :: more ∧ '\n' ∉ body ∧ Blanks last more
  | .block, gap =>
    (last ∧ ¬['*', '/'] <:+: gap) ∨
      ∃ body more, gap = body ++ '*' :: '/' :: more ∧ ¬['*', '/'] <:+: body ∧ Blanks last more

theorem not_infix_cons {body : List Char} (h : ¬['*', '/'] <:+: body)
    (hc : c = '*' → ∀ ds, body ≠ '/' :: ds) : ¬['*', '/'] <:+: c :: body := by
  rw [List.infix_cons_iff, not_or]
  refine ⟨fun hp => ?_, h⟩
  obtain ⟨hcs, ds, hds⟩ := List.cons_prefix_cons.mp hp
  exact hc hcs.symm ds hds.symm

theorem skip_skipped (g : Gap) (cs : List Char) : ∃ gap, cs = gap ++ skip g cs ∧ Skipped (skip g cs = []) g gap := by
  fun_induction skip g cs with
  | case1 g =>
    refine ⟨[], rfl, ?_⟩
    cases g with
    | between => exact .nil
    | line => exact .inl ⟨rfl, List.not_mem_nil⟩
    | block => exact .inl ⟨rfl, by decide⟩
  | case2 cs ih =>
    obtain ⟨gap, hcs, hgap⟩ := ih
    refine ⟨'/' :: '/' :: gap, congrArg (fun cs => '/' :: '/' :: cs) hcs, ?_⟩
    rcases hgap with ⟨h, hb⟩ | ⟨body, more, rfl, hb, hm⟩
    · exact .lastLine h hb
    · exact .line hb hm
  | case3 cs ih =>
    obtain ⟨gap, hcs, hgap⟩ := ih
    refine ⟨'/' :: '*' :: gap, congrArg (fun cs => '/' :: '*' :: cs) hcs, ?_⟩
    rcases hgap with ⟨h, hb⟩ | ⟨body, more, rfl, hb, hm⟩
    · exact .openBlock h hb
    · exact .block hb hm
  | case4 c cs _ _ hc ih =>
    obtain ⟨gap, hcs, hgap⟩ := ih
    exact ⟨c :: gap, congrArg (c :: ·) hcs, .blank hc hgap⟩
  | case5 => exact ⟨[], rfl, .nil⟩
  | case6 c cs hc ih =>
    obtain ⟨gap, hcs, hgap⟩ := ih
    rw [beq_iff_eq] at hc
    exact ⟨c :: gap, congrArg (c :: ·) hcs, .inr ⟨[], gap, hc ▸ rfl, List.not_mem_nil, hgap⟩⟩
  | case7 c cs hc ih =>
    obtain ⟨gap, hcs, hgap⟩ := ih
    rw [beq_iff_eq] at hc
    refine ⟨c :: gap, congrArg (c :: ·) hcs, ?_⟩
    rcases hgap with ⟨h, hb⟩ | ⟨body, more, rfl, hb, hm⟩
    · exact .inl ⟨h, List.not_mem_cons_of_ne_of_not_mem (Ne.symm hc) hb⟩
    · exact .inr ⟨c :: body, more, rfl, List.not_mem_cons_of_ne_of_not_mem (Ne.symm hc) hb, hm⟩
  | case8 cs ih =>
    obtain ⟨gap, hcs, hgap⟩ := ih
    exact ⟨'*' :: '/' :: gap, congrArg (fun cs => '*' :: '/' :: cs) hcs, .inr ⟨[], gap, rfl, by decide, hgap⟩⟩
  | case9 c cs hend ih =>
    obtain ⟨gap, hcs, hgap⟩ := ih
    refine ⟨c :: gap, congrArg (c :: ·) hcs, ?_⟩
    rcases hgap with ⟨h, hb⟩ | ⟨body, more, rfl, hb, hm⟩
    · refine .inl ⟨h, not_infix_cons hb fun hc ds hds => ?_⟩
      exact hend _ hc (hds ▸ hcs)
    · refine .inr ⟨c :: body, more, rfl, not_infix_cons hb fun hc ds hds => ?_, hm⟩
      exact hend _ hc (hds ▸ hcs)

/-! ## Tiles -/

/-- The lexemes `ls` take their spans off a text that starts at an offset, one after the
    other, and leave blanks and comments. -/
inductive Tiled : Nat → List Char → List Lexeme → Prop
  | done {start : Nat} {gap : List Char} : Blanks True gap → Tiled start gap []
  | token {start : Nat} {gap text rest : List Char} {l : Lexeme} {ls : List Lexeme} :
      Blanks False gap → text ≠ [] → l.token ≠ .eof →
      l.span = ⟨start + bytes gap, start + bytes gap + bytes text⟩ →
      Tiled l.span.stop rest ls → Tiled start (gap ++ (text ++ rest)) (l :: ls)

/-- The next lexeme stands after a gap, or all that is left is a gap. -/
theorem next_tiles (r : Reader) :
    (r.next = (⟨.eof, ⟨r.limit, r.limit⟩⟩, ⟨[], r.limit⟩) ∧ Blanks True r.rest) ∨
      ∃ gap text l r', r.next = (l, r') ∧ r.rest = gap ++ (text ++ r'.rest) ∧ Blanks False gap ∧ text ≠ [] ∧
        l.token ≠ .eof ∧ l.span = ⟨r.position + bytes gap, r.position + bytes gap + bytes text⟩ ∧
        r'.position = l.span.stop := by
  obtain ⟨gap, hrest, hgap⟩ := skip_skipped .between r.rest
  unfold Reader.next
  cases hcs : skip .between r.rest with
  | nil => exact .inl ⟨rfl, by
      rw [hcs, List.append_nil] at hrest
      exact hrest ▸ Blanks.imp hgap fun _ => trivial⟩
  | cons c cs =>
    have heof := readToken_ne_eof c cs
    have hread := readToken_suffix c cs
    rw [hcs] at hrest hgap
    dsimp only
    generalize readToken c cs = token at heof hread ⊢
    obtain ⟨token, rest⟩ := token
    obtain ⟨text, rfl⟩ := hread
    refine .inr ⟨gap, c :: text, _, _, rfl, hrest, hgap.imp (by simp), by simp, heof, ?_, rfl⟩
    simp only [hrest, bytes_append, bytes_cons, Span.mk.injEq]
    omega

/-- The lexemes of a text tile it. -/
theorem tiled_lexemes (limit : Nat) (r : Reader) (hl : r.rest.length ≤ limit) :
    Tiled r.position r.rest (r.lexemes limit).1 := by
  induction limit generalizing r with
  | zero =>
    rw [List.eq_nil_of_length_eq_zero (Nat.le_zero.mp hl)]
    exact .done .nil
  | succ limit ih =>
    rw [Reader.lexemes]
    rcases next_tiles r with ⟨h, hgap⟩ | ⟨gap, text, l, r', h, hrest, hgap, htext, heof, hspan, hpos⟩
    · rw [h]
      exact .done hgap
    · have hlt : r'.rest.length ≤ limit := by
        have := List.length_pos_iff.mpr htext
        rw [hrest, List.length_append, List.length_append] at hl
        omega
      rw [h, hrest]
      dsimp only
      split
      · rename_i e
        exact absurd e heof
      · exact .token hgap htext heof hspan (hpos ▸ ih r' hlt)

theorem Tiled.spans {ls : List Lexeme} {source before : List Char} (h : Tiled start cs ls)
    (hs : source = before ++ cs) (hb : bytes before = start) :
    (∀ l ∈ ls, l.token ≠ .eof ∧ start ≤ l.span.start ∧ l.span.start < l.span.stop ∧
      ∀ p, p = l.span.start ∨ p = l.span.stop → ∃ front back, source = front ++ back ∧ bytes front = p) ∧
    ls.Pairwise fun l m => l.span.stop ≤ m.span.start := by
  induction h generalizing before with
  | done => exact ⟨nofun, .nil⟩
  | @token start gap text rest l ls hgap htext heof hspan _ ih =>
    have hpos : 0 < bytes text := by
      cases text with
      | nil => exact absurd rfl htext
      | cons c cs => exact Nat.add_pos_left c.utf8Size_pos _
    have hstart : l.span.start = start + bytes gap := congrArg Span.start hspan
    have hstop : l.span.stop = start + bytes gap + bytes text := congrArg Span.stop hspan
    have hlater : source = before ++ (gap ++ text) ++ rest := by simp [hs]
    obtain ⟨hall, hpair⟩ := ih hlater (by rw [bytes_append, bytes_append, hb, hstop, Nat.add_assoc])
    refine ⟨List.forall_mem_cons.mpr ⟨⟨heof, by omega, by omega, ?_⟩, fun m hm => ?_⟩, ?_⟩
    · rintro p (rfl | rfl)
      · exact ⟨before ++ gap, text ++ rest, by simp [hs], by rw [bytes_append, hb, hstart]⟩
      · exact ⟨before ++ (gap ++ text), rest, by simp [hs], by
          rw [bytes_append, bytes_append, hb, hstop, Nat.add_assoc]⟩
    · obtain ⟨h₁, h₂, h₃⟩ := hall m hm
      exact ⟨h₁, by omega, h₃⟩
    · exact List.pairwise_cons.mpr ⟨fun m hm => (hall m hm).2.1, hpair⟩

/-! ## Calls of a scanner -/

/-- The tokens of so many calls, each with the position after it; `none` if a slice fails. -/
def Scanner.calls : Nat → Scanner → Option (List (Lexeme × Nat))
  | 0, _ => some []
  | k + 1, s => do
    let (l, s) ← s.next
    return (l, s.offset.toNat) :: (← s.calls k)

theorem take_padded {α : Type} (xs : List α) (x : α) (k : Nat) :
    (xs ++ List.replicate (k + 1) x).take k = (xs ++ List.replicate k x).take k := by
  rw [List.replicate_succ', ← List.append_assoc, List.take_append_of_le_length (by simp)]

/-- The calls of a scanner in step give the lexemes, and `eof` from then on. -/
theorem calls_lexemes (k limit : Nat) {s : Scanner} (h : s.InStep) (hl : s.chars.length ≤ limit) :
    s.calls k = some ((((s.reader.lexemes limit).1 ++ List.replicate k (s.reader.lexemes limit).2).take k).map
      fun l => (l, l.span.stop)) := by
  induction k generalizing limit s with
  | zero => rfl
  | succ k ih =>
    obtain ⟨s', hnext, hs', -, hr'⟩ := Scanner.next_reads h
    have hoff : s'.offset.toNat = (s.reader.next).2.position := congrArg Reader.position hr'
    have hrest : s'.chars = (s.reader.next).2.rest := congrArg Reader.rest hr'
    rw [Scanner.calls, hnext]
    simp only [Option.bind_eq_bind, Option.bind_some, hoff]
    rcases next_cases s.reader with hn | ⟨l, r', hn, heof, -, -, hpos, -, hlt⟩
    · rw [hn] at hrest hr' ⊢
      have hend : s'.reader.next = (⟨.eof, ⟨s.reader.limit, s.reader.limit⟩⟩, ⟨[], s.reader.limit⟩) := by
        rw [hr']
        rfl
      rw [ih limit hs' (by rw [hrest]; exact Nat.zero_le _), lexemes_end hend rfl, lexemes_end hn rfl]
      rfl
    · cases limit with
      | zero => exact absurd (Nat.lt_of_lt_of_le hlt hl) (Nat.not_lt_zero _)
      | succ limit =>
        have hlen : s'.chars.length ≤ limit := by
          rw [hrest, hn]
          exact Nat.le_of_lt_succ (Nat.lt_of_lt_of_le hlt hl)
        rw [hn] at hr' ⊢
        rw [ih limit hs' hlen, hr', lexemes_token hn heof, List.cons_append, List.take_succ_cons, List.map_cons,
          take_padded, hpos]
        rfl

/-! ## Source texts -/

theorem bytes_eq_utf8Len (cs : List Char) : bytes cs = String.utf8Len cs := by
  induction cs with
  | nil => rfl
  | cons c cs ih => rw [bytes_cons, String.utf8Len_cons, ih, Nat.add_comm]

theorem length_lexemes (limit : Nat) (r : Reader) : (r.lexemes limit).1.length ≤ limit := by
  induction limit generalizing r with
  | zero => exact Nat.le_refl _
  | succ limit ih =>
    rw [Reader.lexemes]
    dsimp only
    split
    · exact Nat.zero_le _
    · exact Nat.succ_le_succ (ih _)

/-- Asked for its tokens, a scanner of a source text of less than 2³¹ bytes gives the lexemes
    of the text and then `eof` at its end as often as it is asked. There are at most as many
    lexemes as characters. Each starts and ends between characters and takes at least one,
    each ends before the next starts, the position after a call is where the lexeme ends, and
    all that is not in a lexeme is blanks and comments. -/
theorem scanner_tiles (source : String) (h : source.utf8ByteSize < 2 ^ 31) :
    let eof : Lexeme := ⟨.eof, ⟨source.utf8ByteSize, source.utf8ByteSize⟩⟩
    ∃ ls, lexemes source = (ls, eof) ∧ ls.length ≤ source.length ∧
      (∀ k, (Scanner.ofSource source).calls k =
        some (((ls ++ List.replicate k eof).take k).map fun l => (l, l.span.stop))) ∧
      (∀ l ∈ ls, l.token ≠ .eof ∧ l.span.start < l.span.stop ∧
        String.Pos.Raw.IsValid source ⟨l.span.start⟩ ∧ String.Pos.Raw.IsValid source ⟨l.span.stop⟩) ∧
      ls.Pairwise (fun l m => l.span.stop ≤ m.span.start) ∧
      Tiled 0 source.toList ls := by
  intro eof
  have hbytes : bytes source.toList = source.utf8ByteSize := by
    rw [bytes_eq_utf8Len, String.utf8Len_toList]
  have heof : (lexemes source).2 = eof := by
    rw [(lexemes_lined source).2, hbytes]
  have hvalid : ∀ p, (∃ front back, source.toList = front ++ back ∧ bytes front = p) →
      String.Pos.Raw.IsValid source ⟨p⟩ := by
    rintro p ⟨front, back, hs, rfl⟩
    refine String.Pos.Raw.isValid_iff_exists_append.mpr ⟨String.ofList front, String.ofList back, ?_, ?_⟩
    · rw [← String.ofList_append, ← hs, String.ofList_toList]
    · rw [bytes_eq_utf8Len, String.rawEndPos_ofList]
  have htiled : Tiled 0 source.toList (lexemes source).1 :=
    tiled_lexemes source.length (.ofSource source) (Nat.le_of_eq String.length_toList)
  obtain ⟨hall, hpair⟩ := htiled.spans (List.nil_append _).symm rfl
  refine ⟨(lexemes source).1, Prod.ext rfl heof, length_lexemes _ _, fun k => ?_, fun l hl => ?_, hpair, htiled⟩
  · rw [← heof]
    have hsmall : bytes source.toList < UInt32.size := by rw [UInt32.size]; omega
    exact calls_lexemes k source.length (Scanner.inStep_ofSource hsmall) (Nat.le_of_eq String.length_toList)
  · obtain ⟨hne, -, hlt, hp⟩ := hall l hl
    exact ⟨hne, hlt, hvalid _ (hp _ (.inl rfl)), hvalid _ (hp _ (.inr rfl))⟩

/-- A letter of two bytes, a sign and a comment without end. -/
theorem scanner_tiles_open_comment :
    "é+/*".utf8ByteSize < 2 ^ 31 ∧ ∃ ls, ls.length ≤ 4 ∧ (Scanner.ofSource "é+/*").calls 6 =
      some (((ls ++ List.replicate 6 ⟨.eof, ⟨5, 5⟩⟩).take 6).map fun l => (l, l.span.stop)) := by
  have h : "é+/*".utf8ByteSize < 2 ^ 31 := by decide
  obtain ⟨ls, -, hlen, hcalls, -⟩ := scanner_tiles "é+/*" h
  exact ⟨h, ls, hlen, hcalls 6⟩

end Eventful.Expr
