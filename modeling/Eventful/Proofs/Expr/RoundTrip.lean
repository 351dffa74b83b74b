import Eventful.Proofs.Expr.Parsing
import Eventful.Proofs.Expr.Spelling

/-
  Eventful.Proofs.Expr.RoundTrip — what was printed is parsed as what it was.

  The tokens of a tree lead the parser of its level to the tree and to what follows
  (`Leads`), if what follows does not belong to a tighter level. A chain of members or of
  operators of one level groups to the left: its parser has then read the tree so far and
  goes on in its loop (`levelLoop`). A tree that can be read at one level can be read at
  every looser one (`Leads.raise`) and, in parentheses, at all.

  - `leads`: the tokens of a tree lead to it.
  - `parse_print`: a program that is printed and parsed is the same program.
-/

namespace Eventful.Expr

variable {μ α β : Type} {c c' : Cursor} {t : Token} {rest ts : List Token} {d : Nat}

/-! ## What is left for a cursor -/

/-- The tokens that are left. -/
structure Holds (c : Cursor) (ts : List Token) : Prop where
  tokens : c.rest.map (·.token) = ts
  eof : c.eof.token = .eof

theorem Holds.length (h : Holds c ts) : c.rest.length = ts.length := by
  rw [← h.tokens, List.length_map]

theorem Holds.token (h : Holds c (t :: ts)) : c.current.token = t := by
  obtain ⟨rest, eof, last⟩ := c
  cases rest with
  | nil => cases h.tokens
  | cons l ls => exact (List.cons.inj h.tokens).1

theorem Holds.advance (h : Holds c (t :: ts)) : Holds c.advance ts := by
  obtain ⟨rest, eof, last⟩ := c
  cases rest with
  | nil => cases h.tokens
  | cons l ls => exact ⟨(List.cons.inj h.tokens).2, h.eof⟩

theorem Holds.length_advance (h : Holds c (t :: ts)) : c.advance.rest.length + 1 = c.rest.length := by
  rw [h.length, h.advance.length, List.length_cons]

theorem Holds.token_nil (h : Holds c []) : c.current.token = .eof := by
  obtain ⟨rest, eof, last⟩ := c
  cases rest with
  | nil => exact h.eof
  | cons l ls => cases h.tokens

/-! ## Runs of the parser -/

variable {p : Parse α} {a : α}

theorem run_bind {f : α → Parse β} (h : p c = .ok (a, c')) : (p >>= f) c = f a c' := by
  simp only [Bind.bind, StateT.bind, h, Except.bind]

@[simp] theorem run_peek {f : Token → Parse β} : (peek >>= f) c = f c.current.token c := rfl

@[simp] theorem run_here {f : Span → Parse β} : (here >>= f) c = f c.current.span c := rfl

@[simp] theorem run_behind {f : Span → Parse β} : (behind >>= f) c = f c.last c := rfl

@[simp] theorem run_advance {f : Unit → Parse β} : (advance >>= f) c = f () c.advance := rfl

theorem isPunct_self (q : Punct) : isPunct q (.punct q) = true := isPunct_iff.mpr rfl

theorem run_expect {q : Punct} {f : Unit → Parse β} (h : c.current.token = .punct q) :
    (expect q >>= f) c = f () c.advance := by
  have he : expect q c = .ok ((), c.advance) := by
    unfold expect
    rw [run_peek, h, if_pos (isPunct_self q)]
    rfl
  rw [run_bind he]

/-! ## What a token goes on with -/

/-- How loose the tree is that a token after an expression makes it a part of. -/
def Token.follow : Token → Nat
  | .punct .dot | .punct .openBracket | .punct .plusPlus | .punct .minusMinus => 1
  | .punct .star | .punct .slash | .punct .percent => 4
  | .punct .plus | .punct .minus => 5
  | .punct .less | .punct .lessEq | .punct .greater | .punct .greaterEq => 6
  | .punct .looseEq | .punct .looseNe | .punct .strictEq | .punct .strictNe => 7
  | .punct .and => 8
  | .punct .or | .punct .nullish => 9
  | .punct .question | .punct .assign | .punct .plusAssign | .punct .minusAssign | .punct .starAssign
  | .punct .slashAssign => 10
  | .punct .comma => 11
  | _ => 12

/-- What the first of the tokens goes on with; at the end, nothing. -/
def follow : List Token → Nat
  | [] => 12
  | t :: _ => t.follow

theorem Holds.follow (h : Holds c rest) : c.current.token.follow = follow rest := by
  cases rest with
  | nil => rw [h.token_nil]; rfl
  | cons t ts => rw [h.token]; rfl

theorem follow_pos (t : Token) : 1 ≤ t.follow := by
  unfold Token.follow
  split <;> decide

theorem follow_ne_three (t : Token) : t.follow ≠ 3 := by
  unfold Token.follow
  split <;> decide

theorem operator?_follow {level : Nat} (h : level + 4 ≤ t.follow) : operator? level t = none := by
  unfold operator?
  split <;> first | rfl | exact absurd h (by decide)

theorem isPunct_follow {q : Punct} (h : (Token.punct q).follow < t.follow) : isPunct q t = false := by
  cases t with
  | punct r =>
    have : q ≠ r := by
      rintro rfl
      omega
    simpa [isPunct] using this
  | _ => rfl

theorem updateOp?_follow (h : 2 ≤ t.follow) : updateOp? t = none := by
  unfold updateOp?
  split <;> first | rfl | exact absurd h (by decide)

theorem assignOp?_follow (h : 11 ≤ t.follow) : assignOp? t = none := by
  unfold assignOp?
  split <;> first | rfl | exact absurd h (by decide)

/-! ## Parsers by level -/

/-- The parser of a level. -/
def levelParser : Level → Nat → Parse (Term Span)
  | .primary, d => primary d
  | .members, d => do members d (← primary d)
  | .postfixed, d => postfixed d
  | .operand level, d => operand d level
  | .assignment, d => assignment d
  | .sequence, d => sequence d

/-- How the parser of a level goes on with what it has read. -/
def levelLoop : Level → Nat → Term Span → Parse (Term Span)
  | .members, d, e => members d e
  | .operand level, d, e => operandRest d level e
  | _, _, e => pure e

/-- The depth that the parser of a level takes with no lexeme left. -/
def Level.cost : Level → Nat
  | .primary | .members => 2
  | .postfixed => 3
  | .operand level => level + 5
  | .assignment => 13
  | .sequence => 14

/-- How loose what follows must be for the parser of a level to stop. -/
def Level.bound : Level → Nat
  | .members => 2
  | .operand level => level + 4
  | level => level.rank

def Level.Valid : Level → Prop
  | .operand level => level ≤ loosest
  | _ => True

theorem resume_stops (L : Level) {e : Term Span} (h : Holds c rest) (hf : L.bound ≤ follow rest) (hd : 1 ≤ d) :
    levelLoop L d e c = .ok (e, c) := by
  obtain ⟨d, rfl⟩ : ∃ n, d = n + 1 := ⟨d - 1, by omega⟩
  rw [← h.follow] at hf
  cases L with
  | members =>
    show members (d + 1) e c = _
    rw [members, run_peek, isPunct_follow (Nat.lt_of_lt_of_le (by decide) hf),
      isPunct_follow (Nat.lt_of_lt_of_le (by decide) hf)]
    rfl
  | operand level =>
    show operandRest (d + 1) level e c = _
    rw [operandRest, run_peek, operator?_follow hf]
    rfl
  | _ => rfl

/-- What an expression of a level cannot start with. -/
structure Opens (L : Level) (t : Token) : Prop where
  semicolon : t ≠ .punct .semicolon
  eof : t ≠ .eof
  plain : L.rank ≤ 2 → updateOp? t = none ∧ unaryOp? t = none

/-- The tokens lead the parser of a level to the tree and to what follows. -/
def Leads (L : Level) (ts : List Token) (e : Term Unit) : Prop :=
  ∀ (c : Cursor) (rest : List Token), Holds c (ts ++ rest) → L.rank ≤ follow rest →
    Opens L c.current.token ∧ ∃ e' c', e'.unmarked = e ∧ Holds c' rest ∧
      ∀ d, 16 * c.rest.length + L.cost ≤ d →
        ∃ d', 16 * c'.rest.length + 1 ≤ d' ∧ levelParser L d c = levelLoop L d' e' c'

variable {L : Level} {e : Term Unit}

theorem Level.rank_le_bound (L : Level) : L.rank ≤ L.bound := by
  cases L <;> simp [Level.rank, Level.bound]

/-- Where the parser stops, the tree has been read. -/
theorem Leads.read (h : Leads L ts e) (hc : Holds c (ts ++ rest)) (hf : L.bound ≤ follow rest) :
    Opens L c.current.token ∧ ∃ e' c', e'.unmarked = e ∧ Holds c' rest ∧ c'.rest.length ≤ c.rest.length ∧
      ∀ d, 16 * c.rest.length + L.cost ≤ d → levelParser L d c = .ok (e', c') := by
  obtain ⟨hopens, e', c', he, hc', hread⟩ := h c rest hc (Nat.le_trans L.rank_le_bound hf)
  refine ⟨hopens, e', c', he, hc', ?_, fun d hd => ?_⟩
  · rw [hc.length, hc'.length, List.length_append]
    exact Nat.le_add_left _ _
  · obtain ⟨d', hd', hread⟩ := hread d hd
    rw [hread, resume_stops L hc' hf (by omega)]

/-! ## Looser levels -/

theorem Opens.looser {L' : Level} (h : Opens L t) (hr : L.rank ≤ L'.rank) : Opens L' t :=
  ⟨h.semicolon, h.eof, fun hL => h.plain (Nat.le_trans hr hL)⟩

theorem Leads.members (h : Leads .primary ts e) : Leads .members ts e := by
  intro c rest hc hf
  obtain ⟨hopens, e', c', he, hc', hlen, hread⟩ := h.read hc (Nat.zero_le _)
  refine ⟨hopens.looser (by decide), e', c', he, hc', fun d hd => ⟨d, ?_, run_bind (hread d hd)⟩⟩
  rw [Level.cost] at hd
  omega

theorem Leads.postfixed (h : Leads .members ts e) : Leads .postfixed ts e := by
  intro c rest hc hf
  obtain ⟨hopens, e', c', he, hc', hlen, hread⟩ := h.read hc hf
  refine ⟨hopens.looser (by decide), e', c', he, hc', fun d hd => ⟨d, ?_, ?_⟩⟩
  all_goals rw [Level.cost] at hd
  · omega
  · obtain ⟨d, rfl⟩ : ∃ n, d = n + 1 := ⟨d - 1, by omega⟩
    show Expr.postfixed (d + 1) c = _
    have hread : (do Expr.members d (← primary d)) c = .ok (e', c') := hread d (by rw [Level.cost]; omega)
    rw [Expr.postfixed, ← bind_assoc, run_bind hread, run_peek, updateOp?_follow (hc'.follow ▸ hf)]
    rfl

theorem Leads.unary (h : Leads .postfixed ts e) : Leads (.operand 0) ts e := by
  intro c rest hc hf
  obtain ⟨hopens, e', c', he, hc', hlen, hread⟩ := h.read hc (Nat.le_of_succ_le hf)
  refine ⟨hopens.looser (by decide), e', c', he, hc', fun d hd => ⟨d, ?_, ?_⟩⟩
  all_goals rw [Level.cost] at hd
  · omega
  · obtain ⟨d, rfl⟩ : ∃ n, d = n + 1 + 1 := ⟨d - 2, by omega⟩
    obtain ⟨hupdate, hunary⟩ := hopens.plain (Nat.le_refl _)
    have hstop : 4 ≤ follow rest := by
      have := follow_ne_three c'.current.token
      rw [hc'.follow] at this
      exact Nat.lt_of_le_of_ne hf (Ne.symm this)
    rw [resume_stops (.operand 0) hc' hstop (by omega)]
    show operand (d + 1 + 1) 0 c = _
    rw [operand, Expr.unary, run_here, run_peek, hupdate]
    dsimp only
    rw [hunary]
    exact hread d (by rw [Level.cost]; omega)

theorem Leads.operand {level : Nat} (h : Leads (.operand level) ts e) : Leads (.operand (level + 1)) ts e := by
  intro c rest hc hf
  obtain ⟨hopens, e', c', he, hc', hlen, hread⟩ := h.read hc hf
  refine ⟨hopens.looser (Nat.le_succ _), e', c', he, hc', fun d hd => ⟨d - 1, ?_, ?_⟩⟩
  all_goals rw [Level.cost] at hd
  · omega
  · obtain ⟨d, rfl⟩ : ∃ n, d = n + 1 := ⟨d - 1, by omega⟩
    show Expr.operand (d + 1) (level + 1) c = _
    have hread : Expr.operand d level c = .ok (e', c') := hread d (by rw [Level.cost]; omega)
    rw [Expr.operand, run_bind hread]
    rfl

theorem Leads.assignment (h : Leads (.operand loosest) ts e) : Leads .assignment ts e := by
  intro c rest hc hf
  obtain ⟨hopens, e', c', he, hc', hlen, hread⟩ := h.read hc (Nat.le_of_succ_le hf)
  refine ⟨hopens.looser (by decide), e', c', he, hc', fun d hd => ⟨d, ?_, ?_⟩⟩
  all_goals rw [Level.cost] at hd
  · omega
  · obtain ⟨d, rfl⟩ : ∃ n, d = n + 1 + 1 := ⟨d - 2, by omega⟩
    have hf : 11 ≤ c'.current.token.follow := hc'.follow ▸ hf
    have hread : Expr.operand d loosest c = .ok (e', c') := hread d (by rw [Level.cost, loosest]; omega)
    have hconditional : conditional (d + 1) c = .ok (e', c') := by
      rw [conditional, run_bind hread, run_peek, isPunct_follow (q := .question) hf]
      rfl
    show Expr.assignment (d + 1 + 1) c = _
    rw [Expr.assignment, run_bind hconditional, run_peek, assignOp?_follow hf]
    rfl

theorem Leads.sequence (h : Leads .assignment ts e) : Leads .sequence ts e := by
  intro c rest hc hf
  obtain ⟨hopens, e', c', he, hc', hlen, hread⟩ := h.read hc (Nat.le_of_succ_le hf)
  refine ⟨hopens.looser (by decide), e', c', he, hc', fun d hd => ⟨d, ?_, ?_⟩⟩
  all_goals rw [Level.cost] at hd
  · omega
  · obtain ⟨d, rfl⟩ : ∃ n, d = n + 1 := ⟨d - 1, by omega⟩
    have hread : Expr.assignment d c = .ok (e', c') := hread d (by rw [Level.cost]; omega)
    show Expr.sequence (d + 1) c = _
    rw [Expr.sequence, run_bind hread, run_peek, isPunct_follow (hc'.follow ▸ hf)]
    rfl

theorem Level.eq_of_rank {L' : Level} (hv : L.Valid) (hv' : L'.Valid) (h : L.rank = L'.rank) : L = L' := by
  cases L <;> cases L' <;> simp [Level.rank, Level.Valid, loosest] at * <;> omega

/-- A sequence is the loosest there is. -/
theorem Level.Valid.rank_le (hv : L.Valid) : L.rank ≤ Level.sequence.rank := by
  cases L with
  | operand level => exact Nat.le_trans (Nat.add_le_add_right hv 3) (by decide)
  | _ => decide

/-- What can be read at one level can be read at every looser one. -/
theorem Leads.raise (h : Leads L ts e) (L' : Level) (hv : L.Valid) (hv' : L'.Valid) (hr : L.rank ≤ L'.rank) :
    Leads L' ts e := by
  have step {M : Level} (M' : Level) (hM : M'.Valid) (next : Leads M ts e → Leads M' ts e)
      (hlt : L.rank < M'.rank → L.rank ≤ M.rank) (prev : L.rank ≤ M.rank → Leads M ts e) (hr : L.rank ≤ M'.rank) :
      Leads M' ts e := by
    rcases Nat.lt_or_eq_of_le hr with hr | hr
    · exact next (prev (hlt hr))
    · exact Level.eq_of_rank hv hM hr ▸ h
  have primary (hr : L.rank ≤ Level.primary.rank) : Leads .primary ts e :=
    Level.eq_of_rank hv (show Level.primary.Valid from trivial) (Nat.le_zero.mp hr) ▸ h
  have members := step .members trivial Leads.members Nat.le_of_lt_succ primary
  have postfixed := step .postfixed trivial Leads.postfixed Nat.le_of_lt_succ members
  have operand (level : Nat) (hl : level ≤ loosest) : L.rank ≤ level + 3 → Leads (.operand level) ts e := by
    induction level with
    | zero => exact step (.operand 0) (Nat.zero_le _) Leads.unary Nat.le_of_lt_succ postfixed
    | succ level ih =>
      exact step (.operand (level + 1)) hl Leads.operand Nat.le_of_lt_succ (ih (Nat.le_of_succ_le hl))
  have below (hlt : L.rank < Level.assignment.rank) : L.rank ≤ loosest + 3 := by
    cases L with
    | operand level => exact Nat.add_le_add_right hv 3
    | assignment => exact absurd hlt (by decide)
    | sequence => exact absurd hlt (by decide)
    | _ => decide
  have assignment := step .assignment trivial Leads.assignment below (operand loosest (Nat.le_refl _))
  cases L' with
  | primary => exact primary hr
  | members => exact members hr
  | postfixed => exact postfixed hr
  | operand level => exact operand level hv' hr
  | assignment => exact assignment hr
  | sequence => exact step .sequence trivial Leads.sequence Nat.le_of_lt_succ assignment hr

/-- In parentheses, everything is a primary. -/
theorem Leads.parens (h : Leads .sequence ts e) :
    Leads .primary (.punct .openParen :: ts ++ [.punct .closeParen]) e := by
  intro c rest hc hf
  rw [List.cons_append, List.cons_append, List.append_assoc] at hc
  have htoken := hc.token
  obtain ⟨-, e', c', he, hc', hlen, hread⟩ := h.read hc.advance (Nat.le_refl _)
  have hlen₁ := hc.length_advance
  have hlen₂ := hc'.length_advance
  refine ⟨htoken ▸ ⟨nofun, nofun, fun _ => ⟨rfl, rfl⟩⟩, e', c'.advance, he, hc'.advance, fun d hd => ⟨d, ?_, ?_⟩⟩
  all_goals rw [Level.cost] at hd
  · omega
  · obtain ⟨d, rfl⟩ : ∃ n, d = n + 1 := ⟨d - 1, by omega⟩
    have hread : Expr.sequence d c.advance = .ok (e', c') := hread d (by rw [Level.cost]; omega)
    show primary (d + 1) c = _
    rw [primary, run_here, run_peek, htoken]
    simp only [leaf?]
    rw [if_pos (isPunct_self _), run_advance, run_bind hread, run_expect hc'.token]
    rfl

/-- A tree in a place of any level. -/
theorem Leads.enclose {L' : Level} (h : Leads L ts e) (hv : L.Valid) (hv' : L'.Valid) :
    Leads L' (enclose L' L ts) e := by
  unfold Expr.enclose
  split
  · rename_i hr
    exact h.raise L' hv hv' hr
  · exact (h.raise .sequence hv trivial hv.rank_le).parens.raise L' trivial hv' (Nat.zero_le _)

/-! ## Leaves and chains -/

theorem Term.isTarget_unmarked (e : Term μ) : e.unmarked.isTarget = e.isTarget := by
  cases e <;> rfl

theorem Leads.leaf {f : Span → Term Span} (hl : ∀ s, leaf? s t = some (f s)) (hf : ∀ s, (f s).unmarked = e) :
    Leads .primary [t] e := by
  intro c rest hc _
  have htoken := hc.token
  have hopens : Opens .primary t := by
    constructor
    · rintro rfl
      exact nomatch hl ⟨0, 0⟩
    · rintro rfl
      exact nomatch hl ⟨0, 0⟩
    · intro _
      cases t with
      | punct q => exact nomatch hl ⟨0, 0⟩
      | typeof => exact nomatch hl ⟨0, 0⟩
      | _ => exact ⟨rfl, rfl⟩
  refine ⟨htoken ▸ hopens, f c.current.span, c.advance, hf _, hc.advance, fun d hd => ⟨d, ?_, ?_⟩⟩
  all_goals rw [Level.cost] at hd
  · have := hc.length_advance
    omega
  · obtain ⟨d, rfl⟩ : ∃ n, d = n + 1 := ⟨d - 1, by omega⟩
    show primary (d + 1) c = _
    rw [primary, run_here, run_peek, htoken, hl]
    rfl

theorem Leads.member {key : String} (h : Leads .members ts e) (hk : memberName? t = some key) :
    Leads .members (ts ++ [.punct .dot, t]) (.member () e key) := by
  intro c rest hc _
  rw [List.append_assoc] at hc
  obtain ⟨hopens, e', c₁, he, hc₁, hread⟩ := h c _ hc (Nat.le_refl _)
  have hc₂ : Holds c₁.advance (t :: rest) := hc₁.advance
  have hlen₁ := hc₁.length_advance
  have hlen₂ := hc₂.length_advance
  refine ⟨hopens, .member (e'.mark.merge c₁.advance.advance.last) e' key, c₁.advance.advance, by rw [Term.unmarked, he],
    hc₂.advance, fun d hd => ?_⟩
  obtain ⟨d₁, hd₁, hread⟩ := hread d hd
  obtain ⟨d₂, rfl⟩ : ∃ n, d₁ = n + 1 := ⟨d₁ - 1, by omega⟩
  refine ⟨d₂, by omega, hread.trans ?_⟩
  show Expr.members (d₂ + 1) e' c₁ = _
  rw [Expr.members, run_peek, hc₁.token, if_pos (isPunct_self _), run_advance, run_peek, hc₂.token, hk]
  rfl

theorem Leads.index {ts' : List Token} {k : Term Unit} (h : Leads .members ts e) (hk : Leads .sequence ts' k) :
    Leads .members (ts ++ .punct .openBracket :: ts' ++ [.punct .closeBracket]) (.index () e k) := by
  intro c rest hc _
  simp only [List.append_assoc, List.cons_append, List.nil_append] at hc
  obtain ⟨hopens, e', c₁, he, hc₁, hread⟩ := h c _ hc (Nat.le_refl _)
  obtain ⟨-, k', c₂, hk', hc₂, hlen, hkey⟩ := hk.read hc₁.advance (Nat.le_refl _)
  have hlen₁ := hc₁.length_advance
  have hlen₂ := hc₂.length_advance
  refine ⟨hopens, .index (e'.mark.merge c₂.advance.last) e' k', c₂.advance, by rw [Term.unmarked, he, hk'], hc₂.advance,
    fun d hd => ?_⟩
  obtain ⟨d₁, hd₁, hread⟩ := hread d hd
  obtain ⟨d₂, rfl⟩ : ∃ n, d₁ = n + 1 := ⟨d₁ - 1, by omega⟩
  refine ⟨d₂, by omega, hread.trans ?_⟩
  have hkey : Expr.sequence d₂ c₁.advance = .ok (k', c₂) := hkey d₂ (by rw [Level.cost]; omega)
  show Expr.members (d₂ + 1) e' c₁ = _
  rw [Expr.members, run_peek, hc₁.token, if_neg (by decide), if_pos (isPunct_self _), run_advance, run_bind hkey,
    run_expect hc₂.token]
  rfl

theorem Leads.operator {level : Nat} {ts' : List Token} {l r : Term Unit} (op : TwoOperand) (hlevel : level ≤ loosest)
    (hop : operator? level t = some op) (hfollow : t.follow = level + 3) (hl : Leads (.operand level) ts l)
    (hr : Leads (.operand (level - 1)) ts' r)
    (he : ∀ l' r' : Term Span, l'.unmarked = l → r'.unmarked = r → (op.node l' r').unmarked = e) :
    Leads (.operand level) (ts ++ t :: ts') e := by
  intro c rest hc hf
  rw [List.append_assoc, List.cons_append] at hc
  have hpos : 1 ≤ level := by
    have := follow_ne_three t
    omega
  obtain ⟨hopens, l', c₁, hl', hc₁, hleft⟩ := hl c _ hc (Nat.le_of_eq hfollow.symm)
  obtain ⟨-, r', c₂, hr', hc₂, hlen, hright⟩ := hr.read hc₁.advance (by
    rw [Level.bound, show level - 1 + 4 = level + 3 by omega]
    exact hf)
  have hlen₁ := hc₁.length_advance
  refine ⟨hopens, op.node l' r', c₂, he l' r' hl' hr', hc₂, fun d hd => ?_⟩
  obtain ⟨d₁, hd₁, hleft⟩ := hleft d hd
  obtain ⟨d₂, rfl⟩ : ∃ n, d₁ = n + 1 := ⟨d₁ - 1, by omega⟩
  refine ⟨d₂, by omega, hleft.trans ?_⟩
  have hright : Expr.operand d₂ (level - 1) c₁.advance = .ok (r', c₂) :=
    hright d₂ (by rw [Level.cost]; unfold loosest at hlevel; omega)
  show operandRest (d₂ + 1) level l' c₁ = _
  rw [operandRest, run_peek, hc₁.token, hop]
  dsimp only
  rw [run_advance, run_bind hright]
  rfl

/-! ## Prefixes and postfixes -/

/-- No token makes what it follows a part of a unary expression. -/
theorem unary_bound (h : Level.rank (.operand 0) ≤ follow rest) : Level.bound (.operand 0) ≤ follow rest := by
  have : follow rest ≠ 3 := by
    cases rest with
    | nil => decide
    | cons t ts => exact follow_ne_three t
  exact Nat.lt_of_le_of_ne h (Ne.symm this)

theorem Leads.unaryOp {op : UnaryOp} (h : Leads (.operand 0) ts e) :
    Leads (.operand 0) (op.token :: ts) (.unary () op e) := by
  intro c rest hc hf
  rw [List.cons_append] at hc
  obtain ⟨-, e', c₁, he, hc₁, hlen, hread⟩ := h.read hc.advance (unary_bound hf)
  have hlen₁ := hc.length_advance
  have htoken := hc.token
  refine ⟨htoken ▸ ⟨by cases op <;> nofun, by cases op <;> nofun, nofun⟩, .unary (c.current.span.merge e'.mark) op e', c₁,
    by rw [Term.unmarked, he], hc₁, fun d hd => ⟨d, ?_, ?_⟩⟩
  all_goals rw [Level.cost] at hd
  · omega
  · obtain ⟨d, rfl⟩ : ∃ n, d = n + 1 + 1 := ⟨d - 2, by omega⟩
    rw [resume_stops _ hc₁ (unary_bound hf) (by omega)]
    have hread : Expr.unary d c.advance = .ok (e', c₁) := hread (d + 1) (by rw [Level.cost]; omega)
    show Expr.unary (d + 1) c = _
    rw [Expr.unary, run_here, run_peek, htoken, show updateOp? op.token = none by cases op <;> rfl,
      show unaryOp? op.token = some op by cases op <;> rfl]
    dsimp only
    rw [run_advance, run_bind hread]
    rfl

theorem Leads.prefixed {op : UpdateOp} (h : Leads (.operand 0) ts e) (ht : e.isTarget = true) :
    Leads (.operand 0) (.punct op.punct :: ts) (.update () op true e) := by
  intro c rest hc hf
  rw [List.cons_append] at hc
  obtain ⟨-, e', c₁, he, hc₁, hlen, hread⟩ := h.read hc.advance (unary_bound hf)
  have hlen₁ := hc.length_advance
  have htoken := hc.token
  refine ⟨htoken ▸ ⟨by cases op <;> nofun, by cases op <;> nofun, nofun⟩, .update (c.current.span.merge e'.mark) op true e', c₁,
    by rw [Term.unmarked, he], hc₁, fun d hd => ⟨d, ?_, ?_⟩⟩
  all_goals rw [Level.cost] at hd
  · omega
  · obtain ⟨d, rfl⟩ : ∃ n, d = n + 1 + 1 := ⟨d - 2, by omega⟩
    rw [resume_stops _ hc₁ (unary_bound hf) (by omega)]
    have hread : Expr.unary d c.advance = .ok (e', c₁) := hread (d + 1) (by rw [Level.cost]; omega)
    have ht : e'.isTarget = true := by rw [← e'.isTarget_unmarked, he, ht]
    show Expr.unary (d + 1) c = _
    rw [Expr.unary, run_here, run_peek, htoken, show updateOp? (.punct op.punct) = some op by cases op <;> rfl]
    dsimp only
    rw [run_advance, run_bind hread, if_pos ht]
    rfl

theorem Leads.postfixOp {op : UpdateOp} (h : Leads .members ts e) (ht : e.isTarget = true) :
    Leads .postfixed (ts ++ [.punct op.punct]) (.update () op false e) := by
  intro c rest hc hf
  rw [List.append_assoc, List.singleton_append] at hc
  obtain ⟨hopens, e', c₁, he, hc₁, hread⟩ := h c _ hc (follow_pos _)
  have hlen₁ := hc₁.length_advance
  refine ⟨hopens.looser (by decide), .update (e'.mark.merge c₁.advance.last) op false e', c₁.advance,
    by rw [Term.unmarked, he], hc₁.advance, fun d hd => ⟨d, ?_, ?_⟩⟩
  all_goals rw [Level.cost] at hd
  · have h₁ := hc.length
    have h₂ := hc₁.length
    rw [List.length_append] at h₁
    omega
  · obtain ⟨d, rfl⟩ : ∃ n, d = n + 1 := ⟨d - 1, by omega⟩
    obtain ⟨d₁, hd₁, hread⟩ := hread d (by rw [Level.cost]; omega)
    obtain ⟨d₂, rfl⟩ : ∃ n, d₁ = n + 1 := ⟨d₁ - 1, by omega⟩
    have hstop : Expr.members (d₂ + 1) e' c₁ = .ok (e', c₁) := by
      rw [Expr.members, run_peek, hc₁.token, if_neg (by cases op <;> decide), if_neg (by cases op <;> decide)]
      rfl
    have hread : (do Expr.members d (← primary d)) c = .ok (e', c₁) := hread.trans hstop
    have ht : e'.isTarget = true := by rw [← e'.isTarget_unmarked, he, ht]
    show Expr.postfixed (d + 1) c = _
    rw [Expr.postfixed, ← bind_assoc, run_bind hread, run_peek, hc₁.token,
      show updateOp? (.punct op.punct) = some op by cases op <;> rfl]
    dsimp only
    rw [if_pos ht]
    rfl

/-! ## Conditionals and assignments -/

theorem Leads.conditional {ts₁ ts₂ : List Token} {e₁ e₂ : Term Unit} (h : Leads (.operand loosest) ts e)
    (h₁ : Leads .assignment ts₁ e₁) (h₂ : Leads .assignment ts₂ e₂) :
    Leads .assignment (ts ++ .punct .question :: ts₁ ++ .punct .colon :: ts₂) (.conditional () e e₁ e₂) := by
  intro c rest hc hf
  simp only [List.append_assoc, List.cons_append] at hc
  obtain ⟨hopens, e', c₁, he, hc₁, hlen, htest⟩ := h.read hc (Nat.le_refl _)
  obtain ⟨-, y, c₂, hy, hc₂, hlen₂, hyes⟩ := h₁.read hc₁.advance (Nat.le_of_ble_eq_true rfl)
  obtain ⟨-, n, c₃, hn, hc₃, hlen₃, hno⟩ := h₂.read hc₂.advance hf
  have hlen₄ := hc₁.length_advance
  have hlen₅ := hc₂.length_advance
  refine ⟨hopens.looser (by decide), .conditional (e'.mark.merge n.mark) e' y n, c₃, by rw [Term.unmarked, he, hy, hn], hc₃,
    fun d hd => ⟨d, ?_, ?_⟩⟩
  all_goals rw [Level.cost] at hd
  · omega
  · obtain ⟨d, rfl⟩ : ∃ n, d = n + 1 + 1 := ⟨d - 2, by omega⟩
    have htest : Expr.operand d loosest c = .ok (e', c₁) := htest d (by rw [Level.cost, loosest]; omega)
    have hyes : Expr.assignment d c₁.advance = .ok (y, c₂) := hyes d (by rw [Level.cost]; omega)
    have hno : Expr.assignment d c₂.advance = .ok (n, c₃) := hno d (by rw [Level.cost]; omega)
    have hconditional : Expr.conditional (d + 1) c = .ok (.conditional (e'.mark.merge n.mark) e' y n, c₃) := by
      rw [Expr.conditional, run_bind htest, run_peek, hc₁.token, if_pos (isPunct_self _), run_advance, run_bind hyes,
        run_expect hc₂.token, run_bind hno]
      rfl
    show Expr.assignment (d + 1 + 1) c = _
    rw [Expr.assignment, run_bind hconditional, run_peek, assignOp?_follow (hc₃.follow ▸ hf)]
    rfl

theorem Leads.assign {op : AssignOp} {ts' : List Token} {v : Term Unit} (h : Leads (.operand loosest) ts e)
    (ht : e.isTarget = true) (hv : Leads .assignment ts' v) :
    Leads .assignment (ts ++ .punct op.punct :: ts') (.assign () op e v) := by
  intro c rest hc hf
  rw [List.append_assoc, List.cons_append] at hc
  obtain ⟨hopens, e', c₁, he, hc₁, hlen, htarget⟩ := h.read hc (by cases op <;> exact Nat.le_refl _)
  obtain ⟨-, v', c₂, hv', hc₂, hlen₂, hvalue⟩ := hv.read hc₁.advance hf
  have hlen₃ := hc₁.length_advance
  refine ⟨hopens.looser (by decide), .assign (e'.mark.merge v'.mark) op e' v', c₂, by rw [Term.unmarked, he, hv'], hc₂,
    fun d hd => ⟨d, ?_, ?_⟩⟩
  all_goals rw [Level.cost] at hd
  · omega
  · obtain ⟨d, rfl⟩ : ∃ n, d = n + 1 + 1 := ⟨d - 2, by omega⟩
    have htarget : Expr.operand d loosest c = .ok (e', c₁) := htarget d (by rw [Level.cost, loosest]; omega)
    have hconditional : Expr.conditional (d + 1) c = .ok (e', c₁) := by
      rw [Expr.conditional, run_bind htarget, run_peek, hc₁.token, if_neg (by cases op <;> decide)]
      rfl
    have hvalue : Expr.assignment (d + 1) c₁.advance = .ok (v', c₂) := hvalue (d + 1) (by rw [Level.cost]; omega)
    have ht : e'.isTarget = true := by rw [← e'.isTarget_unmarked, he, ht]
    show Expr.assignment (d + 1 + 1) c = _
    rw [Expr.assignment, run_bind hconditional, run_peek, hc₁.token,
      show assignOp? (.punct op.punct) = some op by cases op <;> rfl]
    dsimp only
    rw [if_pos ht, run_advance, run_bind hvalue]
    rfl

/-! ## Entries and items -/

/-- A tree as a part of a larger one. -/
def Embeds (e : Term μ) : Prop := ∀ L : Level, L.Valid → Leads L (enclose L e.level e.tokens) e.unmarked

theorem separate_cons (ts : List Token) (tss : List (List Token)) :
    separate (ts :: tss) = ts ++ tss.flatMap (.punct .comma :: ·) := by
  induction tss generalizing ts with
  | nil => simp [separate]
  | cons ts' tss ih =>
    rw [separate, ih, List.flatMap_cons, List.cons_append]
    nofun

theorem follow_commas {tss : List (List Token)} (h : 11 ≤ follow rest) :
    11 ≤ follow (tss.flatMap (.punct .comma :: ·) ++ rest) := by
  cases tss with
  | nil => exact h
  | cons ts tss => exact Nat.le_refl _

theorem read_items {es : List (Term μ)} (h : ∀ e ∈ es, Embeds e)
    (hc : Holds c ((itemTokens es).flatMap (.punct .comma :: ·) ++ rest)) (hf : 12 ≤ follow rest) :
    ∃ es' c', unmarkedItems es' = unmarkedItems es ∧ Holds c' rest ∧
      ∀ d, 16 * c.rest.length + 1 ≤ d → sequenceRest d c = .ok (es', c') := by
  induction es generalizing c with
  | nil =>
    refine ⟨[], c, rfl, hc, fun d hd => ?_⟩
    obtain ⟨d, rfl⟩ : ∃ n, d = n + 1 := ⟨d - 1, by omega⟩
    rw [sequenceRest, run_peek, isPunct_follow (hc.follow ▸ hf)]
    rfl
  | cons e es ih =>
    rw [List.forall_mem_cons] at h
    rw [itemTokens, List.flatMap_cons, List.cons_append, List.cons_append, List.append_assoc] at hc
    obtain ⟨-, e', c₁, he, hc₁, hlen, hread⟩ := (h.1 .assignment trivial).read hc.advance (follow_commas (Nat.le_of_succ_le hf))
    obtain ⟨es', c₂, hes, hc₂, hrest⟩ := ih h.2 hc₁
    have hlen₁ := hc.length_advance
    refine ⟨e' :: es', c₂, by rw [unmarkedItems, unmarkedItems, he, hes], hc₂, fun d hd => ?_⟩
    obtain ⟨d, rfl⟩ : ∃ n, d = n + 1 := ⟨d - 1, by omega⟩
    have hread : Expr.assignment d c.advance = .ok (e', c₁) := hread d (by rw [Level.cost]; omega)
    rw [sequenceRest, run_peek, hc.token, if_pos (isPunct_self _), run_advance, run_bind hread,
      run_bind (hrest d (by omega))]
    rfl

theorem Leads.items {e : Term μ} {es : List (Term μ)} (he : Embeds e) (h : ∀ e ∈ es, Embeds e) (hes : es ≠ []) :
    Leads .sequence (separate (itemTokens (e :: es))) (.sequence () (unmarkedItems (e :: es))) := by
  intro c rest hc hf
  rw [itemTokens, separate_cons, List.append_assoc] at hc
  obtain ⟨hopens, e', c₁, he, hc₁, hlen, hread⟩ := (he .assignment trivial).read hc (follow_commas (Nat.le_of_succ_le hf))
  obtain ⟨es', c₂, hes', hc₂, hrest⟩ := read_items h hc₁ hf
  have hcomma : c₁.current.token = .punct .comma := by
    cases es with
    | nil => exact absurd rfl hes
    | cons e₂ es => exact hc₁.token
  refine ⟨hopens.looser (by decide), .sequence (e'.mark.merge c₂.last) (e' :: es'), c₂, ?_, hc₂, fun d hd => ⟨d, ?_, ?_⟩⟩
  · rw [Term.unmarked, unmarkedItems, unmarkedItems, he, hes']
  all_goals rw [Level.cost] at hd
  · have h₁ := hc₁.length
    have h₂ := hc₂.length
    rw [List.length_append] at h₁
    omega
  · obtain ⟨d, rfl⟩ : ∃ n, d = n + 1 := ⟨d - 1, by omega⟩
    have hread : Expr.assignment d c = .ok (e', c₁) := hread d (by rw [Level.cost]; omega)
    show Expr.sequence (d + 1) c = _
    rw [Expr.sequence, run_bind hread, run_peek, hcomma, if_pos (isPunct_self _), run_bind (hrest d (by omega))]
    rfl

theorem read_entries {es : List (String × Term μ)} (h : ∀ e ∈ es, Embeds e.2)
    (hc : Holds c (separate (entryTokens es) ++ .punct .closeBrace :: rest)) :
    ∃ es' c', unmarkedEntries es' = unmarkedEntries es ∧ Holds c' (.punct .closeBrace :: rest) ∧
      ∀ d, 16 * c.rest.length + 1 ≤ d → entries d c = .ok (es', c') := by
  induction es generalizing c with
  | nil =>
    refine ⟨[], c, rfl, hc, fun d hd => ?_⟩
    obtain ⟨d, rfl⟩ : ∃ n, d = n + 1 := ⟨d - 1, by omega⟩
    rw [entries, run_peek, Holds.token hc, if_pos (isPunct_self _)]
    rfl
  | cons e es ih =>
    obtain ⟨key, e⟩ := e
    rw [List.forall_mem_cons] at h
    rw [entryTokens, separate_cons] at hc
    simp only [List.cons_append, List.append_assoc] at hc
    have hc₁ := hc.advance
    obtain ⟨-, e', c₂, he, hc₂, hlen, hread⟩ :=
      (h.1 .assignment trivial).read hc₁.advance (follow_commas (Nat.le_of_ble_eq_true rfl))
    have hlen₁ := hc.length_advance
    have hlen₂ := hc₁.length_advance
    have hvalue (d : Nat) (hd : 16 * c.advance.rest.length + 1 ≤ d) (span : Span) :
        entryValue d key span c.advance = .ok (e', c₂) := by
      obtain ⟨d, rfl⟩ : ∃ n, d = n + 1 := ⟨d - 1, by omega⟩
      rw [entryValue, run_peek, hc₁.token, if_pos (isPunct_self _), run_advance]
      exact hread d (by rw [Level.cost]; omega)
    cases es with
    | nil =>
      refine ⟨[(key, e')], c₂, by rw [unmarkedEntries, unmarkedEntries, he]; rfl, hc₂, fun d hd => ?_⟩
      obtain ⟨d, rfl⟩ : ∃ n, d = n + 1 := ⟨d - 1, by omega⟩
      rw [entries, run_peek, hc.token, if_neg (by simp [isPunct])]
      simp only [entryKey?]
      rw [run_here, run_advance, run_bind (hvalue d (by omega) _), run_peek, Holds.token hc₂, if_neg (by decide)]
      rfl
    | cons e₂ es =>
      rw [show entryTokens (e₂ :: es) = _ :: entryTokens es from rfl, List.flatMap_cons, List.cons_append,
        List.cons_append] at hc₂
      obtain ⟨es', c₃, hes, hc₃, hrest⟩ := ih h.2 (c := c₂.advance) (by
        rw [show entryTokens (e₂ :: es) = _ :: entryTokens es from rfl, separate_cons]
        exact hc₂.advance)
      have hlen₃ := hc₂.length_advance
      refine ⟨(key, e') :: es', c₃, by rw [unmarkedEntries, unmarkedEntries, he, hes], hc₃, fun d hd => ?_⟩
      obtain ⟨d, rfl⟩ : ∃ n, d = n + 1 := ⟨d - 1, by omega⟩
      rw [entries, run_peek, hc.token, if_neg (by simp [isPunct])]
      simp only [entryKey?]
      rw [run_here, run_advance, run_bind (hvalue d (by omega) _), run_peek, hc₂.token, if_pos (isPunct_self _),
        run_advance, run_bind (hrest d (by omega))]
      rfl

theorem Leads.object {es : List (String × Term μ)} (h : ∀ e ∈ es, Embeds e.2) :
    Leads .primary (.punct .openBrace :: separate (entryTokens es) ++ [.punct .closeBrace])
      (.object () (unmarkedEntries es)) := by
  intro c rest hc _
  rw [List.append_assoc, List.cons_append, List.singleton_append] at hc
  obtain ⟨es', c₁, hes, hc₁, hread⟩ := read_entries h hc.advance
  have htoken := hc.token
  have hlen := hc.length_advance
  have hlen₁ := hc₁.length_advance
  refine ⟨htoken ▸ ⟨nofun, nofun, fun _ => ⟨rfl, rfl⟩⟩, .object (c.current.span.merge c₁.advance.last) es', c₁.advance,
    by rw [Term.unmarked, hes], hc₁.advance, fun d hd => ⟨d, ?_, ?_⟩⟩
  all_goals rw [Level.cost] at hd
  · have h₁ := hc.length
    have h₂ := hc₁.length
    rw [List.length_cons, List.length_append] at h₁
    omega
  · obtain ⟨d, rfl⟩ : ∃ n, d = n + 1 := ⟨d - 1, by omega⟩
    show primary (d + 1) c = _
    rw [primary, run_here, run_peek, htoken]
    simp only [leaf?]
    rw [if_neg (by decide), if_pos (isPunct_self _), run_advance, run_bind (hread d (by omega)), run_expect hc₁.token]
    rfl

/-! ## Trees -/

variable {numeral : Float → List Char}

theorem Term.level_valid (e : Term μ) : e.level.Valid := by
  cases e with
  | binary m op l r => cases op <;> simp [Term.level, Level.Valid, BinaryOp.level, loosest]
  | logical m op l r => cases op <;> simp [Term.level, Level.Valid, LogicalOp.level, loosest]
  | unary => exact Nat.zero_le _
  | update m op before t => cases before <;> simp [Term.level, Level.Valid]
  | _ => trivial

theorem Leads.embeds {e : Term μ} (h : Leads e.level e.tokens e.unmarked) : Embeds e :=
  fun _ hv => h.enclose e.level_valid hv

/-- Where anything can stand no parentheses are needed. -/
theorem Embeds.whole {e : Term μ} (h : Embeds e) : Leads .sequence e.tokens e.unmarked := by
  have := h .sequence trivial
  rwa [enclose, if_pos e.level_valid.rank_le] at this

theorem memberName?_wordToken (key : String) : memberName? (wordToken key) = some key := by
  unfold wordToken keyword?
  split <;> rfl

/-- The tokens of a tree lead to it. -/
theorem leads {e : Term μ} (h : e.Printable numeral) : Leads e.level e.tokens e.unmarked := by
  induction h with
  | @mk e hspell htarget _ ih =>
    have ih (p : Term μ) (hp : p ∈ e.parts) : Embeds p := (ih p hp).embeds
    have target (t : Term μ) (ht : e.target? = some t) : t.unmarked.isTarget = true := by
      rw [t.isTarget_unmarked, htarget t ht]
    cases e with
    | name m n => exact .leaf (fun s => rfl) fun s => rfl
    | literal m v => exact .leaf (f := fun s => .literal s v) (fun s => by cases v <;> rfl) fun s => rfl
    | object m es => exact .object fun e he => ih e.2 (List.mem_map_of_mem he)
    | member m o key => exact (ih o List.mem_cons_self .members trivial).member (memberName?_wordToken key)
    | index m o k =>
      exact (ih o (by simp [Term.parts]) .members trivial).index (ih k (by simp [Term.parts])).whole
    | unary m op a => exact (ih a List.mem_cons_self (.operand 0) (Nat.zero_le _)).unaryOp
    | update m op before t =>
      cases before with
      | false => exact (ih t List.mem_cons_self .members trivial).postfixOp (target t rfl)
      | true => exact (ih t List.mem_cons_self (.operand 0) (Nat.zero_le _)).prefixed (target t rfl)
    | binary m op l r =>
      have hlevel : op.level ≤ loosest := (Term.binary m op l r).level_valid
      exact .operator (.binary op) hlevel (by cases op <;> rfl) (by cases op <;> rfl)
        (ih l (by simp [Term.parts]) (.operand _) hlevel)
        (ih r (by simp [Term.parts]) (.operand _) (Nat.le_trans (Nat.sub_le _ _) hlevel))
        fun l' r' hl hr => by rw [Term.unmarked, ← hl, ← hr]; rfl
    | logical m op l r =>
      have hlevel : op.level ≤ loosest := (Term.logical m op l r).level_valid
      exact .operator (.logical op) hlevel (by cases op <;> rfl) (by cases op <;> rfl)
        (ih l (by simp [Term.parts]) (.operand _) hlevel)
        (ih r (by simp [Term.parts]) (.operand _) (Nat.le_trans (Nat.sub_le _ _) hlevel))
        fun l' r' hl hr => by rw [Term.unmarked, ← hl, ← hr]; rfl
    | conditional m t y n =>
      exact (ih t (by simp [Term.parts]) (.operand loosest) (Nat.le_refl _)).conditional
        (ih y (by simp [Term.parts]) .assignment trivial) (ih n (by simp [Term.parts]) .assignment trivial)
    | assign m op t v =>
      have ht := ih t (by simp [Term.parts]) .members trivial
      exact (ht.raise (.operand loosest) trivial (Nat.le_refl _) (by decide)).assign (target t rfl)
        (ih v (by simp [Term.parts]) .assignment trivial)
    | sequence m es =>
      cases es with
      | nil => exact absurd hspell (by simp [Term.Spellable])
      | cons e es =>
        refine .items (ih e List.mem_cons_self) (fun e' he => ih e' (List.mem_cons_of_mem _ he)) ?_
        rintro rfl
        exact absurd hspell (by simp [Term.Spellable])

/-! ## Programs -/

theorem read_statement {s : Statement μ} (h : ∀ e ∈ s.parts, e.Printable numeral) (hc : Holds c (s.tokens ++ rest)) :
    c.current.token ≠ .eof ∧ ∃ s' c', s'.unmarked = s.unmarked ∧ Holds c' rest ∧ c'.rest.length < c.rest.length ∧
      ∀ d, 16 * c.rest.length + 14 ≤ d → statement d c = .ok (s', c') := by
  cases s with
  | empty m =>
    have hlen := hc.length_advance
    refine ⟨hc.token ▸ nofun, .empty c.current.span, c.advance, rfl, hc.advance, by omega, fun d hd => ?_⟩
    rw [statement, run_here, run_peek, hc.token, if_pos (isPunct_self _)]
    rfl
  | expression m e =>
    rw [Statement.tokens, List.append_assoc] at hc
    obtain ⟨hopens, e', c₁, he, hc₁, hlen, hread⟩ :=
      (leads (h e List.mem_cons_self)).embeds.whole.read hc (Nat.le_refl _)
    have hlen₁ := hc₁.length_advance
    refine ⟨hopens.eof, .expression (c.current.span.merge c₁.advance.last) e', c₁.advance,
      by rw [Statement.unmarked, Statement.unmarked, he], hc₁.advance, by omega, fun d hd => ?_⟩
    have hread : sequence d c = .ok (e', c₁) := hread d hd
    rw [statement, run_here, run_peek, if_neg fun hp => hopens.semicolon (isPunct_iff.mp hp), run_bind hread, run_peek,
      hc₁.token]
    rfl

theorem statements_end (h : c.current.token = .eof) (d limit : Nat) : statements d limit c = .ok ([], c) := by
  cases limit <;> rw [statements, run_peek, h] <;> rfl

theorem statements_cons {s : Statement Span} {ss : List (Statement Span)} {c₁ c₂ : Cursor} {limit : Nat}
    (heof : c.current.token ≠ .eof) (hs : statement d c = .ok (s, c₁)) (hss : statements d limit c₁ = .ok (ss, c₂)) :
    statements d (limit + 1) c = .ok (s :: ss, c₂) := by
  rw [statements, run_peek]
  generalize c.current.token = t at heof
  cases t with
  | eof => exact absurd rfl heof
  | _ =>
    dsimp only
    rw [run_bind hs, run_bind hss]
    rfl

theorem read_statements {ss : List (Statement μ)} (h : ∀ s ∈ ss, ∀ e ∈ s.parts, e.Printable numeral)
    (hc : Holds c (ss.flatMap Statement.tokens)) :
    ∃ ss' c', ss'.map Statement.unmarked = ss.map Statement.unmarked ∧
      ∀ d limit, 16 * c.rest.length + 14 ≤ d → c.rest.length ≤ limit → statements d limit c = .ok (ss', c') := by
  induction ss generalizing c with
  | nil =>
    exact ⟨[], c, rfl, fun d limit _ _ => statements_end (Holds.token_nil hc) d limit⟩
  | cons s ss ih =>
    rw [List.forall_mem_cons] at h
    obtain ⟨heof, s', c₁, hs, hc₁, hlen, hread⟩ := read_statement h.1 hc
    obtain ⟨ss', c₂, hss, hrest⟩ := ih h.2 hc₁
    refine ⟨s' :: ss', c₂, by rw [List.map_cons, List.map_cons, hs, hss], fun d limit hd hl => ?_⟩
    obtain ⟨limit, rfl⟩ : ∃ n, limit = n + 1 := ⟨limit - 1, by omega⟩
    exact statements_cons heof (hread d hd) (hrest d limit (by omega) (by omega))

/-- A text is parsed as the statements that are read from its first token on. -/
theorem parse_statements {source : String} {body : List (Statement Span)} (hc : c = Cursor.ofSource source)
    (h : statements (depthPerLexeme * (c.rest.length + 1)) c.rest.length c = .ok (body, c')) :
    parse source = .ok ⟨c.current.span.merge c'.last, body⟩ := by
  have hprogram : program (depthPerLexeme * (c.rest.length + 1)) c.rest.length c =
      .ok (⟨c.current.span.merge c'.last, body⟩, c') := by
    rw [program, run_here, run_bind h]
    rfl
  unfold parse
  dsimp only
  rw [← hc]
  simp only [StateT.run, hprogram]
  rfl

/-- A program that is printed and parsed is the same program. -/
theorem parse_print (p : Program μ) (style : Style) (h : p.Printable style.numeral) :
    ∃ q, parse (style.text p.tokens) = .ok q ∧ q.unmarked = p.unmarked := by
  have hc : Holds (Cursor.ofSource (style.text p.tokens)) p.tokens :=
    ⟨lexemes_text style h.legible, congrArg Lexeme.token (lexemes_lined _).2⟩
  obtain ⟨body, c', hbody, hread⟩ := read_statements h hc
  have hstatements := hread (depthPerLexeme * ((Cursor.ofSource (style.text p.tokens)).rest.length + 1)) _
    (by unfold depthPerLexeme; omega) (Nat.le_refl _)
  exact ⟨_, parse_statements rfl hstatements, by rw [Program.unmarked, Program.unmarked, hbody]⟩

/-- `a . typeof = ( b + 1 ) * "c" ;` -/
def product : Program Unit :=
  ⟨(), [.expression () (.assign () .plain (.member () (.name () "a") "typeof")
    (.binary () .mul
      (.binary () .add (.name () "b") (.literal () (.number (Number.ofDecimal false ['1'] 0))))
      (.literal () (.text "c"))))]⟩

theorem parse_print_product : product.Printable (Style.plain ['1']).numeral ∧
    ∃ q, parse ((Style.plain ['1']).text product.tokens) = .ok q ∧ q.unmarked = product.unmarked := by
  have name (n : String) (h : LexesAs n.toList (.name n)) : (Term.name () n).Printable (Style.plain ['1']).numeral :=
    .mk h nofun nofun
  have member : (Term.member () (.name () "a") "typeof").Printable (Style.plain ['1']).numeral :=
    .mk rfl nofun (List.forall_mem_singleton.mpr (name "a" rfl))
  have one : (Term.literal () (.number (Number.ofDecimal false ['1'] 0))).Printable (Style.plain ['1']).numeral :=
    .mk rfl nofun nofun
  have printable : product.Printable (Style.plain ['1']).numeral := by
    intro s hs e he
    obtain rfl := List.mem_singleton.mp hs
    obtain rfl := List.mem_singleton.mp he
    refine .mk trivial (by rintro t ⟨⟩; rfl) (List.forall_mem_cons.mpr ⟨member, List.forall_mem_singleton.mpr ?_⟩)
    refine .mk trivial nofun (List.forall_mem_cons.mpr ⟨?_, List.forall_mem_singleton.mpr (.mk trivial nofun nofun)⟩)
    exact .mk trivial nofun (List.forall_mem_cons.mpr ⟨name "b" rfl, List.forall_mem_singleton.mpr one⟩)
  exact ⟨printable, parse_print product (Style.plain ['1']) printable⟩

end Eventful.Expr
