import Eventful.Proofs.Expr.Numbering
import Eventful.Expr.Parser

/-
  Eventful.Proofs.Expr.Printing — source texts for trees.

  A tree is printed as tokens, with parentheses around a part only where the part belongs
  to a looser level of the grammar than its place takes (`Term.tokens`). The tokens are
  spelled out with gaps between them: a blank, and after it any blanks and comments
  (`Style.text`). A style chooses the gaps and the numerals.
-/

namespace Eventful.Expr

variable {μ : Type}

/-! ## Levels -/

/-- The level of an operator between two operands, the tightest being 1. -/
def BinaryOp.level : BinaryOp → Nat
  | .mul | .div | .mod => 1
  | .add | .sub => 2
  | .less | .greater | .lessEq | .greaterEq => 3
  | .looseEq | .looseNe | .strictEq | .strictNe => 4

def LogicalOp.level : LogicalOp → Nat
  | .and => 5
  | .or | .nullish => 6

/-- The levels of the grammar. -/
inductive Level where
  | primary
  | members
  | postfixed
  /-- Operands of the operators looser than a level of theirs; at 0 the unary level. -/
  | operand (level : Nat)
  /-- Assignments and conditionals. -/
  | assignment
  | sequence

/-- How loose a level is. -/
def Level.rank : Level → Nat
  | .primary => 0
  | .members => 1
  | .postfixed => 2
  | .operand level => level + 3
  | .assignment => 11
  | .sequence => 12

def Term.level : Term μ → Level
  | .name .. | .literal .. | .object .. => .primary
  | .member .. | .index .. => .members
  | .update _ _ false _ => .postfixed
  | .update _ _ true _ | .unary .. => .operand 0
  | .binary _ op _ _ => .operand op.level
  | .logical _ op _ _ => .operand op.level
  | .conditional .. | .assign .. => .assignment
  | .sequence .. => .sequence

/-! ## Tokens -/

def Literal.token : Literal → Token
  | .number x => .number x
  | .text s => .text s
  | .boolean b => .boolean b
  | .null => .null
  | .undefined => .undefined

def UnaryOp.token : UnaryOp → Token
  | .not => .punct .bang
  | .minus => .punct .minus
  | .plus => .punct .plus
  | .typeof => .typeof

def UpdateOp.punct : UpdateOp → Punct
  | .increment => .plusPlus
  | .decrement => .minusMinus

def BinaryOp.punct : BinaryOp → Punct
  | .add => .plus | .sub => .minus | .mul => .star | .div => .slash | .mod => .percent
  | .less => .less | .greater => .greater | .lessEq => .lessEq | .greaterEq => .greaterEq
  | .looseEq => .looseEq | .looseNe => .looseNe | .strictEq => .strictEq | .strictNe => .strictNe

def LogicalOp.punct : LogicalOp → Punct
  | .and => .and
  | .or => .or
  | .nullish => .nullish

def AssignOp.punct : AssignOp → Punct
  | .plain => .assign
  | .add => .plusAssign
  | .sub => .minusAssign
  | .mul => .starAssign
  | .div => .slashAssign

/-- The token that a word reads as: a keyword or a name. -/
def wordToken (s : String) : Token := (keyword? s).getD (.name s)

/-- The tokens of a tree of one level in a place that takes trees up to another. -/
def enclose (limit level : Level) (ts : List Token) : List Token :=
  if level.rank ≤ limit.rank then ts else .punct .openParen :: ts ++ [.punct .closeParen]

/-- Lists of tokens with commas between them. -/
def separate : List (List Token) → List Token
  | [] => []
  | [ts] => ts
  | ts :: rest => ts ++ .punct .comma :: separate rest

mutual

/-- The tokens of an expression. -/
def Term.tokens : Term μ → List Token
  | .name _ n => [.name n]
  | .literal _ v => [v.token]
  | .object _ es => .punct .openBrace :: separate (entryTokens es) ++ [.punct .closeBrace]
  | .member _ o key => enclose .members o.level o.tokens ++ [.punct .dot, wordToken key]
  | .index _ o k => enclose .members o.level o.tokens ++ .punct .openBracket :: k.tokens ++ [.punct .closeBracket]
  | .unary _ op a => op.token :: enclose (.operand 0) a.level a.tokens
  | .update _ op true t => .punct op.punct :: enclose (.operand 0) t.level t.tokens
  | .update _ op false t => enclose .members t.level t.tokens ++ [.punct op.punct]
  | .binary _ op l r =>
    enclose (.operand op.level) l.level l.tokens ++ .punct op.punct :: enclose (.operand (op.level - 1)) r.level r.tokens
  | .logical _ op l r =>
    enclose (.operand op.level) l.level l.tokens ++ .punct op.punct :: enclose (.operand (op.level - 1)) r.level r.tokens
  | .conditional _ t y n =>
    enclose (.operand loosest) t.level t.tokens ++ .punct .question :: enclose .assignment y.level y.tokens ++
      .punct .colon :: enclose .assignment n.level n.tokens
  | .assign _ op t v => enclose .members t.level t.tokens ++ .punct op.punct :: enclose .assignment v.level v.tokens
  | .sequence _ es => separate (itemTokens es)

/-- The tokens of the entries of an object, with the keys as texts. -/
def entryTokens : List (String × Term μ) → List (List Token)
  | [] => []
  | (key, e) :: es => (.text key :: .punct .colon :: enclose .assignment e.level e.tokens) :: entryTokens es

/-- The tokens of the items of a sequence. -/
def itemTokens : List (Term μ) → List (List Token)
  | [] => []
  | e :: es => enclose .assignment e.level e.tokens :: itemTokens es

end

def Statement.tokens : Statement μ → List Token
  | .expression _ e => e.tokens ++ [.punct .semicolon]
  | .empty _ => [.punct .semicolon]

def Program.tokens (p : Program μ) : List Token := p.body.flatMap Statement.tokens

/-! ## Spelling -/

/-- A quote or a backslash takes a backslash. -/
def escape (c : Char) : List Char := if c == '"' || c == '\\' then ['\\', c] else [c]

/-- The spelling of a token, numerals as is chosen. -/
def Token.spell (numeral : Float → List Char) : Token → List Char
  | .number x => numeral x
  | .text s => '"' :: s.toList.flatMap escape ++ ['"']
  | .boolean b => (boolText b).toList
  | .null => "null".toList
  | .undefined => "undefined".toList
  | .name s => s.toList
  | .typeof => "typeof".toList
  | .punct p => p.text.toList
  | .fault _ | .eof => []

/-- Something to skip. -/
inductive Filler where
  | blank (c : Char)
  | lineComment (text : List Char)
  | blockComment (text : List Char)

def Filler.chars : Filler → List Char
  | .blank c => [c]
  | .lineComment text => '/' :: '/' :: text ++ ['\n']
  | .blockComment text => '/' :: '*' :: text ++ ['*', '/']

/-- A blank is one, and a comment ends where it should. -/
def Filler.Closed : Filler → Prop
  | .blank c => isSpace c = true
  | .lineComment text => '\n' ∉ text
  | .blockComment text => ¬ ['*', '/'] <:+: text

/-- A blank, and more to skip after it. -/
structure Spacing where
  blank : Char
  fillers : List Filler
  isBlank : isSpace blank = true
  closed : ∀ f ∈ fillers, f.Closed

def Spacing.chars (s : Spacing) : List Char := s.blank :: s.fillers.flatMap Filler.chars

/-- How tokens are spelled out: the numerals, what is skipped before the first token, and
    what stands after each; after the last one nothing need stand. -/
structure Style where
  numeral : Float → List Char
  lead : List Filler
  closed : ∀ f ∈ lead, f.Closed
  spacing : Nat → Spacing
  trail : Option Spacing

/-- The tokens from the `i`-th on, with what stands after each. -/
def Style.spread (style : Style) (i : Nat) : List Token → List Char
  | [] => []
  | [t] => t.spell style.numeral ++ (style.trail.elim [] Spacing.chars)
  | t :: ts => t.spell style.numeral ++ (style.spacing i).chars ++ style.spread (i + 1) ts

/-- One blank between tokens, and `numeral` for every number. -/
def Style.plain (numeral : List Char) : Style where
  numeral _ := numeral
  lead := []
  closed := nofun
  spacing _ := ⟨' ', [], rfl, nofun⟩
  trail := none

/-- The source text of tokens. -/
def Style.text (style : Style) (ts : List Token) : String :=
  String.ofList (style.lead.flatMap Filler.chars ++ style.spread 0 ts)

/-! ## What can be printed -/

/-- The text reads as the token and nothing is left of it. -/
def LexesAs : List Char → Token → Prop
  | [], _ => False
  | c :: cs, t => readToken c cs = (t, [])

/-- What a node holds can be spelled. A sequence has two items or more: one item alone is
    written as the item. -/
def Term.Spellable (numeral : Float → List Char) : Term μ → Prop
  | .name _ n => LexesAs n.toList (.name n)
  | .literal _ (.number x) => LexesAs (numeral x) (.number x)
  | .member _ _ key => LexesAs key.toList (wordToken key)
  | .sequence _ es => 2 ≤ es.length
  | _ => True

/-- Every node can be spelled, and what it writes to is a target. -/
inductive Term.Printable (numeral : Float → List Char) : Term μ → Prop
  | mk {e : Term μ} : e.Spellable numeral → (∀ t, e.target? = some t → t.isTarget = true) →
    (∀ p ∈ e.parts, p.Printable numeral) → e.Printable numeral

def Program.Printable (numeral : Float → List Char) (p : Program μ) : Prop :=
  ∀ s ∈ p.body, ∀ e ∈ s.parts, e.Printable numeral

mutual

/-- The tree without its marks. -/
def Term.unmarked : Term μ → Term Unit
  | .name _ n => .name () n
  | .literal _ v => .literal () v
  | .object _ es => .object () (unmarkedEntries es)
  | .member _ o key => .member () o.unmarked key
  | .index _ o k => .index () o.unmarked k.unmarked
  | .unary _ op a => .unary () op a.unmarked
  | .update _ op before t => .update () op before t.unmarked
  | .binary _ op l r => .binary () op l.unmarked r.unmarked
  | .logical _ op l r => .logical () op l.unmarked r.unmarked
  | .conditional _ t y n => .conditional () t.unmarked y.unmarked n.unmarked
  | .assign _ op t v => .assign () op t.unmarked v.unmarked
  | .sequence _ es => .sequence () (unmarkedItems es)

def unmarkedEntries : List (String × Term μ) → List (String × Term Unit)
  | [] => []
  | (key, e) :: es => (key, e.unmarked) :: unmarkedEntries es

def unmarkedItems : List (Term μ) → List (Term Unit)
  | [] => []
  | e :: es => e.unmarked :: unmarkedItems es

end

def Statement.unmarked : Statement μ → Statement Unit
  | .expression _ e => .expression () e.unmarked
  | .empty _ => .empty ()

def Program.unmarked (p : Program μ) : Program Unit := ⟨(), p.body.map Statement.unmarked⟩

end Eventful.Expr
