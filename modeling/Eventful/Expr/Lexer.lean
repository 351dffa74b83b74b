import Eventful.Number.Numeral
import Eventful.Text.Alphabetic
import Eventful.Text.Numeric
import Eventful.Expr.Token

/-
  Eventful.Expr.Lexer — the tokens of a source text.

  A reader holds the text that is left and the byte offset it starts at. `Reader.next`
  skips blanks (space, tab, CR, LF) and comments and reads one token; a text that is no
  token becomes a `fault` token and reading goes on after it. A block comment without end
  reaches to the end of the text.
-/

namespace Eventful.Expr

def isNameStart (c : Char) : Bool := Text.isAlphabetic c || c == '_' || c == '$'

def isNamePart (c : Char) : Bool := Text.isAlphabetic c || Text.isNumeric c || c == '_' || c == '$'

def isSpace (c : Char) : Bool := c == ' ' || c == '\t' || c == '\r' || c == '\n'

/-- The size of a text in bytes. -/
def bytes (cs : List Char) : Nat := cs.foldr (fun c n => c.utf8Size + n) 0

/-- Where a skip stands: between tokens or in a comment. -/
inductive Gap where
  | between
  | line
  | block

/-- What is left after blanks and comments. -/
def skip : Gap → List Char → List Char
  | _, [] => []
  | .between, '/' :: '/' :: cs => skip .line cs
  | .between, '/' :: '*' :: cs => skip .block cs
  | .between, c :: cs => if isSpace c then skip .between cs else c :: cs
  | .line, c :: cs => if c == '\n' then skip .between cs else skip .line cs
  | .block, '*' :: '/' :: cs => skip .between cs
  | .block, _ :: cs => skip .block cs

/-- A token read off the front of a text, and what is left of the text. -/
abbrev Read := Token × List Char

def readName (c : Char) (cs : List Char) : Read :=
  let word := String.ofList (c :: cs.takeWhile isNamePart)
  ((keyword? word).getD (.name word), cs.dropWhile isNamePart)

/-- The digits after a point, if the point has any. -/
def fractionPart : List Char → List Char × List Char
  | '.' :: d :: cs =>
    if d.isDigit then ('.' :: d :: cs.takeWhile Char.isDigit, cs.dropWhile Char.isDigit)
    else ([], '.' :: d :: cs)
  | cs => ([], cs)

/-- An `e`, a sign if there is one, and the digits after it. -/
def exponentPart : List Char → List Char × List Char
  | [] => ([], [])
  | e :: cs =>
    if e == 'e' || e == 'E' then
      let (sign, cs) := match cs with
        | '+' :: r => (['+'], r)
        | '-' :: r => (['-'], r)
        | r => ([], r)
      (e :: sign ++ cs.takeWhile Char.isDigit, cs.dropWhile Char.isDigit)
    else ([], e :: cs)

/-- A number starts with `c`, a digit or a point before a digit; underscores between the
    digits before its (second) point do not count. -/
def readNumber (c : Char) (cs : List Char) : Read :=
  let grouped (c : Char) : Bool := c.isDigit || c == '_'
  let whole := cs.takeWhile grouped
  let (fraction, cs) := fractionPart (cs.dropWhile grouped)
  let (exponent, cs) := exponentPart cs
  let text := (c :: whole ++ fraction ++ exponent).filter (· != '_')
  match Number.ofNumeral? text with
  | some x => (.number x, cs)
  | none => (.fault (.badNumber (String.ofList text)), cs)

/-- The character that a backslash before `c` stands for. -/
def unescape : Char → Char
  | 'n' => '\n'
  | 'r' => '\r'
  | 't' => '\t'
  | '0' => '\x00'
  | c => c

/-- A text up to the closing quote; `read` is what came before, last first. -/
def readText (quote : Char) (read : List Char) : List Char → Read
  | [] => (.fault .unclosedText, [])
  | '\\' :: [] => (.fault .unclosedText, [])
  | '\\' :: c :: cs => readText quote (unescape c :: read) cs
  | c :: cs => if c == quote then (.text (String.ofList read.reverse), cs) else readText quote (c :: read) cs

/-- An operator: the longest one that the text starts with. -/
def readPunct : List Char → Option (Punct × List Char)
  | '\x7b' :: cs => some (.openBrace, cs)
  | '\x7d' :: cs => some (.closeBrace, cs)
  | '(' :: cs => some (.openParen, cs)
  | ')' :: cs => some (.closeParen, cs)
  | '[' :: cs => some (.openBracket, cs)
  | ']' :: cs => some (.closeBracket, cs)
  | '.' :: cs => some (.dot, cs)
  | ';' :: cs => some (.semicolon, cs)
  | ',' :: cs => some (.comma, cs)
  | ':' :: cs => some (.colon, cs)
  | '?' :: '?' :: cs => some (.nullish, cs)
  | '?' :: cs => some (.question, cs)
  | '+' :: '+' :: cs => some (.plusPlus, cs)
  | '+' :: '=' :: cs => some (.plusAssign, cs)
  | '+' :: cs => some (.plus, cs)
  | '-' :: '-' :: cs => some (.minusMinus, cs)
  | '-' :: '=' :: cs => some (.minusAssign, cs)
  | '-' :: cs => some (.minus, cs)
  | '*' :: '=' :: cs => some (.starAssign, cs)
  | '*' :: cs => some (.star, cs)
  | '/' :: '=' :: cs => some (.slashAssign, cs)
  | '/' :: cs => some (.slash, cs)
  | '%' :: cs => some (.percent, cs)
  | '<' :: '=' :: cs => some (.lessEq, cs)
  | '<' :: cs => some (.less, cs)
  | '>' :: '=' :: cs => some (.greaterEq, cs)
  | '>' :: cs => some (.greater, cs)
  | '=' :: '=' :: '=' :: cs => some (.strictEq, cs)
  | '=' :: '=' :: cs => some (.looseEq, cs)
  | '=' :: cs => some (.assign, cs)
  | '!' :: '=' :: '=' :: cs => some (.strictNe, cs)
  | '!' :: '=' :: cs => some (.looseNe, cs)
  | '!' :: cs => some (.bang, cs)
  | '&' :: '&' :: cs => some (.and, cs)
  | '|' :: '|' :: cs => some (.or, cs)
  | _ => none

def startsWithDigit : List Char → Bool
  | c :: _ => c.isDigit
  | [] => false

/-- The token that starts with `c`. -/
def readToken (c : Char) (cs : List Char) : Read :=
  if isNameStart c then readName c cs
  else if c.isDigit || (c == '.' && startsWithDigit cs) then readNumber c cs
  else if c == '"' || c == '\'' then readText c [] cs
  else match readPunct (c :: cs) with
    | some (p, cs) => (.punct p, cs)
    | none => (.fault (if c == '&' || c == '|' then .unsupported c else .unexpected c), cs)

/-- What is left of a source text and the offset it starts at. -/
structure Reader where
  rest : List Char
  position : Nat

def Reader.ofSource (source : String) : Reader := ⟨source.toList, 0⟩

/-- The next token; at the end of the text always `eof`. -/
def Reader.next (r : Reader) : Lexeme × Reader :=
  match skip .between r.rest with
  | [] =>
    let stop := r.position + bytes r.rest
    (⟨.eof, ⟨stop, stop⟩⟩, ⟨[], stop⟩)
  | c :: cs =>
    let start := r.position + (bytes r.rest - bytes (c :: cs))
    let (token, rest) := readToken c cs
    let stop := start + (bytes (c :: cs) - bytes rest)
    (⟨token, ⟨start, stop⟩⟩, ⟨rest, stop⟩)

/-- The tokens before `eof`, at most `limit` of them, and the `eof`. -/
def Reader.lexemes : Nat → Reader → List Lexeme × Lexeme
  | 0, r => ([], (r.next).1)
  | limit + 1, r =>
    let (l, r') := r.next
    match l.token with
    | .eof => ([], l)
    | _ =>
      let (ls, last) := Reader.lexemes limit r'
      (l :: ls, last)

/-- All tokens before `eof`, and the `eof`: a token takes at least one character. -/
def lexemes (source : String) : List Lexeme × Lexeme :=
  Reader.lexemes source.length (Reader.ofSource source)

end Eventful.Expr
