import Eventful.Number.Decimal
import Eventful.Text.Quoted
import Eventful.Expr.Span

/-
  Eventful.Expr.Token — the tokens of the expression language and how messages show them.
-/

namespace Eventful.Expr

/-- Punctuators and operators. -/
inductive Punct where
  | openBrace | closeBrace | openParen | closeParen | openBracket | closeBracket
  | dot | semicolon | comma | question | colon
  | plus | minus | star | slash | percent | plusPlus | minusMinus | bang
  | less | greater | lessEq | greaterEq | looseEq | looseNe | strictEq | strictNe
  | and | or | nullish
  | assign | plusAssign | minusAssign | starAssign | slashAssign
  deriving Repr, DecidableEq

/-- The spelling in a source text. -/
def Punct.text : Punct → String
  | .openBrace => "\x7b" | .closeBrace => "\x7d" | .openParen => "(" | .closeParen => ")"
  | .openBracket => "[" | .closeBracket => "]" | .dot => "." | .semicolon => ";"
  | .comma => "," | .question => "?" | .colon => ":" | .plus => "+" | .minus => "-"
  | .star => "*" | .slash => "/" | .percent => "%" | .plusPlus => "++" | .minusMinus => "--"
  | .bang => "!" | .less => "<" | .greater => ">" | .lessEq => "<=" | .greaterEq => ">="
  | .looseEq => "==" | .looseNe => "!=" | .strictEq => "===" | .strictNe => "!=="
  | .and => "&&" | .or => "||" | .nullish => "??" | .assign => "=" | .plusAssign => "+="
  | .minusAssign => "-=" | .starAssign => "*=" | .slashAssign => "/="

/-- The name in a message. -/
def Punct.label : Punct → String
  | .openBrace => "LBrace" | .closeBrace => "RBrace" | .openParen => "LParen"
  | .closeParen => "RParen" | .openBracket => "LBracket" | .closeBracket => "RBracket"
  | .dot => "Dot" | .semicolon => "Semicolon" | .comma => "Comma" | .question => "Question"
  | .colon => "Colon" | .plus => "Plus" | .minus => "Minus" | .star => "Star"
  | .slash => "Slash" | .percent => "Percent" | .plusPlus => "PlusPlus"
  | .minusMinus => "MinusMinus" | .bang => "Bang" | .less => "Lt" | .greater => "Gt"
  | .lessEq => "LtEq" | .greaterEq => "GtEq" | .looseEq => "EqEq" | .looseNe => "NotEq"
  | .strictEq => "EqEqEq" | .strictNe => "NotEqEq" | .and => "AmpAmp" | .or => "PipePipe"
  | .nullish => "QuestionQuestion" | .assign => "Eq" | .plusAssign => "PlusEq"
  | .minusAssign => "MinusEq" | .starAssign => "StarEq" | .slashAssign => "SlashEq"

/-- What the lexer could not read. -/
inductive LexFault where
  | unclosedText
  | badNumber (text : String)
  /-- A lone `&` or `|`. -/
  | unsupported (c : Char)
  | unexpected (c : Char)
  deriving Repr, DecidableEq

def LexFault.message : LexFault → String
  | .unclosedText => "unterminated string literal"
  | .badNumber text => "invalid number '" ++ text ++ "'"
  | .unsupported c => "unsupported operator '" ++ c.toString ++ "'"
  | .unexpected c => "unexpected character '" ++ c.toString ++ "'"

inductive Token where
  | number (x : Float)
  | text (s : String)
  | boolean (b : Bool)
  | null
  | undefined
  | name (s : String)
  | typeof
  | punct (p : Punct)
  | fault (f : LexFault)
  | eof

/-- The words that are not names. -/
def keyword? : String → Option Token
  | "true" => some (.boolean true)
  | "false" => some (.boolean false)
  | "null" => some .null
  | "undefined" => some .undefined
  | "typeof" => some .typeof
  | _ => none

def boolText (b : Bool) : String := if b then "true" else "false"

/-- The token in a message. -/
def Token.label : Token → String
  | .number x => "Number(" ++ Number.Layout.quoted.text x ++ ")"
  | .text s => "String(" ++ Text.quote s ++ ")"
  | .boolean b => "Boolean(" ++ boolText b ++ ")"
  | .null => "Null"
  | .undefined => "Undefined"
  | .name s => "Identifier(" ++ Text.quote s ++ ")"
  | .typeof => "Typeof"
  | .punct p => p.label
  | .fault f => "Error(" ++ Text.quote f.message ++ ")"
  | .eof => "Eof"

/-- A token and where it stands. -/
structure Lexeme where
  token : Token
  span : Span

end Eventful.Expr
