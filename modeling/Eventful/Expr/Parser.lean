import Eventful.Number.Text
import Eventful.Expr.Lexer
import Eventful.Expr.Term

/-
  Eventful.Expr.Parser — from a source text to its program.

  Levels, loosest first: `,`  ·  `=` and `op=` (right)  ·  `? :`  ·  `||` `??`  ·  `&&`  ·
  equality  ·  comparison  ·  `+` `-`  ·  `*` `/` `%`  ·  unary and prefixed updates  ·
  postfixed updates  ·  members  ·  primaries. The two-operand levels group to the left.
  Statements end with `;`, the last one may go without.

  A cursor holds the lexemes that are left. The first lexeme that fits nowhere decides the
  error; where it is a lexical fault its own message is reported. The recursion is bounded
  by a depth that no text of the given length can use up.
-/

namespace Eventful.Expr

inductive ParseFault where
  | lexical (f : LexFault)
  | expected (p : Punct) (got : Token)
  | unexpected (got : Token)
  | assignmentTarget
  | updateTarget (before : Bool)
  | memberName
  | entryKey
  | tooDeep

def ParseFault.message : ParseFault → String
  | .lexical f => f.message
  | .expected p got => "Expected " ++ p.label ++ ", got " ++ got.label
  | .unexpected got => "Unexpected token " ++ got.label
  | .assignmentTarget => "Invalid left-hand side in assignment"
  | .updateTarget true => "Invalid left-hand side expression in prefix operation"
  | .updateTarget false => "Invalid left-hand side expression in postfix operation"
  | .memberName => "Expected property name after '.'"
  | .entryKey => "Expected property key"
  | .tooDeep => "Expression nested too deeply"

structure ParseError where
  fault : ParseFault
  span : Span

def ParseError.text (e : ParseError) : String :=
  e.fault.message ++ " at " ++ toString e.span.start ++ ".." ++ toString e.span.stop

/-- The lexemes that are left, the `eof` after them and the span of the last one taken. -/
structure Cursor where
  rest : List Lexeme
  eof : Lexeme
  last : Span

def Cursor.ofSource (source : String) : Cursor :=
  let (rest, eof) := lexemes source
  ⟨rest, eof, (rest.head?.getD eof).span⟩

def Cursor.current (c : Cursor) : Lexeme := c.rest.head?.getD c.eof

def Cursor.advance (c : Cursor) : Cursor := ⟨c.rest.tail, c.eof, c.current.span⟩

abbrev Parse := StateT Cursor (Except ParseError)

def peek : Parse Token := do return (← get).current.token

def here : Parse Span := do return (← get).current.span

/-- The span of the last lexeme taken. -/
def behind : Parse Span := do return (← get).last

def advance : Parse Unit := modify Cursor.advance

def failAt {α : Type} (fault : ParseFault) (span : Span) : Parse α := throw ⟨fault, span⟩

/-- Fails at the current lexeme; a lexical fault there goes first. -/
def fail {α : Type} (fault : ParseFault) : Parse α := do
  match ← peek with
  | .fault f => failAt (.lexical f) (← here)
  | _ => failAt fault (← here)

def isPunct (p : Punct) : Token → Bool
  | .punct q => p == q
  | _ => false

def expect (p : Punct) : Parse Unit := do
  let t ← peek
  if isPunct p t then advance else fail (.expected p t)

def assignOp? : Token → Option AssignOp
  | .punct .assign => some .plain
  | .punct .plusAssign => some .add
  | .punct .minusAssign => some .sub
  | .punct .starAssign => some .mul
  | .punct .slashAssign => some .div
  | _ => none

inductive TwoOperand where
  | binary (op : BinaryOp)
  | logical (op : LogicalOp)

/-- The operators between two operands by level, the tightest level being 1. -/
def operator? : Nat → Token → Option TwoOperand
  | 1, .punct .star => some (.binary .mul)
  | 1, .punct .slash => some (.binary .div)
  | 1, .punct .percent => some (.binary .mod)
  | 2, .punct .plus => some (.binary .add)
  | 2, .punct .minus => some (.binary .sub)
  | 3, .punct .less => some (.binary .less)
  | 3, .punct .lessEq => some (.binary .lessEq)
  | 3, .punct .greater => some (.binary .greater)
  | 3, .punct .greaterEq => some (.binary .greaterEq)
  | 4, .punct .looseEq => some (.binary .looseEq)
  | 4, .punct .looseNe => some (.binary .looseNe)
  | 4, .punct .strictEq => some (.binary .strictEq)
  | 4, .punct .strictNe => some (.binary .strictNe)
  | 5, .punct .and => some (.logical .and)
  | 6, .punct .or => some (.logical .or)
  | 6, .punct .nullish => some (.logical .nullish)
  | _, _ => none

/-- The loosest level of two-operand operators. -/
def loosest : Nat := 6

def TwoOperand.node (o : TwoOperand) (left right : Term Span) : Term Span :=
  let span := left.mark.merge right.mark
  match o with
  | .binary op => .binary span op left right
  | .logical op => .logical span op left right

def unaryOp? : Token → Option UnaryOp
  | .punct .bang => some .not
  | .punct .minus => some .minus
  | .punct .plus => some .plus
  | .typeof => some .typeof
  | _ => none

def updateOp? : Token → Option UpdateOp
  | .punct .plusPlus => some .increment
  | .punct .minusMinus => some .decrement
  | _ => none

/-- The name that a token spells after a point: keywords are names there. -/
def memberName? : Token → Option String
  | .name s => some s
  | .boolean b => some (boolText b)
  | .null => some "null"
  | .undefined => some "undefined"
  | .typeof => some "typeof"
  | _ => none

/-- The key that a token spells in an object. -/
def entryKey? : Token → Option String
  | .name s => some s
  | .text s => some s
  | .number x => some (Number.text x)
  | _ => none

def leaf? (span : Span) : Token → Option (Term Span)
  | .number x => some (.literal span (.number x))
  | .text s => some (.literal span (.text s))
  | .boolean b => some (.literal span (.boolean b))
  | .null => some (.literal span .null)
  | .undefined => some (.literal span .undefined)
  | .name s => some (.name span s)
  | _ => none

mutual

/-- Expressions separated by commas. -/
def sequence : Nat → Parse (Term Span)
  | 0 => fail .tooDeep
  | depth + 1 => do
    let first ← assignment depth
    if isPunct .comma (← peek) then
      let rest ← sequenceRest depth
      return .sequence (first.mark.merge (← behind)) (first :: rest)
    else return first

def sequenceRest : Nat → Parse (List (Term Span))
  | 0 => fail .tooDeep
  | depth + 1 => do
    if isPunct .comma (← peek) then
      advance
      let e ← assignment depth
      return e :: (← sequenceRest depth)
    else return []

def assignment : Nat → Parse (Term Span)
  | 0 => fail .tooDeep
  | depth + 1 => do
    let target ← conditional depth
    match assignOp? (← peek) with
    | none => return target
    | some op =>
      if target.isTarget then
        advance
        let value ← assignment depth
        return .assign (target.mark.merge value.mark) op target value
      else fail .assignmentTarget

def conditional : Nat → Parse (Term Span)
  | 0 => fail .tooDeep
  | depth + 1 => do
    let test ← operand depth loosest
    if isPunct .question (← peek) then
      advance
      let yes ← assignment depth
      expect .colon
      let no ← assignment depth
      return .conditional (test.mark.merge no.mark) test yes no
    else return test

/-- An operand of the operators looser than `level`. -/
def operand : Nat → Nat → Parse (Term Span)
  | 0, _ => fail .tooDeep
  | depth + 1, 0 => unary depth
  | depth + 1, level + 1 => do
    let left ← operand depth level
    operandRest depth (level + 1) left

/-- Further operators of `level` after `left`. -/
def operandRest : Nat → Nat → Term Span → Parse (Term Span)
  | 0, _, _ => fail .tooDeep
  | depth + 1, level, left => do
    match operator? level (← peek) with
    | none => return left
    | some op =>
      advance
      let right ← operand depth (level - 1)
      operandRest depth level (op.node left right)

def unary : Nat → Parse (Term Span)
  | 0 => fail .tooDeep
  | depth + 1 => do
    let start ← here
    let token ← peek
    match updateOp? token with
    | some op =>
      advance
      let target ← unary depth
      if target.isTarget then return .update (start.merge target.mark) op true target
      else failAt (.updateTarget true) target.mark
    | none =>
      match unaryOp? token with
      | some op =>
        advance
        let arg ← unary depth
        return .unary (start.merge arg.mark) op arg
      | none => postfixed depth

def postfixed : Nat → Parse (Term Span)
  | 0 => fail .tooDeep
  | depth + 1 => do
    let target ← primary depth
    let target ← members depth target
    match updateOp? (← peek) with
    | none => return target
    | some op =>
      if target.isTarget then
        advance
        return .update (target.mark.merge (← behind)) op false target
      else fail (.updateTarget false)

/-- The members taken of `object`. -/
def members : Nat → Term Span → Parse (Term Span)
  | 0, _ => fail .tooDeep
  | depth + 1, object => do
    let token ← peek
    if isPunct .dot token then
      advance
      match memberName? (← peek) with
      | some key =>
        advance
        members depth (.member (object.mark.merge (← behind)) object key)
      | none => fail .memberName
    else if isPunct .openBracket token then
      advance
      let key ← sequence depth
      expect .closeBracket
      members depth (.index (object.mark.merge (← behind)) object key)
    else return object

def primary : Nat → Parse (Term Span)
  | 0 => fail .tooDeep
  | depth + 1 => do
    let span ← here
    let token ← peek
    match leaf? span token with
    | some e =>
      advance
      return e
    | none =>
      if isPunct .openParen token then
        advance
        let e ← sequence depth
        expect .closeParen
        return e
      else if isPunct .openBrace token then
        advance
        let entries ← entries depth
        expect .closeBrace
        return .object (span.merge (← behind)) entries
      else fail (.unexpected token)

/-- The entries of an object up to its closing brace; `key` alone is `key: key`. -/
def entries : Nat → Parse (List (String × Term Span))
  | 0 => fail .tooDeep
  | depth + 1 => do
    let token ← peek
    if isPunct .closeBrace token then return []
    else
      match entryKey? token with
      | none => fail .entryKey
      | some key =>
        let span ← here
        advance
        let value ← entryValue depth key span
        if isPunct .comma (← peek) then
          advance
          return (key, value) :: (← entries depth)
        else return [(key, value)]

def entryValue : Nat → String → Span → Parse (Term Span)
  | 0, _, _ => fail .tooDeep
  | depth + 1, key, span => do
    if isPunct .colon (← peek) then
      advance
      assignment depth
    else return .name span key

end

def statement (depth : Nat) : Parse (Statement Span) := do
  let start ← here
  if isPunct .semicolon (← peek) then
    advance
    return .empty start
  else
    let e ← sequence depth
    match ← peek with
    | .punct .semicolon => advance
    | .eof => pure ()
    | t => fail (.unexpected t)
    return .expression (start.merge (← behind)) e

/-- The statements up to `eof`; each takes a lexeme, so there are at most `limit`. -/
def statements (depth : Nat) : Nat → Parse (List (Statement Span))
  | 0 => do
    match ← peek with
    | .eof => return []
    | _ => fail .tooDeep
  | limit + 1 => do
    match ← peek with
    | .eof => return []
    | _ =>
      let s ← statement depth
      return s :: (← statements depth limit)

def program (depth limit : Nat) : Parse (Program Span) := do
  let start ← here
  let body ← statements depth limit
  return ⟨start.merge (← behind), body⟩

/-- Nesting costs at most this much depth per lexeme. -/
def depthPerLexeme : Nat := 16

def parse (source : String) : Except ParseError (Program Span) :=
  let cursor := Cursor.ofSource source
  let count := cursor.rest.length
  ((program (depthPerLexeme * (count + 1)) count).run cursor).map (·.1)

end Eventful.Expr
