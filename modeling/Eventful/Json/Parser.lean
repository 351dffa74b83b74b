import Eventful.Json.Basic

/-
  Eventful.Json.Parser — reading a JSON document.

  The grammar is the standard's: the four blanks, no leading zeros, no raw control
  characters in strings, nothing after the document.
-/

namespace Eventful.Json

def isBlank (c : Char) : Bool := c == ' ' || c == '\t' || c == '\n' || c == '\r'

def skipBlanks (cs : List Char) : List Char := cs.dropWhile isBlank

/-- A part of a document and what follows it. -/
abbrev Read (α : Type) := Option (α × List Char)

def hexDigit? (c : Char) : Option Nat :=
  if c.isDigit then some (c.toNat - '0'.toNat)
  else if 'a' ≤ c && c ≤ 'f' then some (c.toNat - 'a'.toNat + 10)
  else if 'A' ≤ c && c ≤ 'F' then some (c.toNat - 'A'.toNat + 10)
  else none

def unit? (a b c d : Char) : Option Nat := do
  return (((← hexDigit? a) * 16 + (← hexDigit? b)) * 16 + (← hexDigit? c)) * 16 + (← hexDigit? d)

def escaped? : Char → Option Char
  | '"' => some '"'
  | '\\' => some '\\'
  | '/' => some '/'
  | 'b' => some '\x08'
  | 'f' => some '\x0c'
  | 'n' => some '\n'
  | 'r' => some '\r'
  | 't' => some '\t'
  | _ => none

/-- A unit of UTF-16 that is a character, starts a pair or ends one. -/
inductive Unit16 where
  | whole (c : Char)
  | high (n : Nat)
  | low (n : Nat)

def Unit16.ofNat (n : Nat) : Unit16 :=
  if 0xD800 ≤ n && n < 0xDC00 then .high (n - 0xD800)
  else if 0xDC00 ≤ n && n < 0xE000 then .low (n - 0xDC00)
  else .whole (Char.ofNat n)

/-- The characters of a string up to its quote. `read` is what came before, last first;
    `none` once half a pair was met. `high` is a pair's first half waiting for the second. -/
def stringRest (read : Option (List Char)) (high : Option Nat) : List Char → Read (Option String)
  | [] => none
  | '"' :: cs =>
    let read := if high.isSome then none else read
    some (read.map fun r => String.ofList r.reverse, cs)
  | '\\' :: 'u' :: a :: b :: c :: d :: cs =>
    match unit? a b c d with
    | none => none
    | some n =>
      match Unit16.ofNat n, high with
      | .low l, some h => stringRest (read.map (Char.ofNat (0x10000 + h * 0x400 + l) :: ·)) none cs
      | .high h, none => stringRest read (some h) cs
      | .whole ch, none => stringRest (read.map (ch :: ·)) none cs
      | _, _ => stringRest none none cs
  | '\\' :: c :: cs =>
    match escaped? c with
    | none => none
    | some ch => stringRest (if high.isSome then none else read.map (ch :: ·)) none cs
  | c :: cs =>
    if c.toNat < 0x20 || c == '\\' then none
    else stringRest (if high.isSome then none else read.map (c :: ·)) none cs

def digits (cs : List Char) : List Char × List Char := (cs.takeWhile Char.isDigit, cs.dropWhile Char.isDigit)

/-- The whole part of a numeral: `0` or digits that do not start with it. -/
def wholePart (cs : List Char) : Read (List Char) :=
  let (ds, rest) := digits cs
  match ds with
  | [] => none
  | ['0'] => some (ds, rest)
  | d :: _ => if d == '0' then none else some (ds, rest)

def fractionPart : List Char → Read (List Char)
  | '.' :: cs =>
    let (ds, rest) := digits cs
    if ds.isEmpty then none else some ('.' :: ds, rest)
  | cs => some ([], cs)

def exponentPart : List Char → Read (List Char)
  | [] => some ([], [])
  | e :: cs =>
    if e == 'e' || e == 'E' then
      let (sign, cs) := match cs with
        | '+' :: r => (['+'], r)
        | '-' :: r => (['-'], r)
        | r => ([], r)
      let (ds, rest) := digits cs
      if ds.isEmpty then none else some (e :: sign ++ ds, rest)
    else some ([], e :: cs)

def readNumeral (cs : List Char) : Read Json :=
  let (sign, cs) := match cs with
    | '-' :: r => (['-'], r)
    | r => ([], r)
  match wholePart cs with
  | none => none
  | some (whole, cs) =>
    match fractionPart cs with
    | none => none
    | some (fraction, cs) =>
      (exponentPart cs).map fun (exponent, cs) =>
        (.numeral (String.ofList (sign ++ whole ++ fraction ++ exponent)), cs)

mutual

/-- A document part; every part takes a character, so `fuel` bounds the nesting. -/
def value : Nat → List Char → Read Json
  | 0, _ => none
  | fuel + 1, cs =>
    match skipBlanks cs with
    | 'n' :: 'u' :: 'l' :: 'l' :: r => some (.null, r)
    | 't' :: 'r' :: 'u' :: 'e' :: r => some (.boolean true, r)
    | 'f' :: 'a' :: 'l' :: 's' :: 'e' :: r => some (.boolean false, r)
    | '"' :: r => (stringRest (some []) none r).map fun (s, r) => (s.elim .broken .text, r)
    | '[' :: r =>
      match skipBlanks r with
      | ']' :: r => some (.array [], r)
      | _ => (items fuel r).map fun (xs, r) => (.array xs, r)
    | '\x7b' :: r =>
      match skipBlanks r with
      | '\x7d' :: r => some (.object [], r)
      | _ => (members fuel r).map fun (ms, r) => (ms.elim .broken .object, r)
    | cs => readNumeral cs

def items : Nat → List Char → Read (List Json)
  | 0, _ => none
  | fuel + 1, cs =>
    match value fuel cs with
    | none => none
    | some (x, r) =>
      match skipBlanks r with
      | ',' :: r => (items fuel r).map fun (xs, r) => (x :: xs, r)
      | ']' :: r => some ([x], r)
      | _ => none

/-- The members of an object; `none` for them if a name is no text. -/
def members : Nat → List Char → Read (Option (List (String × Json)))
  | 0, _ => none
  | fuel + 1, cs =>
    match skipBlanks cs with
    | '"' :: r =>
      match stringRest (some []) none r with
      | none => none
      | some (name, r) =>
        match skipBlanks r with
        | ':' :: r =>
          match value fuel r with
          | none => none
          | some (x, r) =>
            let first := name.map fun n => (n, x)
            match skipBlanks r with
            | ',' :: r => (members fuel r).map fun (ms, r) => (first.bind fun m => ms.map (m :: ·), r)
            | '\x7d' :: r => some (first.map ([·]), r)
            | _ => none
        | _ => none
    | _ => none

end

/-- The document that a whole text writes. -/
def parse? (text : String) : Option Json :=
  match value (2 * text.length + 2) text.toList with
  | some (x, r) => if (skipBlanks r).isEmpty then some x else none
  | none => none

end Eventful.Json
