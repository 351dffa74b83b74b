import Eventful.Text.Printable

/-
  Eventful.Text.Quoted — a text between double quotes, as messages show it.

  A quote, a backslash, NUL, tab, newline and carriage return take a backslash; any other
  character that is not printable is written as its code point in hex.
-/

namespace Eventful.Text

def hex (n : Nat) : List Char := Nat.toDigits 16 n

def escape (c : Char) : List Char :=
  match c with
  | '"' => ['\\', '"']
  | '\\' => ['\\', '\\']
  | '\n' => ['\\', 'n']
  | '\r' => ['\\', 'r']
  | '\t' => ['\\', 't']
  | '\x00' => ['\\', '0']
  | c => if isPrintable c then [c] else '\\' :: 'u' :: '\x7b' :: (hex c.toNat ++ ['\x7d'])

def quote (s : String) : String := String.ofList ('"' :: (s.toList.flatMap escape ++ ['"']))

end Eventful.Text
