import Eventful.Text.Runs

/-
  Eventful.Text.Blank — blanks: the code points with the Unicode property White_Space,
  trimming them off a text and splitting a text at them.
-/

namespace Eventful.Text

/-- The code points with the property White_Space. -/
def blanks : Runs :=
  [⟨0x9, 0xd, 1⟩, ⟨0x20, 0x20, 1⟩, ⟨0x85, 0x85, 1⟩, ⟨0xa0, 0xa0, 1⟩, ⟨0x1680, 0x1680, 1⟩,
   ⟨0x2000, 0x200a, 1⟩, ⟨0x2028, 0x2029, 1⟩, ⟨0x202f, 0x202f, 1⟩, ⟨0x205f, 0x205f, 1⟩,
   ⟨0x3000, 0x3000, 1⟩]

def isBlank (c : Char) : Bool := blanks.holds c

def trim (cs : List Char) : List Char :=
  ((cs.dropWhile isBlank).reverse.dropWhile isBlank).reverse

/-- The text holds nothing but blanks. -/
def isBlankText (s : String) : Bool := s.toList.all isBlank

/-- The maximal pieces without a blank, in order; `word` is the piece being read. -/
def splitBlanks (word : List Char) : List Char → List String
  | [] => if word.isEmpty then [] else [String.ofList word.reverse]
  | c :: cs =>
    if isBlank c then
      if word.isEmpty then splitBlanks [] cs else String.ofList word.reverse :: splitBlanks [] cs
    else splitBlanks (c :: word) cs

def words (s : String) : List String := splitBlanks [] s.toList

end Eventful.Text
