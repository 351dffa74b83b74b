import Eventful.Text.Quoted
import Eventful.Value.Basic

/-
  Eventful.Value.Show — values as a reader sees them.

  `display` is the form of reports (`{ open: true, query: 'x' }`); `debug` names the kind
  of every value and quotes every text.
-/

namespace Eventful.Value

mutual

def display : Value → String
  | .text s => "'" ++ s ++ "'"
  | .object [] => "\x7b\x7d"
  | .object (f :: fs) => "\x7b" ++ displayFields (f :: fs) ++ " \x7d"
  | v => v.toText

/-- The fields with a blank before each and a comma between two. -/
def displayFields : List (String × Value) → String
  | [] => ""
  | (k, v) :: [] => " " ++ k ++ ": " ++ display v
  | (k, v) :: fs => " " ++ k ++ ": " ++ display v ++ "," ++ displayFields fs

end

mutual

def debug : Value → String
  | .undefined => "Undefined"
  | .null => "Null"
  | .boolean b => "Bool(" ++ (if b then "true" else "false") ++ ")"
  | .number x => "Number(" ++ Number.Layout.quoted.text x ++ ")"
  | .text s => "String(" ++ Text.quote s ++ ")"
  | .object fs => "Object(\x7b" ++ debugFields fs ++ "\x7d)"

def debugFields : List (String × Value) → String
  | [] => ""
  | (k, v) :: [] => Text.quote k ++ ": " ++ debug v
  | (k, v) :: fs => Text.quote k ++ ": " ++ debug v ++ ", " ++ debugFields fs

end

end Eventful.Value
