import Eventful.Page.Tree

/-
  Eventful.Directive.Error — why a directive does not bind.
-/

namespace Eventful.Directive

open Page

inductive Error where
  | notADirective (attr : String)
  | noEventName (attr : String)
  | missingTarget (target event : String)
  | conflictingTargets (attr : String)
  | unknownModifier (modifier attr : String)
  | unknownElement (n : NodeId)
  deriving Repr, DecidableEq

def Error.message : Error → String
  | .notADirective attr => "Attribute '" ++ attr ++ "' is not an event directive"
  | .noEventName attr => "Directive '" ++ attr ++ "' has no event name"
  | .missingTarget target event => "No " ++ target ++ " is available to listen on for '" ++ event ++ "'"
  | .conflictingTargets attr => "Directive '" ++ attr ++ "' uses both .window and .document"
  | .unknownModifier modifier attr => "Unknown modifier '" ++ modifier ++ "' in '" ++ attr ++ "'"
  | .unknownElement n => "Unknown element: " ++ NodeId.label n

end Eventful.Directive
