import Eventful.Demo

/-
  Eventful.Main — the demo on the command line: `eventful [config.json]`.
-/

namespace Eventful

def levelText : Demo.Level → String
  | .info => " INFO "
  | .warn => " WARN "

/-- The configuration in a file, the default one without a file. -/
def loadConfig : List String → IO (Except String Directive.Config)
  | [] => return .ok .default
  | path :: _ => do
    try
      let text ← IO.FS.readFile path
      match Directive.Config.ofText? text with
      | some c => return .ok c
      | none => return .error ("parsing " ++ path)
    catch _ => return .error ("reading " ++ path)

def runDemo (args : List String) : IO UInt32 := do
  match ← loadConfig args with
  | .error message =>
    IO.eprintln ("Error: " ++ message)
    return 1
  | .ok config =>
    let (lines, stop) := Demo.play config
    for l in lines do
      IO.println (levelText l.level ++ l.text)
    match stop with
    | none => return 0
    | some s =>
      IO.eprintln ("Error: " ++ s.message)
      return 1

end Eventful

def main (args : List String) : IO UInt32 := Eventful.runDemo args
