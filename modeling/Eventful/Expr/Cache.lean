import Eventful.Expr.Eval

/-
  Eventful.Expr.Cache — source texts already parsed.

  A cache holds each source that parsed once; a source that does not parse is read again
  every time. `evaluate` gives the dialogue of a source and the cache afterwards.
-/

namespace Eventful.Expr

structure Cache where
  programs : List (String × Program Span)

namespace Cache

def empty : Cache := ⟨[]⟩

def get? (c : Cache) (source : String) : Option (Program Span) :=
  (c.programs.find? (·.1 == source)).map (·.2)

def size (c : Cache) : Nat := c.programs.length

/-- The program of a source, from the cache if it is there. -/
def compile (c : Cache) (source : String) : Except Fault (Program Span) × Cache :=
  match c.get? source with
  | some p => (.ok p, c)
  | none =>
    match parse source with
    | .ok p => (.ok p, ⟨c.programs ++ [(source, p)]⟩)
    | .error e => (.error (.malformed e), c)

def evaluate (c : Cache) (source : String) (locals : Locals) : Dialogue Outcome × Cache :=
  match c.compile source with
  | (.ok p, c) => (p.eval locals, c)
  | (.error f, c) => (.done (.error f), c)

end Cache
end Eventful.Expr
