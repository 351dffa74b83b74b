/-
  Eventful.Expr.Span — a piece of a source text, from one byte offset to another.
-/

namespace Eventful

structure Span where
  start : Nat
  stop : Nat
  deriving Repr, DecidableEq

namespace Span

def size (s : Span) : Nat := s.stop - s.start

def isEmpty (s : Span) : Bool := s.start == s.stop

/-- The smallest span that covers both. -/
def merge (a b : Span) : Span := ⟨min a.start b.start, max a.stop b.stop⟩

end Span
end Eventful
