/-
  Eventful.Text.Runs — sets of characters given as runs of code points.

  A run holds every `stride`-th code point from `first` to `last`. The tables of this
  folder are lists of runs in increasing order; `Runs.holds` is membership, and stops at
  the first run beyond the code point.
-/

namespace Eventful.Text

structure Run where
  first : Nat
  last : Nat
  stride : Nat
  deriving Repr, DecidableEq

def Run.holds (r : Run) (n : Nat) : Bool :=
  r.first ≤ n && n ≤ r.last && (n - r.first) % r.stride == 0

abbrev Runs := List Run

def Runs.holds : Runs → Char → Bool
  | [], _ => false
  | r :: rest, c => if c.toNat < r.first then false else r.holds c.toNat || Runs.holds rest c

end Eventful.Text
