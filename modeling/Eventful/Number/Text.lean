import Eventful.Number.Decimal

/-
  Eventful.Number.Text — the text of a number as expressions see it.

  A whole number below `1e21` is written as an integer, clamped to 64 bits; any other
  number positionally with the fewest digits that read back.
-/

namespace Eventful.Number

def clampToWord (n : Int) : Int := max Int64.minValue.toInt (min Int64.maxValue.toInt n)

def text (x : Float) : String :=
  match split x with
  | .nan => "NaN"
  | .infinite negative => if negative then "-Infinity" else "Infinity"
  | .finite .. =>
    match toInt? x with
    | some n => if n.natAbs < Nat.pow 10 21 then toString (clampToWord n) else Layout.plain.text x
    | none => Layout.plain.text x

end Eventful.Number
