import Eventful.Number.Binary

/-
  Eventful.Number.Decimal — the fewest decimal digits that read back, and their layouts.

  A positive double owns the interval of reals that round to it (the ends included when
  its mantissa is even). `shortest` looks at the decimal grids with 1, 2, … 17 digits and
  takes the first grid that has a point in the interval; of two such points the nearer,
  and the upper one of an exact tie. A `Layout` says how the digits become text.
-/

namespace Eventful.Number

/-- The number `0.d₁d₂…dₙ · 10^point` with `d₁ ≠ 0` and no trailing zero. -/
structure Decimal where
  digits : List Char
  point : Int
  deriving Repr, DecidableEq

/-- A power as a quotient of naturals. -/
def power (base : Nat) : Int → Nat × Nat
  | .ofNat e => (base.pow e, 1)
  | .negSucc e => (1, base.pow (e + 1))

/-- The exponent of the leading digit of `num / den`. -/
def leading (num den : Nat) : Int :=
  let reaches (k : Int) : Bool :=
    let (a, b) := power 10 k
    a * den ≤ num * b
  -- A binary digit is worth 0.30103 decimal ones.
  let guess := (Int.ofNat num.log2 - Int.ofNat den.log2) * 30103 / 100000
  if reaches (guess + 1) then guess + 1 else if reaches guess then guess else guess - 1

/-- The lower end of the interval of `mant · 2^exp`, in quarters of the mantissa's last
    place; below a power of two the neighbour is half as far. -/
def lowerQuarters (mant : Nat) (exp : Int) : Nat :=
  if mant == 1 <<< 52 && exp > -1074 then 4 * mant - 1 else 4 * mant - 2

/-- The multiple of `10^k` that lies in the interval of `mant · 2^exp`, if one does. -/
def gridPoint? (mant : Nat) (exp k : Int) : Option Nat :=
  let (twoNum, twoDen) := power 2 (exp - 2)
  let (tenNum, tenDen) := power 10 k
  -- A quarter of the last place is `quarter / step` multiples of `10^k`.
  let quarter := twoNum * tenDen
  let step := twoDen * tenNum
  let low := lowerQuarters mant exp * quarter
  let value := 4 * mant * quarter
  let high := (4 * mant + 2) * quarter
  let inside (d : Nat) : Bool :=
    if mant % 2 == 0 then low ≤ d * step && d * step ≤ high else low < d * step && d * step < high
  let down := value / step
  match inside down, inside (down + 1) with
  | true, true => some (if 2 * (value % step) < step then down else down + 1)
  | true, false => some down
  | false, true => some (down + 1)
  | false, false => none

def natDigits (n : Nat) : List Char := Nat.toDigits 10 n

def dropTrailingZeros (digits : List Char) : List Char :=
  (digits.reverse.dropWhile (· == '0')).reverse

/-- The fewest digits that read back as `mant · 2^exp`, for `mant > 0`. -/
def shortest (mant : Nat) (exp : Int) : Decimal :=
  let (num, den) := power 2 exp
  let top := leading (mant * num) den
  let found := (List.range 17).findSome? fun (i : Nat) =>
    (gridPoint? mant exp (top - i)).map fun d => (d, top - Int.ofNat i)
  let (d, k) := found.getD (mant * num / den, 0)
  let digits := natDigits d
  ⟨dropTrailingZeros digits, k + digits.length⟩

/-- How digits become text. -/
structure Layout where
  /-- Positional notation is kept while the point stands in this range. -/
  positional : Option (Int × Int)
  /-- A whole number shows its point. -/
  keepsPoint : Bool

/-- The bare number: always positional, a whole number without a point. -/
def Layout.plain : Layout := ⟨none, false⟩

/-- The number as messages quote it: `1.0`, an exponent below `1e-4` and from `1e16` on. -/
def Layout.quoted : Layout := ⟨some (-3, 16), true⟩

def zeros (n : Nat) : List Char := List.replicate n '0'

def Layout.digitsText (l : Layout) (d : Decimal) : List Char :=
  let positional := match l.positional with
    | none => true
    | some (lo, hi) => lo ≤ d.point && d.point ≤ hi
  if positional then
    if d.point ≤ 0 then '0' :: '.' :: zeros (-d.point).toNat ++ d.digits
    else
      let whole := d.digits.take d.point.toNat
      let rest := d.digits.drop d.point.toNat
      let fraction := if rest.isEmpty then (if l.keepsPoint then ['.', '0'] else []) else '.' :: rest
      whole ++ zeros (d.point.toNat - whole.length) ++ fraction
  else
    let mantissa := match d.digits with
      | [] => []
      | c :: [] => [c]
      | c :: rest => c :: '.' :: rest
    mantissa ++ 'e' :: (toString (d.point - 1)).toList

def Layout.text (l : Layout) (x : Float) : String :=
  match split x with
  | .nan => "NaN"
  | .infinite negative => if negative then "-inf" else "inf"
  | .finite negative m e =>
    let body := if m == 0 then (if l.keepsPoint then ['0', '.', '0'] else ['0']) else l.digitsText (shortest m e)
    String.ofList (if negative then '-' :: body else body)

end Eventful.Number
