/-
  Eventful.Number.Binary — a double as sign, mantissa and binary exponent, and back.

  A finite double is `±mant · 2^exp` with `mant < 2^53` and `exp ≥ -1074`; `split` reads
  that off the bits and `ofRatio` goes the other way: the double nearest to a quotient of
  two naturals, a half going to the even mantissa. Everything that has to be exact (the
  digits of a number, the value of a numeral, a remainder) is done on these naturals.
-/

namespace Eventful.Number

/-- What the bits of a double say. -/
inductive Split where
  | nan
  | infinite (negative : Bool)
  /-- The value `± mant · 2^exp`. -/
  | finite (negative : Bool) (mant : Nat) (exp : Int)
  deriving Repr, DecidableEq

def split (x : Float) : Split :=
  let bits := x.toBits.toNat
  let negative := bits >>> 63 == 1
  let field := bits >>> 52 % 2048
  let frac := bits % 1 <<< 52
  if field == 2047 then if frac == 0 then .infinite negative else .nan
  else if field == 0 then .finite negative frac (-1074)
  else .finite negative (frac + 1 <<< 52) (Int.ofNat field - 1075)

/-- The quotient rounded to a natural, a half to the even neighbour. -/
def roundHalfEven (num den : Nat) : Nat :=
  let q := num / den
  let r := num % den
  if 2 * r < den then q
  else if 2 * r > den then q + 1
  else if q % 2 == 0 then q else q + 1

/-- `num / (den · 2^exp)`, rounded. -/
def scaled (num den : Nat) : Int → Nat
  | .ofNat e => roundHalfEven num (den <<< e)
  | .negSucc e => roundHalfEven (num <<< (e + 1)) den

/-- The exponent at which the mantissa of `num / den` has 53 bits, or the least one. -/
def exponentOf (num den : Nat) : Int :=
  let guess : Int := Int.ofNat num.log2 - Int.ofNat den.log2 - 53
  max (if scaled num den guess < 1 <<< 53 then guess else guess + 1) (-1074)

def ofBits (negative : Bool) (bits : Nat) : Float :=
  Float.ofBits (UInt64.ofNat (if negative then bits + 1 <<< 63 else bits))

def infinity (negative : Bool) : Float := ofBits negative (2047 <<< 52)

def nan : Float := ofBits false (4095 <<< 51)

/-- The double nearest to `± num / den`; past the largest one, infinity. A mantissa
    rounded up to the next power of two carries into the exponent field by itself. -/
def ofRatio (negative : Bool) (num den : Nat) : Float :=
  if num == 0 || den == 0 then ofBits negative 0
  else
    let e := exponentOf num den
    ofBits negative (min ((e + 1074).toNat <<< 52 + scaled num den e) (2047 <<< 52))

/-- `± mant · 2^exp` as a double; exact when it has one. -/
def ofScaled (negative : Bool) (mant : Nat) : Int → Float
  | .ofNat e => ofRatio negative (mant <<< e) 1
  | .negSucc e => ofRatio negative mant (1 <<< (e + 1))

/-- The remainder of the division truncated toward zero: exact, with the sign of `x`. -/
def remainder (x y : Float) : Float :=
  match split x, split y with
  | .finite negative m e, .finite _ m' e' =>
    if m' == 0 then nan
    else
      let low := min e e'
      ofScaled negative (m <<< (e - low).toNat % m' <<< (e' - low).toNat) low
  | .finite .., .infinite _ => x
  | _, _ => nan

/-- The integer a double equals, if it equals one. -/
def toInt? (x : Float) : Option Int :=
  match split x with
  | .finite negative m e =>
    let magnitude : Option Nat := match e with
      | .ofNat e => some (m <<< e)
      | .negSucc e => if m % 1 <<< (e + 1) == 0 then some (m >>> (e + 1)) else none
    magnitude.map fun n => if negative then -(Int.ofNat n) else Int.ofNat n
  | _ => none

end Eventful.Number
