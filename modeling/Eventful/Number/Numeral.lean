import Eventful.Number.Binary

/-
  Eventful.Number.Numeral — the value of a numeral written in decimal.

  A numeral is an optional sign before digits with at most one point and at least one
  digit around it, then an optional exponent; or `inf`, `infinity`, `nan` in any case.
  Its value is the double nearest to the exact decimal.
-/

namespace Eventful.Number

def digitValue (c : Char) : Nat := c.toNat - '0'.toNat

def natOfDigits (digits : List Char) : Nat := digits.foldl (fun n c => n * 10 + digitValue c) 0

/-- The double nearest to `± digits · 10^exp`. Past 400 places the answer is zero or
    infinity whatever the digits. -/
def ofDecimal (negative : Bool) (digits : List Char) (exp : Int) : Float :=
  let digits := digits.dropWhile (· == '0')
  let place : Int := exp + digits.length
  if digits.isEmpty || place < -400 then ofBits negative 0
  else if place > 400 then infinity negative
  else match exp with
    | .ofNat e => ofRatio negative (natOfDigits digits * Nat.pow 10 e) 1
    | .negSucc e => ofRatio negative (natOfDigits digits) (Nat.pow 10 (e + 1))

/-- The exponent part: nothing, or `e`, an optional sign and digits to the end. -/
def exponent? : List Char → Option Int
  | [] => some 0
  | c :: rest =>
    if c != 'e' && c != 'E' then none
    else
      let (negative, digits) := match rest with
        | '-' :: r => (true, r)
        | '+' :: r => (false, r)
        | r => (false, r)
      if digits.isEmpty || !digits.all Char.isDigit then none
      else
        let n := Int.ofNat (natOfDigits digits)
        some (if negative then -n else n)

def unsigned? (negative : Bool) (cs : List Char) : Option Float :=
  let word := String.ofList (cs.map Char.toLower)
  if word == "inf" || word == "infinity" then some (infinity negative)
  else if word == "nan" then some nan
  else
    let whole := cs.takeWhile Char.isDigit
    let (fraction, rest) := match cs.dropWhile Char.isDigit with
      | '.' :: r => (r.takeWhile Char.isDigit, r.dropWhile Char.isDigit)
      | r => ([], r)
    if whole.isEmpty && fraction.isEmpty then none
    else (exponent? rest).map fun e => ofDecimal negative (whole ++ fraction) (e - fraction.length)

/-- The value of the numeral, if it is one. -/
def ofNumeral? : List Char → Option Float
  | '-' :: cs => unsigned? true cs
  | '+' :: cs => unsigned? false cs
  | cs => unsigned? false cs

end Eventful.Number
