import Eventful.Number.Numeral
import Eventful.Number.Text
import Eventful.Text.Blank

/-
  Eventful.Value.Basic — the values of expressions.

  Plain data: undefined, null, booleans, doubles, texts and objects. An object is a list
  of fields in increasing order of their keys, each key once; `put` keeps that order.
  Three equalities: `same` (field by field, a NaN differs from itself), `strictEq` (objects
  are never equal) and `looseEq` (null and undefined are equal, other kinds compare as
  numbers).
-/

namespace Eventful

inductive Value where
  | undefined
  | null
  | boolean (b : Bool)
  | number (x : Float)
  | text (s : String)
  | object (fields : List (String × Value))

instance : Inhabited Value := ⟨.undefined⟩

abbrev Fields := List (String × Value)

namespace Fields

def get? (key : String) : Fields → Option Value
  | [] => none
  | (k, v) :: rest => if k == key then some v else get? key rest

/-- Sets the field `key`, in its place. -/
def put (key : String) (value : Value) : Fields → Fields
  | [] => [(key, value)]
  | (k, v) :: rest =>
    if k == key then (key, value) :: rest
    else if key < k then (key, value) :: (k, v) :: rest
    else (k, v) :: put key value rest

/-- The fields written one after the other, a later one over an earlier one. -/
def ofList (pairs : List (String × Value)) : Fields := pairs.foldl (fun fs p => put p.1 p.2 fs) []

def keys (fs : Fields) : List String := fs.map (·.1)

end Fields

namespace Value

def ofPairs (pairs : List (String × Value)) : Value := .object (Fields.ofList pairs)

def empty : Value := .object []

def isUndefined : Value → Bool
  | .undefined => true
  | _ => false

def isNullish : Value → Bool
  | .undefined | .null => true
  | _ => false

def fields? : Value → Option Fields
  | .object fs => some fs
  | _ => none

/-- The property `key`: a field of an object, the `length` of a text in characters. -/
def get (key : String) : Value → Value
  | .object fs => (Fields.get? key fs).getD .undefined
  | .text s => if key == "length" then .number (Float.ofNat s.length) else .undefined
  | _ => .undefined

def isTruthy : Value → Bool
  | .undefined | .null => false
  | .boolean b => b
  | .number x => x != 0 && x == x
  | .text s => s != ""
  | .object _ => true

/-- The number a text stands for: blank is zero, no numeral is NaN. -/
def numberOfText (s : String) : Float :=
  match Text.trim s.toList with
  | [] => Number.ofBits false 0
  | cs => (Number.ofNumeral? cs).getD Number.nan

def toNumber : Value → Float
  | .undefined | .object _ => Number.nan
  | .null => Number.ofBits false 0
  | .boolean b => if b then 1 else Number.ofBits false 0
  | .number x => x
  | .text s => numberOfText s

def toText : Value → String
  | .undefined => "undefined"
  | .null => "null"
  | .boolean b => if b then "true" else "false"
  | .number x => Number.text x
  | .text s => s
  | .object _ => "[object Object]"

def typeName : Value → String
  | .undefined => "undefined"
  | .null | .object _ => "object"
  | .boolean _ => "boolean"
  | .number _ => "number"
  | .text _ => "string"

mutual

/-- Equal field by field; a NaN differs from itself, `0` and `-0` are equal. -/
def same : Value → Value → Bool
  | .undefined, .undefined => true
  | .null, .null => true
  | .boolean a, .boolean b => a == b
  | .number a, .number b => a == b
  | .text a, .text b => a == b
  | .object a, .object b => sameFields a b
  | _, _ => false

def sameFields : List (String × Value) → List (String × Value) → Bool
  | [], [] => true
  | (k, v) :: r, (k', v') :: r' => k == k' && same v v' && sameFields r r'
  | _, _ => false

end

def strictEq : Value → Value → Bool
  | .object _, .object _ => false
  | a, b => same a b

def looseEq (a b : Value) : Bool :=
  if a.isNullish || b.isNullish then a.isNullish && b.isNullish
  else match a, b with
    | .object _, _ => false
    | _, .object _ => false
    | .text s, .text t => s == t
    | .boolean p, .boolean q => p == q
    | a, b => a.toNumber == b.toNumber

end Value
end Eventful
