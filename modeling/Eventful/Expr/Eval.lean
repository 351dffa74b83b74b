import Eventful.Expr.Dialogue
import Eventful.Expr.Fault

/-
  Eventful.Expr.Eval — the value of an expression.

  Names mean a local first, then a top-level property of the scope. Locals are read-only.
  The target of an assignment or an update is a path: a name and the keys taken of it,
  computed keys from left to right; it is resolved before the right-hand side. A part that
  fails makes the whole fail, except that `typeof` of something unresolved is `undefined`.
-/

namespace Eventful.Expr

/-- Names bound for one evaluation. -/
abbrev Locals := List (String × Value)

def Locals.get? (name : String) : Locals → Option Value
  | [] => none
  | (n, v) :: rest => if n == name then some v else get? name rest

/-- Binds a name, again in its old place if it was bound. -/
def Locals.bind (name : String) (value : Value) : Locals → Locals
  | [] => [(name, value)]
  | (n, v) :: rest => if n == name then (n, value) :: rest else (n, v) :: bind name value rest

def Locals.ofList (pairs : List (String × Value)) : Locals :=
  pairs.foldl (fun ls p => ls.bind p.1 p.2) []

abbrev Eval := ExceptT Fault Dialogue

def ask (name : String) : Eval (Option Value) := ExceptT.lift (.ask name .done)

def tell (path : List String) (value : Value) : Eval Unit :=
  ExceptT.mk (.tell path value fun r => .done (r.mapError .blocked))

def lookup (locals : Locals) (name : String) : Eval Value :=
  match locals.get? name with
  | some v => return v
  | none => do
    match ← ask name with
    | some v => return v
    | none => throw (.unresolved name)

def readMember (holder : Value) (key : String) : Eval Value :=
  if holder.isNullish then throw (.noProperties holder key) else return holder.get key

/-- The value at a target; whatever is missing on the way reads as undefined. -/
def readPath : List String → Eval Value
  | [] => return .undefined
  | name :: keys => do
    let v ← ask name
    return keys.foldl (fun v key => v.get key) (v.getD .undefined)

def Literal.value : Literal → Value
  | .number x => .number x
  | .text s => .text s
  | .boolean b => .boolean b
  | .null => .null
  | .undefined => .undefined

def joinsText : Value → Bool
  | .text _ | .object _ => true
  | _ => false

/-- Two texts compare by their characters, anything else as numbers. -/
def compareBy (texts : String → String → Bool) (numbers : Float → Float → Bool) (a b : Value) : Value :=
  match a, b with
  | .text s, .text t => .boolean (texts s t)
  | a, b => .boolean (numbers a.toNumber b.toNumber)

def BinaryOp.apply (op : BinaryOp) (a b : Value) : Value :=
  match op with
  | .add =>
    if joinsText a || joinsText b then .text (a.toText ++ b.toText) else .number (a.toNumber + b.toNumber)
  | .sub => .number (a.toNumber - b.toNumber)
  | .mul => .number (a.toNumber * b.toNumber)
  | .div => .number (a.toNumber / b.toNumber)
  | .mod => .number (Number.remainder a.toNumber b.toNumber)
  | .less => compareBy (fun s t => s < t) (fun x y => x < y) a b
  | .greater => compareBy (fun s t => t < s) (fun x y => y < x) a b
  | .lessEq => compareBy (fun s t => !(t < s)) (fun x y => x ≤ y) a b
  | .greaterEq => compareBy (fun s t => !(s < t)) (fun x y => y ≤ x) a b
  | .looseEq => .boolean (a.looseEq b)
  | .looseNe => .boolean (!a.looseEq b)
  | .strictEq => .boolean (a.strictEq b)
  | .strictNe => .boolean (!a.strictEq b)

def UnaryOp.apply (op : UnaryOp) (v : Value) : Value :=
  match op with
  | .not => .boolean !v.isTruthy
  | .minus => .number (-v.toNumber)
  | .plus => .number v.toNumber
  | .typeof => .text v.typeName

def UpdateOp.apply : UpdateOp → Float → Float
  | .increment, x => x + 1
  | .decrement, x => x - 1

/-- The left operand decides alone. -/
def LogicalOp.settles : LogicalOp → Value → Bool
  | .and, v => !v.isTruthy
  | .or, v => v.isTruthy
  | .nullish, v => !v.isNullish

variable {μ : Type}

mutual

def eval (locals : Locals) : Term μ → Eval Value
  | .name _ n => lookup locals n
  | .literal _ v => return v.value
  | .object _ es => do return Value.ofPairs (← evalEntries locals es)
  | .member _ o key => do readMember (← eval locals o) key
  | .index _ o k => do
    let holder ← eval locals o
    let key ← eval locals k
    readMember holder key.toText
  | .unary _ op arg => do
    let outcome : Outcome ← ExceptT.lift (eval locals arg).run
    match op, outcome with
    | .typeof, .error (.unresolved _) => return UnaryOp.typeof.apply .undefined
    | _, .error f => throw f
    | op, .ok v => return op.apply v
  | .update _ op before target => do
    let path ← targetPath locals target
    let old := (← readPath path).toNumber
    let new := op.apply old
    tell path (.number new)
    return .number (if before then new else old)
  | .binary _ op l r => do
    let a ← eval locals l
    let b ← eval locals r
    return op.apply a b
  | .logical _ op l r => do
    let a ← eval locals l
    if op.settles a then return a else eval locals r
  | .conditional _ test yes no => do
    if (← eval locals test).isTruthy then eval locals yes else eval locals no
  | .assign _ op target e => do
    let path ← targetPath locals target
    let value ← match op.binary? with
      | none => eval locals e
      | some op => do
        let old ← readPath path
        let rhs ← eval locals e
        pure (op.apply old rhs)
    tell path value
    return value
  | .sequence _ es => evalLast locals .undefined es

def evalEntries (locals : Locals) : List (String × Term μ) → Eval (List (String × Value))
  | [] => return []
  | (key, e) :: es => do
    let v ← eval locals e
    return (key, v) :: (← evalEntries locals es)

/-- The value of the last expression. -/
def evalLast (locals : Locals) (last : Value) : List (Term μ) → Eval Value
  | [] => return last
  | e :: es => do evalLast locals (← eval locals e) es

/-- The path of an assignment or update target. -/
def targetPath (locals : Locals) : Term μ → Eval (List String)
  | .name _ n => if (locals.get? n).isSome then throw (.constantName n) else return [n]
  | .member _ o key => return (← targetPath locals o) ++ [key]
  | .index _ o k => do
    let path ← targetPath locals o
    let key ← eval locals k
    return path ++ [key.toText]
  | _ => throw .notATarget

end

/-- The value of the last expression statement. -/
def evalStatements (locals : Locals) (last : Value) : List (Statement μ) → Eval Value
  | [] => return last
  | .empty _ :: rest => evalStatements locals last rest
  | .expression _ e :: rest => do evalStatements locals (← eval locals e) rest

def Program.eval (p : Program μ) (locals : Locals) : Dialogue Outcome :=
  (evalStatements locals .undefined p.body).run

end Eventful.Expr
