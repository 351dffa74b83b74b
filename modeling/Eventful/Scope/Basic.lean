import Eventful.Value.Basic

/-
  Eventful.Scope.Basic — the data that expressions read and write, and who watches it.

  A scope is an object with a version and subscribers. A write goes to a path of keys. It
  is refused where the value on the way is undefined or null, has no effect where the
  value on the way is any other value but an object, and is stored otherwise; the version
  grows and the subscribers are told only if the stored value differs from the old one
  (`Value.same`). What a subscriber does is the host's: it is data here.
-/

namespace Eventful

/-- A write refused because `holder`, undefined or null, has no properties. -/
structure Blocked where
  holder : Value
  key : String

def Blocked.message (b : Blocked) : String :=
  "Cannot set properties of " ++ b.holder.toText ++ " (setting '" ++ b.key ++ "')"

/-- A write that changed something, under its dotted path. -/
structure Change where
  path : String
  old : Value
  new : Value

/-- Stores `value` at the path `key :: rest`: the new fields and the value before, or
    nothing where the write has no effect. -/
def Fields.write (value : Value) : String → List String → Fields → Except Blocked (Option (Fields × Value))
  | key, [], fs => .ok (some (fs.put key value, (fs.get? key).getD .undefined))
  | key, next :: rest, fs =>
    match fs.get? key with
    | none => .error ⟨.undefined, (next :: rest).getLast (by simp)⟩
    | some (.object inner) =>
      (Fields.write value next rest inner).map fun w => w.map fun (inner', old) => (fs.put key (.object inner'), old)
    | some holder => if holder.isNullish then .error ⟨holder, (next :: rest).getLast (by simp)⟩ else .ok none

/-- A scope whose subscribers are described by `σ`. -/
structure Scope (σ : Type) where
  data : Fields
  version : Nat
  subscribers : List (Nat × σ)
  nextId : Nat

namespace Scope

variable {σ : Type}

/-- The scope over an object; over any other value, the empty scope. -/
def ofValue (v : Value) : Scope σ := ⟨v.fields?.getD [], 0, [], 1⟩

def has (s : Scope σ) (name : String) : Bool := (s.data.get? name).isSome

def get (s : Scope σ) (name : String) : Value := (s.data.get? name).getD .undefined

def snapshot (s : Scope σ) : Value := .object s.data

/-- The value behind a list of keys, each a field of an object. -/
def follow : List String → Value → Value
  | [], v => v
  | key :: keys, v =>
    match v.fields?.bind (·.get? key) with
    | some next => follow keys next
    | none => .undefined

/-- The keys between the dots of a path. -/
def keysOf (path : String) : List String := (path.toList.splitOn '.').map String.ofList

/-- The value at a dotted path. -/
def getPath (s : Scope σ) (path : String) : Value := follow (keysOf path) s.snapshot

/-- A write to a path. What changed, if anything did, is to be told to the subscribers. -/
def write (s : Scope σ) (path : List String) (value : Value) : Except Blocked (Scope σ × Option Change) :=
  match path with
  | [] => .ok (s, none)
  | key :: rest =>
    match Fields.write value key rest s.data with
    | .error b => .error b
    | .ok none => .ok (s, none)
    | .ok (some (data, old)) =>
      if old.same value then .ok ({ s with data }, none)
      else .ok ({ s with data, version := s.version + 1 }, some ⟨".".intercalate path, old, value⟩)

def subscribe (s : Scope σ) (what : σ) : Nat × Scope σ :=
  (s.nextId, { s with subscribers := s.subscribers ++ [(s.nextId, what)], nextId := s.nextId + 1 })

def unsubscribe (s : Scope σ) (id : Nat) : Bool × Scope σ :=
  (s.subscribers.any (·.1 == id), { s with subscribers := s.subscribers.filter (·.1 != id) })

end Scope
end Eventful
