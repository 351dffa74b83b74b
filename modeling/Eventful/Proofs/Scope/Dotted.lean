import Eventful.Scope.Basic

/-
  Eventful.Proofs.Scope.Dotted — dotted paths as names of keys.

  Keys are joined with dots and read back by cutting at the dots. So a key with a dot in it is
  read back as several (`keysOf_join`), and only keys without one come back as they were
  (`keysOf_join_dotless`) and have a dotted path of their own (`join_inj`).
-/

namespace Eventful.Scope

variable {σ : Type} {key : String} {keys keys' : List String}

/-- There is no dot in the key. -/
def Dotless (key : String) : Prop := '.' ∉ key.toList

theorem splitOn_append (xs ys : List Char) : (xs ++ '.' :: ys).splitOn '.' = xs.splitOn '.' ++ ys.splitOn '.' :=
  List.splitOnP_append_cons xs ys rfl

theorem keysOf_cons (key : String) (hne : keys ≠ []) :
    keysOf (".".intercalate (key :: keys)) = keysOf key ++ keysOf (".".intercalate keys) := by
  have htext : (".".intercalate (key :: keys)).toList = key.toList ++ '.' :: (".".intercalate keys).toList := by
    cases keys with
    | nil => exact absurd rfl hne
    | cons next rest => simp [String.toList_intercalate]
  simp only [keysOf, htext, splitOn_append, List.map_append]

/-- What is cut from a dotted path is what is cut from its keys. -/
theorem keysOf_join (hne : keys ≠ []) : keysOf (".".intercalate keys) = keys.flatMap keysOf := by
  induction keys with
  | nil => exact absurd rfl hne
  | cons key keys ih =>
    cases keys with
    | nil => simp
    | cons next rest =>
      have hrest : next :: rest ≠ [] := List.cons_ne_nil next rest
      rw [keysOf_cons key hrest, ih hrest]
      exact List.flatMap_cons.symm

/-- Keys without dots come back as they were. -/
theorem keysOf_join_dotless (hne : keys ≠ []) (h : ∀ key ∈ keys, Dotless key) : keysOf (".".intercalate keys) = keys := by
  have htext : (".".intercalate keys).toList = ['.'].intercalate (keys.map String.toList) := String.toList_intercalate
  have hdots : ∀ l ∈ keys.map String.toList, '.' ∉ l := by
    intro l hl
    obtain ⟨key, hkey, rfl⟩ := List.mem_map.mp hl
    exact h key hkey
  rw [keysOf, htext, List.splitOn_intercalate '.' hdots (by simpa using hne), List.map_map]
  simp

/-- Keys without dots have a dotted path of their own. -/
theorem join_inj (hne : keys ≠ []) (hne' : keys' ≠ []) (h : ∀ key ∈ keys, Dotless key) (h' : ∀ key ∈ keys', Dotless key)
    (heq : ".".intercalate keys = ".".intercalate keys') : keys = keys' := by
  rw [← keysOf_join_dotless hne h, heq, keysOf_join_dotless hne' h']

/-- What is read at the dotted path of keys. -/
theorem getPath_join (s : Scope σ) (hne : keys ≠ []) :
    s.getPath (".".intercalate keys) = follow (keys.flatMap keysOf) s.snapshot := by
  rw [getPath, keysOf_join hne]

end Eventful.Scope
