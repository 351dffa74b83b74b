import Eventful.Proofs.Scope.Storing

/-
  Eventful.Proofs.Scope.Properties — what stands behind keys, one own property at a time.

  `Value.at?` tells a property that is missing from one that is undefined, as reading a path
  (`Scope.follow`) does not. A write comes to one of three ends. Its way may halt before the
  last key, at a value that is no object (`Halts`): where that is undefined or null, or
  missing, the write is refused (`Barred`), and elsewhere it has no effect (`Lost`). If the
  way is open (`Open`), the value is put behind the path, the object there gains the last
  key at most, and nothing else moves (`Replaced`).

  - `one_end`: a path and a value have one of these ends;
  - `write_end`: what a write does at each.
-/

namespace Eventful

variable {σ : Type} {key k : String} {path p q : List String} {u v v' : Value} {fs inner : Fields}
  {holder holder' : Option Value}

namespace Fields

theorem mem_keys : key ∈ fs.keys ↔ (fs.get? key).isSome = true := by
  induction fs with
  | nil => simp [keys, get?]
  | cons f rest ih =>
    have hrest : key ∈ rest.map (·.1) ↔ (get? key rest).isSome = true := ih
    by_cases hf : f.1 = key
    · simp [keys, get?, hf]
    · simp only [keys, get?, List.map_cons, List.mem_cons, hrest, beq_iff_eq, hf, if_false, or_iff_right (Ne.symm hf)]

/-- Setting a field adds its key at most. -/
theorem mem_keys_put : k ∈ (fs.put key v).keys ↔ k ∈ fs.keys ∨ k = key := by
  by_cases hk : k = key
  · subst hk
    simp [mem_keys]
  · simp [mem_keys, get?_put_of_ne hk, hk]

end Fields

namespace Value

/-! ## Own properties -/

/-- What stands behind the keys, each an own property of an object. -/
def at? : List String → Value → Option Value
  | [], v => some v
  | key :: keys, v => (v.fields?.bind (·.get? key)).bind (at? keys)

@[simp] theorem at?_nil (v : Value) : v.at? [] = some v := rfl

theorem at?_object (key : String) (keys : List String) (fs : Fields) :
    (object fs).at? (key :: keys) = (fs.get? key).bind (at? keys) := rfl

theorem at?_eq_some_iff : (object fs).at? (key :: p) = some u ↔ ∃ v, fs.get? key = some v ∧ v.at? p = some u := by
  rw [at?_object]
  exact Option.bind_eq_some_iff

theorem at?_append (p q : List String) (v : Value) : v.at? (p ++ q) = (v.at? p).bind (at? q) := by
  induction p generalizing v with
  | nil => rfl
  | cons key p ih =>
    simp only [List.cons_append, at?]
    cases v.fields?.bind (·.get? key) with
    | none => rfl
    | some u => exact ih u

/-- To read a path is to go there, and to take what is missing for undefined. -/
theorem follow_eq (p : List String) (v : Value) : Scope.follow p v = (v.at? p).getD .undefined := by
  induction p generalizing v with
  | nil => rfl
  | cons key p ih =>
    simp only [Scope.follow, at?]
    cases v.fields?.bind (·.get? key) with
    | none => rfl
    | some u => exact ih u

/-- Something stands further on only if an object stands here. -/
theorem object_of_at? (h : (v.at? (p ++ key :: q)).isSome = true) : ∃ fs, v.at? p = some (.object fs) := by
  rw [at?_append] at h
  cases hp : v.at? p with
  | none =>
    rw [hp] at h
    cases h
  | some u =>
    rw [hp] at h
    cases u with
    | object fs => exact ⟨fs, rfl⟩
    | _ => cases h

/-! ## The way of a write -/

/-- The way to the last key of the path halts at `p`: no object stands there, but `holder`,
    or nothing. -/
structure Halts (path : List String) (v : Value) (p : List String) (holder : Option Value) : Prop where
  within : p <+: path.dropLast
  /-- Up to there the way leads through objects. -/
  reached : ∃ fs, v.at? p.dropLast = some (.object fs)
  found : v.at? p = holder
  noObject : ∀ fs, holder ≠ some (.object fs)

/-- The way halts at undefined or null, or where a property is missing. -/
def Barred (path : List String) (v : Value) : Prop :=
  ∃ p holder, Halts path v p holder ∧ (holder.getD .undefined).isNullish = true

/-- The way halts at another value that is no object. -/
def Lost (path : List String) (v : Value) : Prop := ∃ p u, Halts path v p (some u) ∧ u.isNullish = false

/-- An object stands before the last key. -/
def Open (path : List String) (v : Value) : Prop := ∃ fs, v.at? path.dropLast = some (.object fs)

theorem Halts.ne_nil (h : Halts path (.object fs) p holder) : p ≠ [] := by
  rintro rfl
  exact h.noObject fs h.found.symm

/-- Where a way halts it does not go on. -/
theorem Halts.last (h : Halts path v p holder) (hpq : p <+: q) (hq : ∃ fs, v.at? q = some (.object fs)) : False := by
  obtain ⟨fs, hq⟩ := hq
  obtain ⟨r, rfl⟩ := hpq
  have hobject : ∃ fs', v.at? p = some (.object fs') := by
    cases r with
    | nil => exact ⟨fs, by rwa [List.append_nil] at hq⟩
    | cons key r => exact object_of_at? (by rw [hq]; rfl)
  obtain ⟨fs', hp⟩ := hobject
  exact h.noObject fs' (h.found.symm.trans hp)

theorem Halts.not_open (h : Halts path v p holder) : ¬Open path v := h.last h.within

theorem prefix_dropLast (h : p <+: q) (hne : p ≠ q) : p <+: q.dropLast := by
  obtain ⟨r, rfl⟩ := h
  cases r with
  | nil => exact absurd (List.append_nil p).symm hne
  | cons key r =>
    rw [List.dropLast_append_of_ne_nil (List.cons_ne_nil key r)]
    exact List.prefix_append _ _

theorem Halts.unique (h : Halts path v p holder) (h' : Halts path v q holder') : p = q ∧ holder = holder' := by
  by_cases hpq : p = q
  · subst hpq
    exact ⟨rfl, h.found.symm.trans h'.found⟩
  · exfalso
    rcases List.prefix_or_prefix_of_prefix h.within h'.within with hp | hq
    · exact h.last (prefix_dropLast hp hpq) h'.reached
    · exact h'.last (prefix_dropLast hq (Ne.symm hpq)) h.reached

theorem Barred.not_lost (h : Barred path v) : ¬Lost path v := by
  rintro ⟨p, u, hu, hnot⟩
  obtain ⟨q, holder, hh, hnullish⟩ := h
  obtain ⟨-, rfl⟩ := hh.unique hu
  rw [Option.getD_some, hnot] at hnullish
  cases hnullish

/-- The ways to the last key, seen from the object before: it halts where they do. -/
theorem Halts.under {next : String} {rest : List String} (h : Halts (next :: rest) (.object inner) p holder)
    (hget : fs.get? key = some (.object inner)) : Halts (key :: next :: rest) (.object fs) (key :: p) holder := by
  have hthrough : ∀ q, (object fs).at? (key :: q) = (object inner).at? q := by
    intro q
    rw [at?_object, hget]
    rfl
  refine ⟨List.cons_prefix_cons.mpr ⟨rfl, h.within⟩, ?_, (hthrough p).trans h.found, h.noObject⟩
  rw [List.dropLast_cons_of_ne_nil h.ne_nil, hthrough]
  exact h.reached

theorem halts_here {next : String} {rest : List String} (hget : ∀ inner, fs.get? key ≠ some (.object inner)) :
    Halts (key :: next :: rest) (.object fs) [key] (fs.get? key) where
  within := List.cons_prefix_cons.mpr ⟨rfl, List.nil_prefix⟩
  reached := ⟨fs, rfl⟩
  found := by
    rw [at?_object]
    cases fs.get? key <;> rfl
  noObject := hget

/-! ## What a write leaves -/

/-- The value `u` is put behind the path. -/
structure Replaced (path : List String) (u v v' : Value) : Prop where
  below : ∀ q, v'.at? (path ++ q) = u.at? q
  /-- On the way stand the same objects. The last of them may gain the last key. -/
  above : ∀ q key rest, path = q ++ key :: rest →
    ∃ fs fs' : Fields, v.at? q = some (.object fs) ∧ v'.at? q = some (.object fs') ∧
    ∀ k, k ∈ fs'.keys ↔ k ∈ fs.keys ∨ k = key ∧ rest = []
  apart : ∀ q, Scope.Apart q path → v'.at? q = v.at? q

/-- A field is set: whatever stands behind other keys stays. -/
theorem at?_put_of_ne (hne : k ≠ key) (v : Value) (fs : Fields) (q : List String) :
    (object (fs.put key v)).at? (k :: q) = (object fs).at? (k :: q) := by
  rw [at?_object, at?_object, Fields.get?_put_of_ne hne]

theorem at?_put_self (key : String) (v : Value) (fs : Fields) (q : List String) :
    (object (fs.put key v)).at? (key :: q) = v.at? q := by
  rw [at?_object, Fields.get?_put_self]
  rfl

theorem replaced_here (key : String) (u : Value) (fs : Fields) : Replaced [key] u (.object fs) (.object (fs.put key u)) where
  below q := at?_put_self key u fs q
  above q k rest he := by
    cases q with
    | nil =>
      obtain ⟨rfl, rfl⟩ := List.cons.inj he
      exact ⟨fs, _, rfl, rfl, fun k => by simp [Fields.mem_keys_put]⟩
    | cons k' q => simp at he
  apart q ha := by
    cases q with
    | nil => exact absurd List.nil_prefix ha.1
    | cons k q =>
      have hne : k ≠ key := by
        rintro rfl
        exact ha.2 (List.cons_prefix_cons.mpr ⟨rfl, List.nil_prefix⟩)
      exact at?_put_of_ne hne u fs q

theorem Replaced.under {inner' : Fields} (h : Replaced path u (.object inner) (.object inner'))
    (hget : fs.get? key = some (.object inner)) (hne : path ≠ []) :
    Replaced (key :: path) u (.object fs) (.object (fs.put key (.object inner'))) where
  below q := by
    rw [List.cons_append, at?_put_self]
    exact h.below q
  above q k rest he := by
    cases q with
    | nil =>
      -- The object itself has the key already, for the way goes on behind it.
      obtain ⟨rfl, rfl⟩ := List.cons.inj he
      refine ⟨fs, _, rfl, rfl, fun k' => ?_⟩
      have hold : k' = key → k' ∈ fs.keys := by
        rintro rfl
        rw [Fields.mem_keys, hget]
        rfl
      rw [Fields.mem_keys_put, or_iff_left_of_imp hold]
      simp [hne]
    | cons k₀ q =>
      obtain ⟨rfl, he'⟩ := List.cons.inj he
      obtain ⟨fs₁, fs₂, h₁, h₂, hkeys⟩ := h.above q k rest he'
      refine ⟨fs₁, fs₂, ?_, ?_, hkeys⟩
      · rw [at?_object, hget]
        exact h₁
      · rw [at?_put_self]
        exact h₂
  apart q ha := by
    cases q with
    | nil => exact absurd List.nil_prefix ha.1
    | cons k q =>
      by_cases hk : k = key
      · subst hk
        rw [at?_put_self, at?_object, hget]
        exact h.apart q ha.tail
      · exact at?_put_of_ne hk _ fs q

/-! ## The end of a write -/

/-- What a write to the path does to an object. -/
inductive FieldsEnd (u : Value) (key : String) (rest : List String) (fs : Fields) :
    Except Blocked (Option (Fields × Value)) → Prop
  | barred {p : List String} {holder : Option Value} : Halts (key :: rest) (.object fs) p holder →
    (holder.getD .undefined).isNullish = true →
    FieldsEnd u key rest fs (.error ⟨holder.getD .undefined, (key :: rest).getLast (List.cons_ne_nil key rest)⟩)
  | lost {p : List String} {v : Value} : Halts (key :: rest) (.object fs) p (some v) → v.isNullish = false →
    FieldsEnd u key rest fs (.ok none)
  | stored {fs' : Fields} : Replaced (key :: rest) u (.object fs) (.object fs') →
    FieldsEnd u key rest fs (.ok (some (fs', ((object fs).at? (key :: rest)).getD .undefined)))

theorem fieldsEnd_write (u : Value) (key : String) (rest : List String) (fs : Fields) :
    FieldsEnd u key rest fs (Fields.write u key rest fs) := by
  induction rest generalizing key fs with
  | nil =>
    have hold : (fs.get? key).getD .undefined = ((object fs).at? [key]).getD .undefined := by
      rw [at?_object]
      cases fs.get? key <;> rfl
    unfold Fields.write
    rw [hold]
    exact .stored (replaced_here key u fs)
  | cons next rest ih =>
    unfold Fields.write
    split
    · rename_i hget
      have hhalt : Halts (key :: next :: rest) (.object fs) [key] (fs.get? key) := halts_here (by simp [hget])
      rw [hget] at hhalt
      exact .barred hhalt rfl
    · rename_i inner hget
      have hthrough : (object fs).at? (key :: next :: rest) = (object inner).at? (next :: rest) := by
        rw [at?_object, hget]
        rfl
      have hinner := ih next inner
      generalize Fields.write u next rest inner = w at hinner
      cases hinner with
      | barred hhalt hnullish => exact .barred (hhalt.under hget) hnullish
      | lost hhalt hnot => exact .lost (hhalt.under hget) hnot
      | stored hrep =>
        rw [← hthrough]
        exact .stored (hrep.under hget (List.cons_ne_nil next rest))
    · rename_i u' hnot hget
      have hhalt : Halts (key :: next :: rest) (.object fs) [key] (fs.get? key) :=
        halts_here fun inner heq => hnot inner (Option.some.inj (hget.symm.trans heq))
      rw [hget] at hhalt
      split
      · rename_i hnullish
        exact .barred hhalt hnullish
      · rename_i hnullish
        exact .lost hhalt ((Bool.not_eq_true _).mp hnullish)

end Value

namespace Scope

open Value

variable {s s' : Scope σ}

/-- The value is stored: the version counts it if it differs from the old one, and the
    change is to be told then. -/
structure Stores (path : List String) (u : Value) (s s' : Scope σ) (change : Option Change) : Prop where
  replaced : Replaced path u s.snapshot s'.snapshot
  told : change = if ((s.snapshot.at? path).getD .undefined).same u then none
    else some ⟨".".intercalate path, (s.snapshot.at? path).getD .undefined, u⟩
  version : s'.version = s.version + change.toList.length
  subscribers : s'.subscribers = s.subscribers

/-- What a write to a path does to a scope. -/
inductive WriteEnd (path : List String) (u : Value) (s : Scope σ) :
    Except Blocked (Scope σ × Option Change) → Prop
  | barred {p : List String} {holder : Option Value} {key : String} : Halts path s.snapshot p holder →
    (holder.getD .undefined).isNullish = true → path.getLast? = some key →
    WriteEnd path u s (.error ⟨holder.getD .undefined, key⟩)
  | lost : Lost path s.snapshot → WriteEnd path u s (.ok (s, none))
  | stored {s' : Scope σ} {change : Option Change} : Open path s.snapshot → Stores path u s s' change →
    WriteEnd path u s (.ok (s', change))

theorem open_of_replaced {rest : List String} (h : Replaced (key :: rest) u v v') : Open (key :: rest) v := by
  have hsplit : key :: rest = (key :: rest).dropLast ++ [(key :: rest).getLast (List.cons_ne_nil key rest)] :=
    (List.dropLast_concat_getLast _).symm
  obtain ⟨fs, -, hfs, -⟩ := h.above _ _ _ hsplit
  exact ⟨fs, hfs⟩

theorem write_end (hp : path ≠ []) (u : Value) (s : Scope σ) : WriteEnd path u s (s.write path u) := by
  cases path with
  | nil => exact absurd rfl hp
  | cons key rest =>
    have hend := fieldsEnd_write u key rest s.data
    simp only [write]
    generalize Fields.write u key rest s.data = w at hend ⊢
    cases hend with
    | barred hhalt hnullish => exact .barred hhalt hnullish (List.getLast?_eq_some_getLast _)
    | lost hhalt hnot => exact .lost ⟨_, _, hhalt, hnot⟩
    | stored hrep =>
      dsimp only
      split
      · rename_i hsame
        exact .stored (open_of_replaced hrep) ⟨hrep, (if_pos hsame).symm, rfl, rfl⟩
      · rename_i hsame
        exact .stored (open_of_replaced hrep) ⟨hrep, (if_neg hsame).symm, rfl, rfl⟩

/-- A write comes to one of the three ends. -/
theorem one_end (hp : path ≠ []) (s : Scope σ) :
    (Barred path s.snapshot ∧ ¬Lost path s.snapshot ∧ ¬Open path s.snapshot) ∨
    (¬Barred path s.snapshot ∧ Lost path s.snapshot ∧ ¬Open path s.snapshot) ∨
    (¬Barred path s.snapshot ∧ ¬Lost path s.snapshot ∧ Open path s.snapshot) := by
  have hnot : ∀ {p holder}, Halts path s.snapshot p holder → ¬Open path s.snapshot := fun hhalt => hhalt.not_open
  have hend := write_end hp .undefined s
  generalize s.write path .undefined = w at hend
  cases hend with
  | barred hhalt hnullish _ =>
    have hb : Barred path s.snapshot := ⟨_, _, hhalt, hnullish⟩
    exact .inl ⟨hb, hb.not_lost, hnot hhalt⟩
  | lost hl =>
    obtain ⟨p, v, hhalt, -⟩ := id hl
    exact .inr (.inl ⟨fun hb => hb.not_lost hl, hl, hnot hhalt⟩)
  | stored ho _ =>
    refine .inr (.inr ⟨?_, ?_, ho⟩)
    · rintro ⟨p, holder, hhalt, -⟩
      exact hnot hhalt ho
    · rintro ⟨p, v, hhalt, -⟩
      exact hnot hhalt ho

end Scope
end Eventful
