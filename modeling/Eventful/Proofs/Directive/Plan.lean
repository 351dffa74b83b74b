import Eventful.Directive.Plan

/-
  Eventful.Proofs.Directive.Plan — what a plan owes to its directive.

  A summary has what its modifiers ask for, in whatever order they stand; the guards have
  what the summary has, in the one order that they always stand in.
-/

namespace Eventful.Directive

/-! ## Modifiers -/

namespace Modifier

/-- What kind of modifier it is: the waits of debounces do not count. -/
def sort : Modifier → Modifier
  | .debounce _ => .debounce none
  | m => m

theorem debounce_of_sort {m : Modifier} (h : m.sort = .debounce none) : ∃ wait, m = .debounce wait := by
  cases m with
  | debounce wait => exact ⟨wait, rfl⟩
  | _ => cases h

theorem eq_of_sort {m m' : Modifier} (hm : ∀ wait, m ≠ .debounce wait) (h : m.sort = m'.sort) : m = m' := by
  cases m with
  | debounce wait => exact absurd rfl (hm wait)
  | _ => cases m' <;> cases h <;> rfl

/-- The waits that modifiers give, in order. -/
def waits (ms : List Modifier) : List Nat :=
  ms.filterMap fun
    | .debounce wait => wait
    | _ => none

end Modifier

/-! ## Summaries -/

namespace Summary

/-- The summary has what the modifier asks for, whatever its wait. -/
def asks (s : Summary) : Modifier → Bool
  | .stop => s.stop
  | .prevent => s.prevent
  | .window => s.window
  | .document => s.document
  | .outside => s.outside
  | .once => s.once
  | .debounce _ => s.debounce.isSome
  | .key name => s.keys.contains name

theorem asks_add {s : Summary} {m m' : Modifier} :
    (s.add m).asks m' = true ↔ s.asks m' = true ∨ m'.sort = m.sort := by
  cases m with
  | debounce wait =>
    cases m' with
    | debounce wait' =>
      simp only [asks, add, Modifier.sort, or_true, iff_true]
      split
      · rename_i h; rw [h]; rfl
      · rfl
    | _ =>
      simp only [asks, add, Modifier.sort, reduceCtorEq, or_false]
      split <;> rfl
  | key name =>
    have hadd : s.add (.key name) = { s with keys := if s.keys.contains name then s.keys else s.keys ++ [name] } := by
      unfold add
      dsimp only
      split <;> rfl
    rw [hadd]
    cases m' with
    | key name' =>
      simp only [asks, Modifier.sort, List.contains_iff_mem, Modifier.key.injEq]
      split
      · rename_i h
        exact ⟨.inl, fun h' => h'.elim id fun e => e ▸ h⟩
      · rw [List.mem_append, List.mem_singleton]
    | _ => simp only [asks, Modifier.sort, reduceCtorEq, or_false]
  | _ => cases m' <;> simp [asks, add, Modifier.sort]

theorem asks_foldl (ms : List Modifier) (s : Summary) {m : Modifier} :
    (ms.foldl add s).asks m = true ↔ s.asks m = true ∨ ∃ m' ∈ ms, m.sort = m'.sort := by
  induction ms generalizing s with
  | nil => simp
  | cons m₀ ms ih => simp only [List.foldl_cons, ih, asks_add, or_assoc, List.mem_cons, exists_eq_or_imp]

theorem asks_empty (m : Modifier) : empty.asks m = false := by cases m <;> rfl

theorem asks_ofModifiers {ms : List Modifier} {m : Modifier} :
    (ofModifiers ms).asks m = true ↔ ∃ m' ∈ ms, m.sort = m'.sort :=
  (asks_foldl ms empty).trans (by rw [asks_empty, Bool.false_eq_true, false_or])

/-- A modifier without a wait is asked for where it stands. -/
theorem asks_iff_mem {ms : List Modifier} {m : Modifier} (hm : ∀ wait, m ≠ .debounce wait) :
    (ofModifiers ms).asks m = true ↔ m ∈ ms := by
  rw [asks_ofModifiers]
  constructor
  · rintro ⟨m', hmem, he⟩
    exact Modifier.eq_of_sort hm he ▸ hmem
  · exact fun hmem => ⟨m, hmem, rfl⟩

theorem stop_ofModifiers {ms : List Modifier} : (ofModifiers ms).stop = true ↔ .stop ∈ ms :=
  asks_iff_mem (m := .stop) fun _ => nofun

theorem prevent_ofModifiers {ms : List Modifier} : (ofModifiers ms).prevent = true ↔ .prevent ∈ ms :=
  asks_iff_mem (m := .prevent) fun _ => nofun

theorem outside_ofModifiers {ms : List Modifier} : (ofModifiers ms).outside = true ↔ .outside ∈ ms :=
  asks_iff_mem (m := .outside) fun _ => nofun

theorem once_ofModifiers {ms : List Modifier} : (ofModifiers ms).once = true ↔ .once ∈ ms :=
  asks_iff_mem (m := .once) fun _ => nofun

theorem mem_keys_ofModifiers {ms : List Modifier} {name : String} :
    name ∈ (ofModifiers ms).keys ↔ .key name ∈ ms :=
  List.contains_iff_mem.symm.trans (asks_iff_mem (m := .key name) fun _ => nofun)

theorem debounce_ofModifiers {ms : List Modifier} :
    (ofModifiers ms).debounce.isSome = true ↔ ∃ wait, .debounce wait ∈ ms := by
  refine (asks_ofModifiers (m := .debounce none)).trans ⟨?_, ?_⟩
  · rintro ⟨m, hmem, he⟩
    obtain ⟨wait, rfl⟩ := Modifier.debounce_of_sort he.symm
    exact ⟨wait, hmem⟩
  · exact fun ⟨wait, hmem⟩ => ⟨_, hmem, rfl⟩

/-- The first wait that is given counts. -/
theorem given_foldl (ms : List Modifier) (s : Summary) :
    (ms.foldl add s).debounce.join = s.debounce.join.or (Modifier.waits ms).head? := by
  induction ms generalizing s with
  | nil => simp [Modifier.waits]
  | cons m ms ih =>
    rw [List.foldl_cons, ih]
    cases m with
    | debounce wait =>
      have hadd : (s.add (.debounce wait)).debounce.join = s.debounce.join.or wait := by
        unfold add
        dsimp only
        split
        · rename_i h; rw [h]; rfl
        · rename_i h
          match hd : s.debounce with
          | none => rfl
          | some none => rfl
          | some (some w) => exact absurd hd (h w)
      rw [hadd]
      cases wait with
      | none => rw [Option.or_none]; rfl
      | some w => rw [Option.or_assoc]; rfl
    | key name =>
      have hadd : (s.add (.key name)).debounce = s.debounce := by
        unfold add
        dsimp only
        split <;> rfl
      rw [hadd]
      rfl
    | _ => rfl

/-- A debounced binding waits for the first wait given, or else for the default. -/
theorem wait?_ofModifiers {ms : List Modifier} {default wait : Nat} :
    (ofModifiers ms).wait? default = some wait ↔
      (∃ w, .debounce w ∈ ms) ∧ wait = (Modifier.waits ms).head?.getD default := by
  have hgiven : (ofModifiers ms).debounce.join = (Modifier.waits ms).head? := given_foldl ms empty
  rw [← debounce_ofModifiers, ← hgiven]
  unfold wait?
  match (ofModifiers ms).debounce with
  | none => simp
  | some w => simp [eq_comm]

end Summary

namespace Plan

variable {c : Config} {d : Directive} {p : Plan}

theorem build_eq_ok (h : build c d = .ok p) :
    ∃ place, placeOf c d d.summary = .ok place ∧ p.event = d.event ∧ p.place = place ∧
      p.options.capture = false ∧ p.options.once = false ∧ p.guards = guardsOf c d.summary := by
  unfold build at h
  dsimp only at h
  cases hp : placeOf c d d.summary with
  | error e => rw [hp] at h; cases h
  | ok place =>
    rw [hp] at h
    cases h
    exact ⟨place, rfl, rfl, rfl, rfl, rfl, rfl⟩

/-- A binding's listener is not removed by being called. -/
theorem options_once (h : build c d = .ok p) : p.options.once = false :=
  let ⟨_, _, _, _, _, ho, _⟩ := build_eq_ok h
  ho

/-- A listener is passive for a frequent event that it does not prevent, where the
    configuration has it so. -/
theorem passive_iff (h : build c d = .ok p) :
    p.options.passive = true ↔ c.passiveHighFrequency = true ∧ .prevent ∉ d.modifiers ∧ d.event ∈ frequent := by
  unfold build at h
  dsimp only at h
  cases hplace : placeOf c d d.summary with
  | error e => rw [hplace] at h; cases h
  | ok place =>
    rw [hplace] at h
    cases h
    have hprevent : d.summary.prevent = true ↔ .prevent ∈ d.modifiers := Summary.prevent_ofModifiers
    show (c.passiveHighFrequency && !d.summary.prevent && frequent.contains d.event) = true ↔ _
    rw [Bool.and_eq_true, Bool.and_eq_true, Bool.not_eq_true', ← Bool.not_eq_true, hprevent, List.contains_iff_mem, and_assoc]

theorem once_mem_guardsOf {s : Summary} : .once ∈ guardsOf c s ↔ s.once = true := by
  unfold guardsOf
  simp

theorem outside_mem_guardsOf {s : Summary} : .outside ∈ guardsOf c s ↔ s.outside = true := by
  unfold guardsOf
  simp

theorem debounce_mem_guardsOf {s : Summary} {wait : Nat} :
    .debounce wait ∈ guardsOf c s ↔ s.wait? c.defaultWait = some wait := by
  unfold guardsOf
  simp

/-- The wait that the guards ask for is that of the summary. -/
theorem wait?_of_guards {s : Summary} (h : p.guards = guardsOf c s) : p.wait? = s.wait? c.defaultWait := by
  unfold wait?
  rw [h]
  unfold guardsOf
  simp only [List.findSome?_append]
  cases s.wait? c.defaultWait <;> cases s.stop <;> cases s.prevent <;> cases s.outside <;> cases s.once <;>
    cases (KeyFilter.ofNames s.keys).isEmpty <;> rfl

/-- The guards filter keys if the summary has key names. -/
theorem filter?_of_guards {s : Summary} (h : p.guards = guardsOf c s) :
    p.filter? = if (KeyFilter.ofNames s.keys).isEmpty then none else some (KeyFilter.ofNames s.keys) := by
  unfold filter?
  rw [h]
  unfold guardsOf
  simp only [List.findSome?_append]
  cases s.wait? c.defaultWait <;> cases s.stop <;> cases s.prevent <;> cases s.outside <;> cases s.once <;>
    cases (KeyFilter.ofNames s.keys).isEmpty <;> rfl

theorem debounced_iff (h : build c d = .ok p) :
    (∃ wait, .debounce wait ∈ p.guards) ↔ ∃ wait, .debounce wait ∈ d.modifiers := by
  obtain ⟨_, _, _, _, _, _, hg⟩ := build_eq_ok h
  simp only [hg, debounce_mem_guardsOf, Summary.wait?, Option.map_eq_some_iff, exists_comm (α := Nat), exists_and_left,
    exists_eq', and_true]
  rw [← Option.isSome_iff_exists]
  exact Summary.debounce_ofModifiers

theorem isOnce_iff (h : build c d = .ok p) : p.isOnce = true ↔ .once ∈ d.modifiers := by
  obtain ⟨_, _, _, _, _, _, hg⟩ := build_eq_ok h
  unfold isOnce
  rw [hg, List.contains_iff_mem, once_mem_guardsOf]
  exact Summary.once_ofModifiers

theorem isOutside_iff (h : build c d = .ok p) : p.isOutside = true ↔ .outside ∈ d.modifiers := by
  obtain ⟨_, _, _, _, _, _, hg⟩ := build_eq_ok h
  unfold isOutside
  rw [hg, List.contains_iff_mem, outside_mem_guardsOf]
  exact Summary.outside_ofModifiers

/-- Outside listens on the document. -/
theorem place_of_isOutside (h : build c d = .ok p) (ho : p.isOutside = true) : p.place = .document := by
  obtain ⟨place, hp, _, e, _, _, _⟩ := build_eq_ok h
  have houtside : d.summary.outside = true := Summary.outside_ofModifiers.mpr ((isOutside_iff h).mp ho)
  unfold placeOf at hp
  rw [if_pos houtside] at hp
  cases hp
  exact e

end Plan
end Eventful.Directive
