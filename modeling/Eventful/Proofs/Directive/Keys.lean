import Eventful.Directive.Keys
import Eventful.Proofs.Text

/-
  Eventful.Proofs.Directive.Keys — which events a key filter passes.

  A filter sorts its names into modifier keys and others, in the order in which they come.
  What it passes (`passes_ofNames`) depends on which names there are, and on nothing else.
-/

namespace Eventful.Directive

open Page

variable {names : List String} {name : String} {e : Event}

theorem accepts_lower (name key : String) : accepts (Text.lower name) key = accepts name key := by
  unfold accepts
  rw [Text.lower_lower]

/-- What names want of an event: that the modifier keys among them are held and, if there
    are others and the event has a key, that one of these accepts it. -/
structure Wants (names : List String) (e : Event) : Prop where
  held : ∀ name ∈ names, ∀ m, ModifierKey.ofName? name = some m → m.isHeld e.held = true
  key : ∀ key, e.key? = some key → (∃ name ∈ names, ModifierKey.ofName? name = none) →
    ∃ name ∈ names, ModifierKey.ofName? name = none ∧ accepts name key = true

namespace KeyFilter

theorem mem_held_foldl (names : List String) (f : KeyFilter) {m : ModifierKey} :
    m ∈ (names.foldl add f).held ↔ m ∈ f.held ∨ ∃ name ∈ names, ModifierKey.ofName? name = some m := by
  induction names generalizing f with
  | nil => simp
  | cons name names ih =>
    have hadd : m ∈ (f.add name).held ↔ m ∈ f.held ∨ ModifierKey.ofName? name = some m := by
      unfold add
      split
      · rename_i m' hm
        rw [hm, Option.some.injEq]
        split
        · rename_i hc
          exact ⟨.inl, fun h => h.elim id fun e => e ▸ List.contains_iff_mem.mp hc⟩
        · rw [List.mem_append, List.mem_singleton, eq_comm (a := m)]
      · rename_i hn
        simp [hn]
    simp only [List.foldl_cons, ih, hadd, or_assoc, List.mem_cons, exists_eq_or_imp]

theorem mem_keys_foldl (names : List String) (f : KeyFilter) {key : String} :
    key ∈ (names.foldl add f).keys ↔
      key ∈ f.keys ∨ ∃ name ∈ names, ModifierKey.ofName? name = none ∧ key = Text.lower name := by
  induction names generalizing f with
  | nil => simp
  | cons name names ih =>
    have hadd : key ∈ (f.add name).keys ↔
        key ∈ f.keys ∨ (ModifierKey.ofName? name = none ∧ key = Text.lower name) := by
      unfold add
      split
      · rename_i m hm
        rw [hm]
        split <;> simp
      · rename_i hn
        simp [hn]
    simp only [List.foldl_cons, ih, hadd, or_assoc, List.mem_cons, exists_eq_or_imp]

theorem mem_held_ofNames {m : ModifierKey} :
    m ∈ (ofNames names).held ↔ ∃ name ∈ names, ModifierKey.ofName? name = some m :=
  (mem_held_foldl names ⟨[], []⟩).trans (by simp)

theorem mem_keys_ofNames {key : String} :
    key ∈ (ofNames names).keys ↔ ∃ name ∈ names, ModifierKey.ofName? name = none ∧ key = Text.lower name :=
  (mem_keys_foldl names ⟨[], []⟩).trans (by simp)

/-- A filter without names is no filter. -/
theorem isEmpty_ofNames : (ofNames names).isEmpty = true ↔ names = [] := by
  constructor
  · intro h
    obtain ⟨hkeys, hheld⟩ := Bool.and_eq_true_iff.mp h
    refine List.eq_nil_iff_forall_not_mem.mpr fun name hname => ?_
    cases hm : ModifierKey.ofName? name with
    | some m =>
      have hmem := mem_held_ofNames.mpr ⟨name, hname, hm⟩
      rw [List.isEmpty_iff.mp hheld] at hmem
      cases hmem
    | none =>
      have hmem := mem_keys_ofNames.mpr ⟨name, hname, hm, rfl⟩
      rw [List.isEmpty_iff.mp hkeys] at hmem
      cases hmem
  · rintro rfl
    rfl

theorem passes_ofNames : (ofNames names).passes e = true ↔ Wants names e := by
  have hheld : (ofNames names).held.all (·.isHeld e.held) = true ↔
      ∀ name ∈ names, ∀ m, ModifierKey.ofName? name = some m → m.isHeld e.held = true := by
    rw [List.all_eq_true]
    constructor
    · exact fun h name hname m hm => h m (mem_held_ofNames.mpr ⟨name, hname, hm⟩)
    · intro h m hm
      obtain ⟨name, hname, hm⟩ := mem_held_ofNames.mp hm
      exact h name hname m hm
  have hkeys : (ofNames names).keys.isEmpty = true ↔ ¬∃ name ∈ names, ModifierKey.ofName? name = none := by
    rw [List.isEmpty_iff, List.eq_nil_iff_forall_not_mem]
    constructor
    · exact fun h ⟨name, hname, hn⟩ => h _ (mem_keys_ofNames.mpr ⟨name, hname, hn, rfl⟩)
    · intro h key hkey
      obtain ⟨name, hname, hn, -⟩ := mem_keys_ofNames.mp hkey
      exact h ⟨name, hname, hn⟩
  have hany : ∀ key, (ofNames names).keys.any (accepts · key) = true ↔
      ∃ name ∈ names, ModifierKey.ofName? name = none ∧ accepts name key = true := by
    intro key
    rw [List.any_eq_true]
    constructor
    · rintro ⟨declared, hd, ha⟩
      obtain ⟨name, hname, hn, rfl⟩ := mem_keys_ofNames.mp hd
      exact ⟨name, hname, hn, accepts_lower name key ▸ ha⟩
    · rintro ⟨name, hname, hn, ha⟩
      exact ⟨Text.lower name, mem_keys_ofNames.mpr ⟨name, hname, hn, rfl⟩, (accepts_lower name key).symm ▸ ha⟩
  unfold passes
  rw [Bool.and_eq_true, Bool.or_eq_true, hheld, hkeys]
  constructor
  · rintro ⟨h, hk⟩
    refine ⟨h, fun key he hn => (hany key).mp ?_⟩
    rw [he] at hk
    exact hk.resolve_left fun h => h hn
  · intro hw
    refine ⟨hw.held, ?_⟩
    by_cases hn : ∃ name ∈ names, ModifierKey.ofName? name = none
    · right
      cases he : e.key? with
      | none => rfl
      | some key => exact (hany key).mpr (hw.key key he hn)
    · exact .inl hn

end KeyFilter
end Eventful.Directive
