import Eventful.Expr.Cache
import Mathlib.Data.List.Dedup

/-
  Eventful.Proofs.Expr.Caching — what a cache holds, and what it makes no difference to.

  A cache that was given some sources holds those of them that parse, once each, with what
  they parse to (`Cache.Of`); compiling one more source keeps it so (`Cache.Of.compile`).
  What it gives out for any source is then what a fresh one finds. Whatever a cache holds,
  an evaluation leaves in it what any later one would find anyway (`evaluate_caching`).
-/

namespace Eventful.Expr

/-! ## Lookups after a compilation -/

theorem get?_append (c : Cache) (source : String) (p : Program Span) (source' : String) :
    Cache.get? ⟨c.programs ++ [(source, p)]⟩ source' =
      (c.get? source').or (if source = source' then some p else none) := by
  unfold Cache.get?
  rw [List.find?_append]
  cases c.programs.find? (·.1 == source') with
  | some q => rfl
  | none => by_cases h : source = source' <;> simp [h]

theorem compile_caching (c : Cache) (source source' : String) :
    ((c.compile source).2.compile source').1 = (c.compile source').1 := by
  unfold Cache.compile
  cases hget : c.get? source with
  | some p => rfl
  | none =>
    cases hparse : parse source with
    | error e => rfl
    | ok p =>
      dsimp only
      rw [get?_append]
      cases hget' : c.get? source' with
      | some q => rfl
      | none =>
        by_cases h : source = source'
        · subst h
          simp [hparse]
        · simp only [h, if_false, Option.or_none]
          cases parse source' with
          | ok q => rfl
          | error e => rfl

/-- An evaluation changes the cache by what it compiles. -/
theorem evaluate_snd (c : Cache) (source : String) (locals : Locals) :
    (c.evaluate source locals).2 = (c.compile source).2 := by
  unfold Cache.evaluate
  rcases c.compile source with ⟨_ | _, _⟩ <;> rfl

/-- An evaluation depends on the cache for the program alone. -/
theorem evaluate_congr {c c' : Cache} {source : String} (he : (c.compile source).1 = (c'.compile source).1)
    (locals : Locals) : (c.evaluate source locals).1 = (c'.evaluate source locals).1 := by
  unfold Cache.evaluate
  rcases hr : c.compile source with ⟨r, d⟩
  rcases hr' : c'.compile source with ⟨r', d'⟩
  rw [hr, hr'] at he
  obtain rfl : r = r' := he
  cases r <;> rfl

theorem evaluate_caching (c : Cache) (source source' : String) (locals locals' : Locals) :
    ((c.evaluate source locals).2.evaluate source' locals').1 = (c.evaluate source' locals').1 := by
  rw [evaluate_snd]
  exact evaluate_congr (compile_caching c source source') locals'

/-! ## What a cache was given -/

/-- The source is a program. -/
def parses (source : String) : Bool := (parse source).toBool

/-- The cache holds those of the sources that parse, and nothing else. -/
structure Cache.Of (sources : List String) (c : Cache) : Prop where
  distinct : (c.programs.map (·.1)).Nodup
  holds : ∀ {source : String} {p : Program Span},
    c.get? source = some p ↔ source ∈ sources ∧ parse source = .ok p

variable {c : Cache} {sources : List String}

theorem Cache.of_empty : Cache.empty.Of [] := ⟨List.nodup_nil, by simp [Cache.empty, Cache.get?]⟩

theorem Cache.mem_keys {source : String} : source ∈ c.programs.map (·.1) ↔ ∃ p, c.get? source = some p := by
  unfold Cache.get?
  constructor
  · intro h
    obtain ⟨e, he, rfl⟩ := List.mem_map.mp h
    have hfound : (c.programs.find? (·.1 == e.1)).isSome := List.find?_isSome.mpr ⟨e, he, beq_self_eq_true _⟩
    obtain ⟨e', hfind⟩ := Option.isSome_iff_exists.mp hfound
    exact ⟨e'.2, by rw [hfind]; rfl⟩
  · rintro ⟨p, hp⟩
    obtain ⟨e, he, -⟩ := Option.map_eq_some_iff.mp hp
    exact List.mem_map.mpr ⟨e, List.mem_of_find?_eq_some he, by simpa using List.find?_some he⟩

/-- It counts the distinct sources that parse. -/
theorem Cache.Of.size (hc : c.Of sources) : c.size = (sources.dedup.filter parses).length := by
  have hmem : ∀ source, source ∈ c.programs.map (·.1) ↔ source ∈ sources.dedup.filter parses := by
    intro source
    rw [mem_keys, List.mem_filter, List.mem_dedup]
    simp only [hc.holds, exists_and_left]
    unfold parses
    cases parse source <;> simp [Except.toBool]
  have hperm : (c.programs.map (·.1)).Perm (sources.dedup.filter parses) :=
    (List.perm_ext_iff_of_nodup hc.distinct (sources.nodup_dedup.filter _)).mpr hmem
  rw [← hperm.length_eq, List.length_map]
  rfl

/-- What it gives out is what a fresh one finds. -/
theorem Cache.Of.compile_fresh (hc : c.Of sources) (source : String) :
    (c.compile source).1 = (Cache.empty.compile source).1 := by
  unfold Cache.compile
  cases hget : c.get? source with
  | some p =>
    rw [(hc.holds.mp hget).2]
    rfl
  | none => cases parse source <;> rfl

/-- An evaluation is that of what the source parses to. -/
theorem Cache.Of.evaluate_eq (hc : c.Of sources) (source : String) (locals : Locals) :
    (c.evaluate source locals).1 =
      match parse source with
      | .ok p => p.eval locals
      | .error e => .done (.error (.malformed e)) := by
  rw [evaluate_congr (hc.compile_fresh source) locals]
  unfold evaluate compile
  rw [show empty.get? source = none from rfl]
  cases parse source <;> rfl

theorem Cache.Of.compile (hc : c.Of sources) (source : String) : (c.compile source).2.Of (source :: sources) := by
  unfold Cache.compile
  cases hget : c.get? source with
  | some p =>
    obtain ⟨hmem, hparse⟩ := hc.holds.mp hget
    refine ⟨hc.distinct, fun {source' p'} => ?_⟩
    rw [hc.holds, List.mem_cons]
    exact and_congr_left fun _ => ⟨.inr, fun h => h.elim (fun e => e ▸ hmem) id⟩
  | none =>
    cases hparse : parse source with
    | ok p =>
      have hnew : source ∉ c.programs.map (·.1) := fun h => by
        obtain ⟨q, hq⟩ := mem_keys.mp h
        rw [hget] at hq
        cases hq
      refine ⟨?_, fun {source' p'} => ?_⟩
      · rw [List.map_append]
        exact hc.distinct.append (List.nodup_singleton _) (List.disjoint_singleton.mpr hnew)
      · rw [get?_append, List.mem_cons]
        by_cases e : source = source'
        · subst e
          simp [hget, hparse]
        · rw [if_neg e, Option.or_none, hc.holds]
          simp [Ne.symm e]
    | error f =>
      refine ⟨hc.distinct, fun {source' p'} => ?_⟩
      rw [hc.holds, List.mem_cons]
      refine ⟨fun h => ⟨.inr h.1, h.2⟩, fun ⟨h, hp⟩ => ⟨h.resolve_left ?_, hp⟩⟩
      rintro rfl
      rw [hparse] at hp
      cases hp

end Eventful.Expr
