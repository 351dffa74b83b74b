import Eventful.Host.Basic
import Eventful.Proofs.Binding.Runtime

/-
  Eventful.Proofs.Host.Tables — the tables of a host, row by row.

  Trackers and clocks are read by their numbers. Of the runtimes the books read five
  relations: which bindings a runtime binds (`Binds`) or still reaches (`Keeps`), which
  tracker it uses (`Uses`) or owns (`Owns`), and which clock it goes by (`Ticks`). Each
  edit of the table is described by what it does to these.
-/

namespace Eventful.Host

open Page Binding

variable {α : Type}

theorem modify_eq_some {xs : List α} {i j : Nat} {f : α → α} {y : α} :
    (xs.modify i f)[j]? = some y ↔ ∃ x, xs[j]? = some x ∧ y = if i = j then f x else x := by
  rw [List.getElem?_modify]
  constructor
  · intro h
    obtain ⟨x, hx, e⟩ := Option.map_eq_some_iff.mp h
    exact ⟨x, hx, e.symm⟩
  · rintro ⟨x, hx, rfl⟩
    rw [hx]
    rfl

theorem modify_congr {xs : List α} {i : Nat} {x : α} {f g : α → α} (hx : xs[i]? = some x) (e : f x = g x) :
    xs.modify i f = xs.modify i g := by
  apply List.ext_getElem?
  intro j
  rw [List.getElem?_modify, List.getElem?_modify]
  by_cases hj : i = j
  · subst hj; simp [hx, e]
  · simp [hj]

theorem append_eq_some {xs : List α} {x y : α} {j : Nat} :
    (xs ++ [x])[j]? = some y ↔ xs[j]? = some y ∨ (j = xs.length ∧ y = x) := by
  rw [List.getElem?_append]
  split
  · rename_i h
    have hne : j ≠ xs.length := by omega
    simp [hne]
  · rename_i h
    rw [List.getElem?_eq_none (by omega : xs.length ≤ j)]
    cases hj : j - xs.length with
    | zero =>
      have : j = xs.length := by omega
      simp [this, eq_comm]
    | succ n =>
      have : j ≠ xs.length := by omega
      simp [this]

/-! ## Trackers and clocks -/

def trackerAt (ts : List (Tracker Waiter)) (t : Nat) : Tracker Waiter := ts[t]?.getD .empty

def clockAt (cs : List (Clock Alarm)) (c : Nat) : Clock Alarm := cs[c]?.getD .new

theorem trackerAt_set {ts : List (Tracker Waiter)} {t : Nat} (k : Tracker Waiter) (t' : Nat) (ht : t < ts.length) :
    trackerAt (ts.set t k) t' = if t = t' then k else trackerAt ts t' := by
  unfold trackerAt
  rw [List.getElem?_set]
  by_cases e : t = t'
  · subst e; simp [ht]
  · simp [e]

theorem clockAt_set {cs : List (Clock Alarm)} {c : Nat} (k : Clock Alarm) (c' : Nat) (hc : c < cs.length) :
    clockAt (cs.set c k) c' = if c = c' then k else clockAt cs c' := by
  unfold clockAt
  rw [List.getElem?_set]
  by_cases e : c = c'
  · subst e; simp [hc]
  · simp [e]

/-- Writing to a row that is not there changes nothing. -/
theorem set_of_le {xs : List α} {i : Nat} (x : α) (h : xs.length ≤ i) : xs.set i x = xs :=
  List.set_eq_of_length_le h

theorem trackerAt_append (ts : List (Tracker Waiter)) (t : Nat) : trackerAt (ts ++ [.empty]) t = trackerAt ts t := by
  unfold trackerAt
  rw [List.getElem?_append]
  split
  · rfl
  · rename_i h
    rw [List.getElem?_eq_none (by omega : ts.length ≤ t)]
    cases h' : t - ts.length with
    | zero => rfl
    | succ n => simp

theorem clockAt_append (cs : List (Clock Alarm)) (c : Nat) : clockAt (cs ++ [.new]) c = clockAt cs c := by
  unfold clockAt
  rw [List.getElem?_append]
  split
  · rfl
  · rename_i h
    rw [List.getElem?_eq_none (by omega : cs.length ≤ c)]
    cases h' : c - cs.length with
    | zero => rfl
    | succ n => simp

theorem trackerAt_of_le {ts : List (Tracker Waiter)} {t : Nat} (h : ts.length ≤ t) : trackerAt ts t = .empty := by
  unfold trackerAt
  rw [List.getElem?_eq_none h]
  rfl

theorem clockAt_of_le {cs : List (Clock Alarm)} {c : Nat} (h : cs.length ≤ c) : clockAt cs c = .new := by
  unfold clockAt
  rw [List.getElem?_eq_none h]
  rfl

/-! ## Runtimes -/

abbrev Runtimes := List (Runtime Script)

/-- The runtime binds the binding. -/
def Binds (rs : Runtimes) (rt : Nat) (b : Bound) : Prop := ∃ r, rs[rt]? = some r ∧ b ∈ r.bindings

/-- The runtime still reaches the binding. -/
def Keeps (rs : Runtimes) (rt : Nat) (b : Bound) : Prop := ∃ r, rs[rt]? = some r ∧ r.Reaches b

/-- The binding is on its way out. -/
def Leaves (rs : Runtimes) (rt : Nat) (b : Bound) : Prop := ∃ r, rs[rt]? = some r ∧ b ∈ r.leaving

def Uses (rs : Runtimes) (rt k : Nat) : Prop := ∃ r, rs[rt]? = some r ∧ r.tracker = k

def Owns (rs : Runtimes) (rt k : Nat) : Prop := ∃ r, rs[rt]? = some r ∧ r.ownsTracker = true ∧ r.tracker = k

/-- It owns the tracker and has not ended. -/
def Needs (rs : Runtimes) (rt k : Nat) : Prop :=
  ∃ r, rs[rt]? = some r ∧ r.ownsTracker = true ∧ r.tracker = k ∧ r.status ≠ .ended

def Ticks (rs : Runtimes) (rt c : Nat) : Prop := ∃ r, rs[rt]? = some r ∧ r.clock = c

variable {rs rs' : Runtimes} {rt k c : Nat} {b : Bound}

theorem Binds.keeps (h : Binds rs rt b) : Keeps rs rt b := let ⟨r, hr, hb⟩ := h; ⟨r, hr, .inl hb⟩

theorem Leaves.keeps (h : Leaves rs rt b) : Keeps rs rt b := let ⟨r, hr, hb⟩ := h; ⟨r, hr, .inr hb⟩

theorem keeps_iff : Keeps rs rt b ↔ Binds rs rt b ∨ Leaves rs rt b := by
  constructor
  · rintro ⟨r, hr, hb | hb⟩
    · exact .inl ⟨r, hr, hb⟩
    · exact .inr ⟨r, hr, hb⟩
  · rintro (h | h)
    · exact h.keeps
    · exact h.keeps

theorem Owns.uses (h : Owns rs rt k) : Uses rs rt k := let ⟨r, hr, _, e⟩ := h; ⟨r, hr, e⟩

theorem Needs.owns (h : Needs rs rt k) : Owns rs rt k := let ⟨r, hr, ho, e, _⟩ := h; ⟨r, hr, ho, e⟩

theorem Uses.unique {k' : Nat} (h : Uses rs rt k) (h' : Uses rs rt k') : k = k' := by
  obtain ⟨r, hr, rfl⟩ := h
  obtain ⟨r', hr', rfl⟩ := h'
  cases hr.symm.trans hr'
  rfl

theorem Ticks.unique {c' : Nat} (h : Ticks rs rt c) (h' : Ticks rs rt c') : c = c' := by
  obtain ⟨r, hr, rfl⟩ := h
  obtain ⟨r', hr', rfl⟩ := h'
  cases hr.symm.trans hr'
  rfl

/-! ## Tables that are alike -/

variable {Q : Runtime Script → Runtime Script → Prop} {R : Bound → Bound → Prop}

/-- Runtime by runtime. -/
structure AlikeTables (Q : Runtime Script → Runtime Script → Prop) (rs rs' : Runtimes) : Prop where
  forth : ∀ {rt : Nat} {r : Runtime Script}, rs[rt]? = some r → ∃ r', rs'[rt]? = some r' ∧ Q r r'
  back : ∀ {rt : Nat} {r' : Runtime Script}, rs'[rt]? = some r' → ∃ r, rs[rt]? = some r ∧ Q r r'

theorem alike_modify (rs : Runtimes) (rt : Nat) {f : Runtime Script → Runtime Script} (hQ : ∀ r, Q r r)
    (hf : ∀ r, rs[rt]? = some r → Q r (f r)) : AlikeTables Q rs (rs.modify rt f) where
  forth {j r} hr := by
    refine ⟨if rt = j then f r else r, modify_eq_some.mpr ⟨r, hr, .refl _⟩, ?_⟩
    split
    · rename_i e; exact hf r (e ▸ hr)
    · exact hQ r
  back {j r'} hr := by
    obtain ⟨r, h₀, rfl⟩ := modify_eq_some.mp hr
    refine ⟨r, h₀, ?_⟩
    split
    · rename_i e; exact hf r (e ▸ h₀)
    · exact hQ r

theorem AlikeTables.mono {Q' : Runtime Script → Runtime Script → Prop} (h : AlikeTables Q rs rs')
    (hQ : ∀ r r', Q r r' → Q' r r') : AlikeTables Q' rs rs' where
  forth hr := let ⟨r', h', hq⟩ := h.forth hr; ⟨r', h', hQ _ _ hq⟩
  back hr := let ⟨r, h₀, hq⟩ := h.back hr; ⟨r, h₀, hQ _ _ hq⟩

/-- The runtimes have the same parts; one that ended stays so. -/
structure SameParts (r r' : Runtime Script) : Prop where
  clock : r'.clock = r.clock
  tracker : r'.tracker = r.tracker
  owns : r'.ownsTracker = r.ownsTracker
  ended : r.status = .ended → r'.status = .ended

theorem SameParts.rfl (r : Runtime Script) : SameParts r r := ⟨.refl _, .refl _, .refl _, id⟩

theorem alikeBound_parts {r r' : Runtime Script} (h : AlikeBound R r r') : SameParts r r' :=
  ⟨h.clock, h.tracker, h.owns, h.ended.mpr⟩

section Parts

variable (h : AlikeTables SameParts rs rs')
include h

theorem uses_iff : Uses rs' rt k ↔ Uses rs rt k := by
  constructor
  · rintro ⟨r', hr', e⟩
    obtain ⟨r, hr, hq⟩ := h.back hr'
    exact ⟨r, hr, hq.tracker ▸ e⟩
  · rintro ⟨r, hr, e⟩
    obtain ⟨r', hr', hq⟩ := h.forth hr
    exact ⟨r', hr', hq.tracker.trans e⟩

theorem owns_iff : Owns rs' rt k ↔ Owns rs rt k := by
  constructor
  · rintro ⟨r', hr', ho, e⟩
    obtain ⟨r, hr, hq⟩ := h.back hr'
    exact ⟨r, hr, hq.owns ▸ ho, hq.tracker ▸ e⟩
  · rintro ⟨r, hr, ho, e⟩
    obtain ⟨r', hr', hq⟩ := h.forth hr
    exact ⟨r', hr', hq.owns.trans ho, hq.tracker.trans e⟩

theorem needs_of (hn : Needs rs' rt k) : Needs rs rt k := by
  obtain ⟨r', hr', ho, e, hs⟩ := hn
  obtain ⟨r, hr, hq⟩ := h.back hr'
  exact ⟨r, hr, hq.owns ▸ ho, hq.tracker ▸ e, mt hq.ended hs⟩

theorem ticks_iff : Ticks rs' rt c ↔ Ticks rs rt c := by
  constructor
  · rintro ⟨r', hr', e⟩
    obtain ⟨r, hr, hq⟩ := h.back hr'
    exact ⟨r, hr, hq.clock ▸ e⟩
  · rintro ⟨r, hr, e⟩
    obtain ⟨r', hr', hq⟩ := h.forth hr
    exact ⟨r', hr', hq.clock.trans e⟩

end Parts

theorem binds_of (h : AlikeTables (AlikeBound R) rs rs') (hb : Binds rs' rt b) : ∃ b₀, Binds rs rt b₀ ∧ R b₀ b := by
  obtain ⟨r', hr', hb⟩ := hb
  obtain ⟨r, hr, hq⟩ := h.back hr'
  obtain ⟨b₀, h₀, hR⟩ := hq.bindings_of hb
  exact ⟨b₀, ⟨r, hr, h₀⟩, hR⟩

theorem binds_to (h : AlikeTables (AlikeBound R) rs rs') (hb : Binds rs rt b) : ∃ b', Binds rs' rt b' ∧ R b b' := by
  obtain ⟨r, hr, hb⟩ := hb
  obtain ⟨r', hr', hq⟩ := h.forth hr
  obtain ⟨b', h', hR⟩ := hq.bindings_to hb
  exact ⟨b', ⟨r', hr', h'⟩, hR⟩

theorem leaves_of (h : AlikeTables (Alike R) rs rs') (hb : Leaves rs' rt b) : ∃ b₀, Leaves rs rt b₀ ∧ R b₀ b := by
  obtain ⟨r', hr', hb⟩ := hb
  obtain ⟨r, hr, hq⟩ := h.back hr'
  obtain ⟨b₀, h₀, hR⟩ := hq.leaving_of hb
  exact ⟨b₀, ⟨r, hr, h₀⟩, hR⟩

theorem keeps_of (h : AlikeTables (Alike R) rs rs') (hb : Keeps rs' rt b) : ∃ b₀, Keeps rs rt b₀ ∧ R b₀ b := by
  obtain ⟨r', hr', hb⟩ := hb
  obtain ⟨r, hr, hq⟩ := h.back hr'
  obtain ⟨b₀, h₀, hR⟩ := hq.reaches_of hb
  exact ⟨b₀, ⟨r, hr, h₀⟩, hR⟩

theorem keeps_to (h : AlikeTables (Alike R) rs rs') (hb : Keeps rs rt b) : ∃ b', Keeps rs' rt b' ∧ R b b' := by
  obtain ⟨r, hr, hb⟩ := hb
  obtain ⟨r', hr', hq⟩ := h.forth hr
  obtain ⟨b', h', hR⟩ := hq.reaches_to hb
  exact ⟨b', ⟨r', hr', h'⟩, hR⟩

/-! ## Edits of one runtime -/

theorem parts_modify (rs : Runtimes) (rt : Nat) {f : Runtime Script → Runtime Script} (hf : ∀ r, SameParts r (f r)) :
    AlikeTables SameParts rs (rs.modify rt f) := alike_modify rs rt SameParts.rfl fun r _ => hf r

theorem with1_parts (rs : Runtimes) (rt : Nat) (b : Bound) : AlikeTables SameParts rs (rs.modify rt (·.with1 b)) :=
  parts_modify rs rt fun _ => ⟨.refl _, .refl _, .refl _, id⟩

theorem without_parts (rs : Runtimes) (rt id : Nat) : AlikeTables SameParts rs (rs.modify rt (·.without id)) :=
  parts_modify rs rt fun _ => ⟨.refl _, .refl _, .refl _, fun h => h⟩

theorem forget_parts (rs : Runtimes) (rt id : Nat) : AlikeTables SameParts rs (rs.modify rt (·.forget id)) :=
  parts_modify rs rt fun _ => ⟨.refl _, .refl _, .refl _, fun h => h⟩

theorem binds_modify {f : Runtime Script → Runtime Script} {rt' : Nat} :
    Binds (rs.modify rt f) rt' b ↔ ∃ r, rs[rt']? = some r ∧ b ∈ (if rt = rt' then f r else r).bindings := by
  constructor
  · rintro ⟨r', hr', hb⟩
    obtain ⟨r, hr, rfl⟩ := modify_eq_some.mp hr'
    exact ⟨r, hr, hb⟩
  · rintro ⟨r, hr, hb⟩
    exact ⟨_, modify_eq_some.mpr ⟨r, hr, rfl⟩, hb⟩

theorem leaves_modify {f : Runtime Script → Runtime Script} {rt' : Nat} :
    Leaves (rs.modify rt f) rt' b ↔ ∃ r, rs[rt']? = some r ∧ b ∈ (if rt = rt' then f r else r).leaving := by
  constructor
  · rintro ⟨r', hr', hb⟩
    obtain ⟨r, hr, rfl⟩ := modify_eq_some.mp hr'
    exact ⟨r, hr, hb⟩
  · rintro ⟨r, hr, hb⟩
    exact ⟨_, modify_eq_some.mpr ⟨r, hr, rfl⟩, hb⟩

/-- An edit that keeps a runtime's bindings. -/
theorem binds_modify_same {f : Runtime Script → Runtime Script} (hf : ∀ r, (f r).bindings = r.bindings) {rt' : Nat} :
    Binds (rs.modify rt f) rt' b ↔ Binds rs rt' b := by
  rw [binds_modify]
  refine exists_congr fun r => and_congr_right fun _ => ?_
  split
  · rw [hf]
  · exact Iff.rfl

theorem leaves_modify_same {f : Runtime Script → Runtime Script} (hf : ∀ r, (f r).leaving = r.leaving) {rt' : Nat} :
    Leaves (rs.modify rt f) rt' b ↔ Leaves rs rt' b := by
  rw [leaves_modify]
  refine exists_congr fun r => and_congr_right fun _ => ?_
  split
  · rw [hf]
  · exact Iff.rfl

/-- What an edit of one binding does to the rows that `s` reads of a runtime. -/
theorem rows_edit {id : Nat} {f : Bound → Bound} {s : Runtime Script → List Bound}
    (hs : ∀ r, s (r.edit id f) = (s r).map fun b => if b.id == id then f b else b) {b' : Bound} {rt' : Nat} :
    (∃ r, (rs.modify rt (·.edit id f))[rt']? = some r ∧ b' ∈ s r) ↔
      ∃ b, (∃ r, rs[rt']? = some r ∧ b ∈ s r) ∧ b' = if rt' = rt ∧ b.id = id then f b else b := by
  constructor
  · intro ⟨r', hr', hb⟩
    obtain ⟨r, hr, rfl⟩ := modify_eq_some.mp hr'
    by_cases e : rt = rt'
    · rw [if_pos e, hs] at hb
      obtain ⟨b₀, h₀, rfl⟩ := List.mem_map.mp hb
      exact ⟨b₀, ⟨r, hr, h₀⟩, by simp [e]⟩
    · rw [if_neg e] at hb
      exact ⟨b', ⟨r, hr, hb⟩, by simp [Ne.symm e]⟩
  · intro ⟨b₀, ⟨r, hr, h₀⟩, e⟩
    refine ⟨_, modify_eq_some.mpr ⟨r, hr, rfl⟩, ?_⟩
    by_cases e' : rt = rt'
    · rw [if_pos e', hs]
      exact List.mem_map.mpr ⟨b₀, h₀, by simp [e, e']⟩
    · rw [if_neg e', e, if_neg fun h => e' (Eq.symm h.1)]
      exact h₀

theorem binds_edit {id : Nat} {f : Bound → Bound} {b' : Bound} {rt' : Nat} :
    Binds (rs.modify rt (·.edit id f)) rt' b' ↔
      ∃ b, Binds rs rt' b ∧ b' = if rt' = rt ∧ b.id = id then f b else b := rows_edit fun _ => .refl _

theorem leaves_edit {id : Nat} {f : Bound → Bound} {b' : Bound} {rt' : Nat} :
    Leaves (rs.modify rt (·.edit id f)) rt' b' ↔
      ∃ b, Leaves rs rt' b ∧ b' = if rt' = rt ∧ b.id = id then f b else b := rows_edit fun _ => .refl _

theorem keeps_edit {id : Nat} {f : Bound → Bound} {b' : Bound} {rt' : Nat} :
    Keeps (rs.modify rt (·.edit id f)) rt' b' ↔
      ∃ b, Keeps rs rt' b ∧ b' = if rt' = rt ∧ b.id = id then f b else b := by
  rw [keeps_iff, binds_edit, leaves_edit]
  constructor
  · intro h
    rcases h with ⟨b, hb, e⟩ | ⟨b, hb, e⟩
    · exact ⟨b, hb.keeps, e⟩
    · exact ⟨b, hb.keeps, e⟩
  · intro ⟨b, hb, e⟩
    rcases keeps_iff.mp hb with hb | hb
    · exact .inl ⟨b, hb, e⟩
    · exact .inr ⟨b, hb, e⟩

theorem edit_parts (rs : Runtimes) (rt id : Nat) (f : Bound → Bound) :
    AlikeTables SameParts rs (rs.modify rt (·.edit id f)) :=
  parts_modify rs rt fun _ => ⟨.refl _, .refl _, .refl _, fun h => h⟩

theorem binds_with1 {r : Runtime Script} (hr : rs[rt]? = some r) {b' : Bound} {rt' : Nat} :
    Binds (rs.modify rt (·.with1 b)) rt' b' ↔ Binds rs rt' b' ∨ (rt' = rt ∧ b' = b) := by
  rw [binds_modify]
  constructor
  · rintro ⟨r', hr', hb⟩
    split at hb
    · rename_i e
      rcases Runtime.mem_with1.mp hb with hb | rfl
      · exact .inl ⟨r', hr', hb⟩
      · exact .inr ⟨e.symm, rfl⟩
    · exact .inl ⟨r', hr', hb⟩
  · rintro (⟨r', hr', hb⟩ | ⟨rfl, rfl⟩)
    · refine ⟨r', hr', ?_⟩
      split
      · exact Runtime.mem_with1.mpr (.inl hb)
      · exact hb
    · exact ⟨r, hr, by rw [if_pos rfl]; exact Runtime.mem_with1.mpr (.inr rfl)⟩

theorem leaves_with1 {b' : Bound} {rt' : Nat} : Leaves (rs.modify rt (·.with1 b)) rt' b' ↔ Leaves rs rt' b' :=
  leaves_modify_same (f := (·.with1 b)) fun _ => .refl _

theorem binds_without {id rt' : Nat} :
    Binds (rs.modify rt (·.without id)) rt' b ↔ Binds rs rt' b ∧ ¬(rt' = rt ∧ b.id = id) := by
  rw [binds_modify]
  constructor
  · rintro ⟨r, hr, hb⟩
    split at hb
    · obtain ⟨hb, hne⟩ := Runtime.mem_without.mp hb
      exact ⟨⟨r, hr, hb⟩, fun h => hne h.2⟩
    · rename_i e
      exact ⟨⟨r, hr, hb⟩, fun h => e h.1.symm⟩
  · rintro ⟨⟨r, hr, hb⟩, hne⟩
    refine ⟨r, hr, ?_⟩
    split
    · rename_i e
      exact Runtime.mem_without.mpr ⟨hb, fun h => hne ⟨e.symm, h⟩⟩
    · exact hb

theorem leaves_without {id rt' : Nat} (h : Leaves (rs.modify rt (·.without id)) rt' b) :
    Leaves rs rt' b ∨ (rt' = rt ∧ ∃ b₀, Binds rs rt b₀ ∧ b₀.id = id ∧ b = { b₀ with waiting := none }) := by
  obtain ⟨r, hr, hb⟩ := leaves_modify.mp h
  split at hb
  · rename_i e
    subst e
    rcases Runtime.leaving_without hb with hb | ⟨b₀, h₀, hid, rfl⟩
    · exact .inl ⟨r, hr, hb⟩
    · exact .inr ⟨rfl, b₀, ⟨r, hr, h₀⟩, hid, rfl⟩
  · exact .inl ⟨r, hr, hb⟩

theorem leaves_without_of {id rt' : Nat} (h : Leaves rs rt' b) : Leaves (rs.modify rt (·.without id)) rt' b := by
  obtain ⟨r, hr, hb⟩ := h
  refine leaves_modify.mpr ⟨r, hr, ?_⟩
  split
  · exact List.mem_append_left _ hb
  · exact hb

theorem leaves_forget {id rt' : Nat} :
    Leaves (rs.modify rt (·.forget id)) rt' b ↔ Leaves rs rt' b ∧ ¬(rt' = rt ∧ b.id = id) := by
  rw [leaves_modify]
  constructor
  · rintro ⟨r, hr, hb⟩
    split at hb
    · obtain ⟨hb, hne⟩ := List.mem_filter.mp hb
      exact ⟨⟨r, hr, hb⟩, fun h => by simp [h.2] at hne⟩
    · rename_i e
      exact ⟨⟨r, hr, hb⟩, fun h => e h.1.symm⟩
  · rintro ⟨⟨r, hr, hb⟩, hne⟩
    refine ⟨r, hr, ?_⟩
    split
    · rename_i e
      exact List.mem_filter.mpr ⟨hb, by simpa using fun h => hne ⟨e.symm, h⟩⟩
    · exact hb

/-! ## One more runtime -/

section Append

variable {r : Runtime Script} {rt' : Nat}

theorem exists_append {P : Runtime Script → Prop} :
    (∃ r', (rs ++ [r])[rt']? = some r' ∧ P r') ↔ (∃ r', rs[rt']? = some r' ∧ P r') ∨ (rt' = rs.length ∧ P r) := by
  constructor
  · rintro ⟨r', hr', hp⟩
    rcases append_eq_some.mp hr' with hr' | ⟨e, rfl⟩
    · exact .inl ⟨r', hr', hp⟩
    · exact .inr ⟨e, hp⟩
  · rintro (⟨r', hr', hp⟩ | ⟨e, hp⟩)
    · exact ⟨r', append_eq_some.mpr (.inl hr'), hp⟩
    · exact ⟨r, append_eq_some.mpr (.inr ⟨e, rfl⟩), hp⟩

theorem binds_append (h : r.bindings = []) : Binds (rs ++ [r]) rt' b ↔ Binds rs rt' b := by
  refine exists_append.trans (or_iff_left fun hb => ?_)
  have := hb.2
  rw [h] at this
  cases this

theorem leaves_append (h : r.leaving = []) : Leaves (rs ++ [r]) rt' b ↔ Leaves rs rt' b := by
  refine exists_append.trans (or_iff_left fun hb => ?_)
  have := hb.2
  rw [h] at this
  cases this

theorem uses_append : Uses (rs ++ [r]) rt' k ↔ Uses rs rt' k ∨ (rt' = rs.length ∧ r.tracker = k) := exists_append

theorem owns_append :
    Owns (rs ++ [r]) rt' k ↔ Owns rs rt' k ∨ (rt' = rs.length ∧ r.ownsTracker = true ∧ r.tracker = k) := exists_append

theorem ticks_append : Ticks (rs ++ [r]) rt' c ↔ Ticks rs rt' c ∨ (rt' = rs.length ∧ r.clock = c) := exists_append

end Append

end Eventful.Host
