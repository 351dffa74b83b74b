import Eventful.Proofs.Host.Unfolding
import Mathlib.Data.List.Perm.Basic
import Mathlib.Data.List.Nodup

/-
  Eventful.Proofs.Host.Notices — in which order subscribers are told of changes.

  A subscriber that stands throughout is told of every change of its scope exactly once.
  It is told of them in the order in which they were applied, but for one case: a change
  that was made while somebody who stands before it was told of another reaches it before
  that other one.
-/

namespace Eventful.Host

open Page Binding

variable {α : Type} {i k id lo mid hi : Nat} {h h' : Host} {c d : Cascade} {w s t x y : Written}

/-! ## Who is told first -/

namespace Cascade

/-- The change `t` reaches the subscriber before `s` although `s` was applied first: it was
    made while somebody who stands before the subscriber was told of `s`. -/
def Overtakes (c : Cascade) (k : Nat) (t s : Written) : Prop := ∃ id < k, c.Within id s t

/-- The subscriber is to be told of `x` before `y`. -/
def Precedes (c : Cascade) (k : Nat) (x y : Written) : Prop :=
  c.Overtakes k x y ∨ (x.version < y.version ∧ ¬c.Overtakes k y x)

/-- In a part of a cascade the order is that of the whole. -/
theorem Precedes.of_part (h : d.Precedes k x y) (hin : ∀ id, d.Within id y x → c.Within id y x)
    (hback : ∀ id < k, c.Within id x y → d.Within id x y) : c.Precedes k x y := by
  rcases h with ⟨id, hid, hw⟩ | ⟨hlt, hnot⟩
  · exact .inl ⟨id, hid, hin id hw⟩
  · refine .inr ⟨hlt, ?_⟩
    rintro ⟨id, hid, hw⟩
    exact hnot ⟨id, hid, hback id hid hw⟩

/-- Between two versions of the scope, while the tellings of `due` are still to come: the
    changes are numbered by the versions, a change is made within a telling of a change
    or of one that is due, and the subscriber is told of such, in order. -/
structure Orderly (lo hi : Nat) (due : List (Nat × Written)) (k : Nat) (c : Cascade) : Prop where
  le : lo ≤ hi
  numbers : c.changes.map (·.version) = List.range' (lo + 1) (hi - lo)
  within : ∀ {id s t}, c.Within id s t → t ∈ c.changes ∧ ((id, s) ∈ due ∨ s ∈ c.changes)
  received : ∀ x ∈ c.received k, (k, x) ∈ due ∨ x ∈ c.changes
  ordered : (c.received k).Pairwise (c.Precedes k)

variable {due : List (Nat × Written)}

theorem Orderly.bounds (h : Orderly lo hi due k c) (hx : x ∈ c.changes) : lo < x.version ∧ x.version ≤ hi := by
  have hv : x.version ∈ c.changes.map (·.version) := List.mem_map_of_mem hx
  rw [h.numbers, List.mem_range'_1] at hv
  have := h.le
  omega

theorem orderly_idle (v : Nat) (due : List (Nat × Written)) (k : Nat) : Orderly v v due k .idle where
  le := Nat.le_refl v
  numbers := by simp
  within hw := hw.elim
  received _ hx := by cases hx
  ordered := .nil

theorem numbers_append {l l' : List Written} (hle : lo ≤ mid) (hle' : mid ≤ hi)
    (hl : l.map (·.version) = List.range' (lo + 1) (mid - lo))
    (hl' : l'.map (·.version) = List.range' (mid + 1) (hi - mid)) :
    (l ++ l').map (·.version) = List.range' (lo + 1) (hi - lo) := by
  have hmid : mid + 1 = lo + 1 + (mid - lo) := by omega
  have hlen : hi - lo = (mid - lo) + (hi - mid) := by omega
  rw [List.map_append, hl, hl', hlen, hmid, List.range'_append_1]

/-- What comes first and what comes then, in a whole: what they are told is in order. What
    is still due in the second part was applied before either, and the first part was made
    while somebody who stands before was told of it. -/
theorem Orderly.parts {e : Cascade} (told : Nat → Written → Prop) (hc : Orderly lo mid [] k c)
    (hd : Orderly mid hi due k d)
    (hwithin : ∀ {id s t}, e.Within id s t ↔ (told id s ∧ t ∈ c.changes) ∨ c.Within id s t ∨ d.Within id s t)
    (htold : ∀ {id s}, told id s → s.version ≤ lo)
    (hdue : ∀ {id s}, (id, s) ∈ due → ∃ id' < id, told id' s) :
    (c.received k ++ d.received k).Pairwise (e.Precedes k) := by
  have hle := hc.le
  have hleft : ∀ x ∈ c.received k, x ∈ c.changes := fun x hx => (hc.received x hx).resolve_left List.not_mem_nil
  have hold : ∀ {id s}, told id s → s ∉ c.changes := by
    intro id s hs hm
    have := htold hs
    have := hc.bounds hm
    omega
  -- The versions tell the changes of both parts apart.
  have hapart : ∀ x, x ∈ c.changes → x ∈ d.changes → False := by
    intro x hx hx'
    have := hc.bounds hx
    have := hd.bounds hx'
    omega
  have hafter : ∀ y ∈ d.received k, y ∉ c.changes := by
    intro y hy hm
    rcases hd.received y hy with hy | hy
    · obtain ⟨id', -, hs⟩ := hdue hy
      exact hold hs hm
    · exact hapart y hm hy
  rw [List.pairwise_append]
  refine ⟨?_, ?_, ?_⟩
  · refine hc.ordered.imp_of_mem fun {x y} hx hy hxy => hxy.of_part (fun _ hin => hwithin.mpr (.inr (.inl hin))) ?_
    intro id _ hin
    rcases hwithin.mp hin with ⟨hs, -⟩ | hin | hin
    · exact absurd (hleft x hx) (hold hs)
    · exact hin
    · exact (hapart y (hleft y hy) (hd.within hin).1).elim
  · refine hd.ordered.imp_of_mem fun {x y} _ hy hxy => hxy.of_part (fun _ hin => hwithin.mpr (.inr (.inr hin))) ?_
    intro id _ hin
    rcases hwithin.mp hin with ⟨-, hm⟩ | hin | hin
    · exact absurd hm (hafter y hy)
    · exact absurd (hc.within hin).1 (hafter y hy)
    · exact hin
  · intro x hx y hy
    rcases hd.received y hy with hy | hy
    · obtain ⟨id, hlt, hs⟩ := hdue hy
      exact .inl ⟨id, hlt, hwithin.mpr (.inl ⟨hs, hleft x hx⟩)⟩
    · have hbx := hc.bounds (hleft x hx)
      have hby := hd.bounds hy
      refine .inr ⟨by omega, ?_⟩
      rintro ⟨id, _, hin⟩
      rcases hwithin.mp hin with ⟨-, hm⟩ | hin | hin
      · exact hapart y hm hy
      · exact hapart y (hc.within hin).1 hy
      · rcases (hd.within hin).2 with hs | hm
        · obtain ⟨id', -, hs⟩ := hdue hs
          exact hold hs (hleft x hx)
        · exact hapart x (hleft x hx) hm

theorem Orderly.append (hc : Orderly lo mid [] k c) (hd : Orderly mid hi [] k d) : Orderly lo hi [] k (c ++ d) where
  le := Nat.le_trans hc.le hd.le
  numbers := by
    rw [changes_append]
    exact numbers_append hc.le hd.le hc.numbers hd.numbers
  within {id s t} hin := by
    rw [changes_append, List.mem_append, List.mem_append]
    rcases within_append.mp hin with hin | hin
    · obtain ⟨ht, hs⟩ := hc.within hin
      exact ⟨.inl ht, .inr (.inl (hs.resolve_left List.not_mem_nil))⟩
    · obtain ⟨ht, hs⟩ := hd.within hin
      exact ⟨.inr ht, .inr (.inr (hs.resolve_left List.not_mem_nil))⟩
  received x hx := by
    rw [changes_append, List.mem_append]
    rw [received_append, List.mem_append] at hx
    rcases hx with hx | hx
    · exact .inr (.inl ((hc.received x hx).resolve_left List.not_mem_nil))
    · exact .inr (.inr ((hd.received x hx).resolve_left List.not_mem_nil))
  ordered := by
    rw [received_append]
    refine hc.parts (fun _ _ => False) hd ?_ False.elim fun hs => absurd hs List.not_mem_nil
    intro id s t
    rw [within_append, false_and, false_or]

/-- A subscriber is told of a write that was applied before, and then those who stand after it. -/
theorem Orderly.tell (hw : w.version ≤ lo) (hdue : ∀ {id' s}, (id', s) ∈ due → id < id' ∧ w = s)
    (hc : Orderly lo mid [] k c) (hd : Orderly mid hi due k d) : Orderly lo hi ((id, w) :: due) k (.tell id w c d) where
  le := Nat.le_trans hc.le hd.le
  numbers := by
    rw [changes_tell]
    exact numbers_append hc.le hd.le hc.numbers hd.numbers
  within {id' s t} hin := by
    rw [changes_tell, List.mem_append, List.mem_append, List.mem_cons]
    rcases hin with ⟨rfl, rfl, ht⟩ | hin | hin
    · exact ⟨.inl ht, .inl (.inl rfl)⟩
    · obtain ⟨ht, hs⟩ := hc.within hin
      exact ⟨.inl ht, .inr (.inl (hs.resolve_left List.not_mem_nil))⟩
    · obtain ⟨ht, hs⟩ := hd.within hin
      exact ⟨.inr ht, hs.elim (fun hs => .inl (.inr hs)) fun hs => .inr (.inr hs)⟩
  received x hx := by
    rw [changes_tell, List.mem_append, List.mem_cons]
    simp only [Cascade.received, List.mem_append] at hx
    rcases hx with hx | hx | hx
    · split at hx
      · rename_i hid
        rw [List.mem_singleton.mp hx, hid]
        exact .inl (.inl rfl)
      · cases hx
    · exact .inr (.inl ((hc.received x hx).resolve_left List.not_mem_nil))
    · exact (hd.received x hx).elim (fun hx => .inl (.inr hx)) fun hx => .inr (.inr hx)
  ordered := by
    have hle := hc.le
    have hboth : (c.received k ++ d.received k).Pairwise ((Cascade.tell id w c d).Precedes k) := by
      refine hc.parts (fun id' s => id = id' ∧ w = s) hd ?_ ?_ ?_
      · intro id' s t
        rw [and_assoc]
        rfl
      · rintro id' s ⟨-, rfl⟩
        exact hw
      · intro id' s hs
        exact ⟨id, (hdue hs).1, rfl, (hdue hs).2⟩
    by_cases hid : id = k
    · subst hid
      simp only [Cascade.received, if_true, List.singleton_append]
      refine List.pairwise_cons.mpr ⟨fun y hy => .inr ⟨?_, ?_⟩, hboth⟩
      · -- Whoever stands after it is told later, so all it is told of now was applied later.
        rcases List.mem_append.mp hy with hy | hy
        · have := hc.bounds ((hc.received y hy).resolve_left List.not_mem_nil)
          omega
        · have := hd.bounds ((hd.received y hy).resolve_left fun hs => Nat.lt_irrefl _ (hdue hs).1)
          omega
      · rintro ⟨id', hlt, ⟨rfl, -⟩ | hin | hin⟩
        · exact Nat.lt_irrefl _ hlt
        · have := hc.bounds ((hc.within hin).2.resolve_left List.not_mem_nil)
          omega
        · rcases (hd.within hin).2 with hs | hm
          · exact Nat.lt_asymm hlt (hdue hs).1
          · have := hd.bounds hm
            omega
    · simp only [Cascade.received, if_neg hid, List.nil_append]
      exact hboth

theorem Orderly.write (hsome : w.change.isSome = true) (hv : w.version = lo + 1) (hdue : ∀ {id s}, (id, s) ∈ due → s = w)
    (hc : Orderly w.version hi due k c) : Orderly lo hi [] k (.write w c .idle) := by
  rw [hv] at hc
  have hchanges : (Cascade.write w c .idle).changes = w :: c.changes := by
    rw [changes_write, if_pos hsome, changes_idle, List.append_nil, List.singleton_append]
  have hle := hc.le
  refine ⟨by omega, ?_, ?_, ?_, ?_⟩
  · have hlen : hi - lo = (hi - (lo + 1)) + 1 := by omega
    rw [hchanges, List.map_cons, hc.numbers, hv, hlen, List.range'_succ]
  · rintro id s t (hin | hin)
    · obtain ⟨ht, hs⟩ := hc.within hin
      rw [hchanges]
      refine ⟨List.mem_cons_of_mem _ ht, .inr ?_⟩
      rcases hs with hs | hs
      · rw [hdue hs]
        exact List.mem_cons_self
      · exact List.mem_cons_of_mem _ hs
    · exact hin.elim
  · intro x hx
    simp only [Cascade.received, List.append_nil] at hx
    rw [hchanges]
    rcases hc.received x hx with hx | hx
    · rw [hdue hx]
      exact .inr List.mem_cons_self
    · exact .inr (List.mem_cons_of_mem _ hx)
  · simp only [Cascade.received, List.append_nil]
    exact hc.ordered.imp fun hxy => hxy.of_part (fun _ hin => .inl hin) fun _ _ hin => hin.resolve_right id

/-- A write that changed nothing tells nobody. -/
theorem Orderly.silent (hnone : w.change = none) (hv : w.version = lo) (hc : Orderly w.version hi [] k c) :
    Orderly lo hi [] k (.write w c .idle) := by
  rw [hv] at hc
  have hchanges : (Cascade.write w c .idle).changes = c.changes := by
    rw [changes_write, hnone, changes_idle, List.append_nil]
    rfl
  refine ⟨hc.le, hchanges ▸ hc.numbers, ?_, ?_, ?_⟩
  · rintro id s t (hin | hin)
    · rw [hchanges]
      exact hc.within hin
    · exact hin.elim
  · intro x hx
    simp only [Cascade.received, List.append_nil] at hx
    rw [hchanges]
    exact hc.received x hx
  · simp only [Cascade.received, List.append_nil]
    exact hc.ordered.imp fun hxy => hxy.of_part (fun _ hin => .inl hin) fun _ _ hin => hin.resolve_right id

end Cascade

/-! ## What unfolds is in order -/

namespace Job

/-- The tellings that are still to come. -/
def due : Job α → List (Nat × Written)
  | .proc _ => []
  | .round w ws => ws.map fun x => (x.1, w)
  | .session _ => []

/-- What the subscriber is still to be told. -/
def owed (k : Nat) : Job α → List Written
  | .proc _ => []
  | .round w ws => List.replicate ((ws.map (·.1)).count k) w
  | .session _ => []

/-- A round is about a write that was applied, and goes by the order of the subscribers. -/
def Fits (v : Nat) : Job α → Prop
  | .proc _ => True
  | .round w ws => w.version ≤ v ∧ (ws.map (·.1)).Pairwise (· < ·)
  | .session _ => True

end Job

variable {j : Job α} {a : α}

theorem Unfolds.later (hu : Unfolds i j h a h' c) (hi : i < h.scopes.length) (hn : (h.scope i).Numbered) :
    (h.scope i).Later (h'.scope i) := by
  induction hu with
  | set hs => exact (hs.amends hi).later hn
  | bind hu _ ih ih' =>
    have hl := ih hi hn
    exact hl.trans (ih' (Nat.lt_of_lt_of_le hi hu.length_le) hl.numbered)
  | call _ ih => exact ih hi hn
  | @write _ _ s _ h _ _ hw _ ih =>
    obtain ⟨-, -, hsubscribers, hnext⟩ := Scope.write_cases hw
    have hl := hn.later_same hsubscribers hnext
    rw [scope_setScope hi] at ih
    exact hl.trans (ih (Nat.lt_of_lt_of_eq hi length_setScope.symm) hl.numbered)
  | tell _ hu _ ih ih' =>
    have hl := ih hi hn
    exact hl.trans (ih' (Nat.lt_of_lt_of_le hi hu.length_le) hl.numbered)
  | act hu _ ih ih' =>
    have hl : (_ : Scope Watcher).Later _ := ih hi hn
    exact hl.trans (ih' (Nat.lt_of_lt_of_le hi hu.length_le) hl.numbered)
  | _ => exact .rfl hn

theorem Unfolds.orderly (hu : Unfolds i j h a h' c) (hi : i < h.scopes.length) (hn : (h.scope i).Numbered)
    (hj : j.Fits (h.scope i).version) (k : Nat) :
    c.Orderly (h.scope i).version (h'.scope i).version j.due k := by
  induction hu with
  | set hs =>
    rw [(hs.amends hi).data.2]
    exact Cascade.orderly_idle _ _ _
  | bind hu _ ih ih' =>
    exact (ih hi hn trivial).append (ih' (Nat.lt_of_lt_of_le hi hu.length_le) (hu.later hi hn).numbered trivial)
  | call _ ih => exact ih hi hn trivial
  | @write _ _ s change h _ _ hw _ ih =>
    obtain ⟨-, hversion, hsubscribers, hnext⟩ := Scope.write_cases hw
    have hns : s.Numbered := (hn.later_same hsubscribers hnext).numbered
    rw [scope_setScope hi] at ih
    have hc := ih (Nat.lt_of_lt_of_eq hi length_setScope.symm) hns
    cases change with
    | none => exact Cascade.Orderly.silent rfl hversion (hc ⟨Nat.le_refl _, .nil⟩)
    | some ch =>
      refine Cascade.Orderly.write rfl hversion ?_ (hc ⟨Nat.le_refl _, hns.ordered⟩)
      intro id x hx
      obtain ⟨y, -, e⟩ := List.mem_map.mp hx
      cases e
      rfl
  | tell _ hu _ ih ih' =>
    have hd := ih' (Nat.lt_of_lt_of_le hi hu.length_le) (hu.later hi hn).numbered
    have hc := ih hi hn trivial
    obtain ⟨hbefore, hafter⟩ := List.pairwise_cons.mp hj.2
    refine hc.tell hj.1 ?_ (hd ⟨Nat.le_trans hj.1 hc.le, hafter⟩)
    intro id' x hx
    obtain ⟨y, hy, e⟩ := List.mem_map.mp hx
    cases e
    exact ⟨hbefore _ (List.mem_map_of_mem hy), rfl⟩
  | act hu _ ih ih' =>
    have hc := ih hi hn trivial
    exact hc.append (ih' (Nat.lt_of_lt_of_le hi hu.length_le) (hu.later hi hn).numbered trivial)
  | _ => exact Cascade.orderly_idle _ _ _

/-! ## Everything is told once -/

/-- Between two parts, a subscriber that stands at the beginning and at the end stands as well. -/
theorem Unfolds.stands_between {β : Type} {j' : Job β} {b : β} {h₁ : Host} {c' : Cascade} (hu : Unfolds i j h a h₁ c)
    (hu' : Unfolds i j' h₁ b h' c') (hi : i < h.scopes.length) (hn : (h.scope i).Numbered)
    (hold : k < (h.scope i).nextId) (hk : k ∈ (h'.scope i).ids) :
    i < h₁.scopes.length ∧ (h₁.scope i).Numbered ∧ k < (h₁.scope i).nextId ∧ k ∈ (h₁.scope i).ids := by
  have hl := hu.later hi hn
  have hi' := Nat.lt_of_lt_of_le hi hu.length_le
  have hold' := Nat.lt_of_lt_of_le hold hl.issued
  exact ⟨hi', hl.numbered, hold', (hu'.later hi' hl.numbered).stood k hk hold'⟩

/-- A subscriber that stands throughout is told of every change once. -/
theorem Unfolds.received_perm (hu : Unfolds i j h a h' c) (hi : i < h.scopes.length) (hn : (h.scope i).Numbered)
    (hold : k < (h.scope i).nextId) (hk : k ∈ (h'.scope i).ids) : (c.received k).Perm (j.owed k ++ c.changes) := by
  induction hu with
  | bind hu hu' ih ih' =>
    obtain ⟨hi', hn', hold', hk'⟩ := hu.stands_between hu' hi hn hold hk
    rw [Cascade.received_append, Cascade.changes_append]
    exact (ih hi hn hold hk').append (ih' hi' hn' hold' hk)
  | call _ ih => exact ih hi hn hold hk
  | @write _ _ s change h _ c hw hu ih =>
    obtain ⟨-, -, hsubscribers, hnext⟩ := Scope.write_cases hw
    have hl := hn.later_same hsubscribers hnext
    have hi' : i < (h.setScope i s).scopes.length := Nat.lt_of_lt_of_eq hi length_setScope.symm
    have hlater := hu.later hi'
    rw [scope_setScope hi] at ih hlater
    have hold' := Nat.lt_of_lt_of_le hold hl.issued
    have hc := ih hi' hl.numbered hold' hk
    rw [Cascade.changes_write, Cascade.changes_idle, List.append_nil]
    simp only [Cascade.received, List.append_nil]
    cases change with
    | none => exact hc
    | some ch =>
      have hcount : (s.subscribers.map (·.1)).count k = 1 :=
        List.count_eq_one_of_mem (hl.numbered.ordered.imp Nat.ne_of_lt) ((hlater hl.numbered).stood k hk hold')
      simp only [Job.owed, Option.isSome_some, if_true, hcount] at hc
      exact hc
  | @tell w x ws _ _ _ _ during rest _ hu hu' ih ih' =>
    obtain ⟨hi', hn', hold', hk'⟩ := hu.stands_between hu' hi hn hold hk
    have hparts := (ih hi hn hold hk').append (ih' hi' hn' hold' hk)
    have hrest : (during.received k ++ rest.received k).Perm
        (Job.owed k (.round w ws) ++ (during.changes ++ rest.changes)) :=
      hparts.trans (List.perm_append_comm_assoc _ _ _)
    rw [Cascade.changes_tell]
    by_cases hid : x.1 = k
    · simp only [Cascade.received, Job.owed, hid, if_true, List.map_cons, List.count_cons_self, List.replicate_succ]
      exact hrest.cons w
    · simp only [Cascade.received, Job.owed, hid, if_false, List.map_cons, List.nil_append, List.count_cons_of_ne hid]
      exact hrest
  | act hu hu' ih ih' =>
    obtain ⟨hi', hn', hold', hk'⟩ := hu.stands_between hu' hi hn hold hk
    rw [Cascade.received_append, Cascade.changes_append]
    exact (ih hi hn hold hk').append (ih' hi' hn' hold' hk)
  | _ => exact .nil

end Eventful.Host
