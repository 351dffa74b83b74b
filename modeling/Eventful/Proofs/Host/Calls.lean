import Eventful.Host.Run

/-
  Eventful.Proofs.Host.Calls — the calls that a procedure makes.

  A procedure is judged with callbacks that may do anything: a call comes back with any
  result, in any host (`Proc.Gives`). What a procedure does in a run is a case of that
  (`gives_of_run`). If the run gives up, the calls until then are the first of such a case
  all the same, whatever the one that gave up might have come back with (`gives_until`).
-/

namespace Eventful.Host

open Page

/-- A call: the host it was made in, what it came back with, and the host it left. -/
structure Call where
  {kind : Kind}
  task : Task kind
  before : Host
  result : kind.Carrier
  after : Host

variable {α β : Type} {κ : Kind} {h h' : Host} {cs : List Call}

/-- From a host, the procedure makes the calls in order and comes back with a result. -/
def Proc.Gives : Proc α → Host → List Call → α → Host → Prop
  | .done a, h, cs, b, h' => cs = [] ∧ b = a ∧ h' = h
  | .get k, h, cs, b, h' => (k h).Gives h cs b h'
  | .set h₁ k, _, cs, b, h' => k.Gives h₁ cs b h'
  | .call t k, h, cs, b, h' => ∃ r h₁ rest, cs = ⟨t, h, r, h₁⟩ :: rest ∧ (k r).Gives h₁ rest b h'

/-- The calls lead from one host to another; before, between and after them the host changes
    as `R` says. -/
def Between (R : Host → Host → Prop) : Host → List Call → Host → Prop
  | h, [], h' => R h h'
  | h, c :: cs, h' => R h c.before ∧ Between R c.after cs h'

/-- The calls are made one after the other, and nothing else is done. -/
abbrev InTurn : Host → List Call → Host → Prop := Between (· = ·)

/-! ## The parts of a procedure -/

theorem gives_bind {p : Proc α} {f : α → Proc β} {b : β} :
    (p >>= f).Gives h cs b h' ↔
      ∃ a h₁ cs₁ cs₂, cs = cs₁ ++ cs₂ ∧ p.Gives h cs₁ a h₁ ∧ (f a).Gives h₁ cs₂ b h' := by
  induction p generalizing h cs with
  | done a =>
    constructor
    · exact fun hf => ⟨a, h, [], cs, rfl, ⟨rfl, rfl, rfl⟩, hf⟩
    · rintro ⟨_, _, _, cs₂, rfl, ⟨rfl, rfl, rfl⟩, hf⟩
      exact hf
  | get k ih => exact ih h
  | set h₁ k ih => exact ih
  | call t k ih =>
    constructor
    · rintro ⟨r, h₁, rest, rfl, hk⟩
      obtain ⟨a, h₂, cs₁, cs₂, rfl, hp, hf⟩ := (ih r).mp hk
      exact ⟨a, h₂, _ :: cs₁, cs₂, rfl, ⟨r, h₁, cs₁, rfl, hp⟩, hf⟩
    · rintro ⟨a, h₂, _, cs₂, rfl, ⟨r, h₁, cs₁, rfl, hp⟩, hf⟩
      exact ⟨r, h₁, cs₁ ++ cs₂, rfl, (ih r).mpr ⟨a, h₂, cs₁, cs₂, rfl, hp, hf⟩⟩

@[simp] theorem gives_get {f : Host → Proc α} {a : α} :
    (get >>= f).Gives h cs a h' ↔ (f h).Gives h cs a h' := Iff.rfl

theorem gives_first {f : Host → Host} {k : PUnit → Proc α} {a : α} :
    (modify f >>= k).Gives h cs a h' ↔ (k ()).Gives (f h) cs a h' := Iff.rfl

@[simp] theorem gives_call {t : Task κ} {k : κ.Carrier → Proc α} {a : α} :
    (call t >>= k).Gives h cs a h' ↔
      ∃ r h₁ rest, cs = ⟨t, h, r, h₁⟩ :: rest ∧ (k r).Gives h₁ rest a h' := Iff.rfl

/-- One of the calls that are made in two parts. -/
theorem split_append {xs ys xs₁ xs₂ : List α} {x : α} (h : xs ++ ys = xs₁ ++ x :: xs₂) :
    (∃ xs₃, xs = xs₁ ++ x :: xs₃) ∨ ∃ xs₃, xs₁ = xs ++ xs₃ ∧ ys = xs₃ ++ x :: xs₂ := by
  rcases List.append_eq_append_iff.mp h with ⟨zs, rfl, rfl⟩ | ⟨zs, rfl, he⟩
  · exact .inr ⟨zs, rfl, rfl⟩
  · cases zs with
    | nil => exact .inr ⟨[], by simp, he.symm⟩
    | cons z zs =>
      cases he
      exact .inl ⟨zs, rfl⟩

/-! ## The end of a completion -/

/-- What is left of a completion once the outcome is dealt with. -/
def windUp (rt id : Nat) (once : Bool) (e : Event) : Proc Event := do
  if once then
    modify fun h => (h.unbind rt id).2
  modify fun h => (h.endEvaluation rt id).endIfIdle rt
  return e

theorem gives_windUp {rt id : Nat} {once : Bool} {e e' : Event} (hg : (windUp rt id once e).Gives h cs e' h') :
    cs = [] ∧ e' = e := by
  unfold windUp at hg
  split at hg
  · exact ⟨hg.1, hg.2.1⟩
  · exact ⟨hg.1, hg.2.1⟩

/-! ## Runs -/

/-- The calls of a procedure that was run, with what running them came to. -/
theorem gives_of_runWith {task : (κ : Kind) → Task κ → Host → Option (κ.Carrier × Host)} {p : Proc α} {a : α}
    (e : p.runWith task h = some (a, h')) :
    ∃ cs, p.Gives h cs a h' ∧ ∀ c ∈ cs, task c.kind c.task c.before = some (c.result, c.after) := by
  induction p generalizing h with
  | done b =>
    cases e
    exact ⟨[], ⟨rfl, rfl, rfl⟩, fun _ hc => by cases hc⟩
  | get k ih => exact ih h e
  | set h₁ k ih => exact ih e
  | call t k ih =>
    simp only [Proc.runWith] at e
    split at e
    · cases e
    · rename_i r h₁ htask
      obtain ⟨cs, hg, hcs⟩ := ih r e
      exact ⟨_ :: cs, ⟨r, h₁, cs, rfl, hg⟩, List.forall_mem_cons.mpr ⟨htask, hcs⟩⟩

theorem gives_of_run {depth : Nat} {p : Proc α} {a : α} (e : p.run depth h = some (a, h')) :
    ∃ cs, p.Gives h cs a h' ∧ ∀ c ∈ cs, Task.run depth c.kind c.task c.before = some (c.result, c.after) :=
  gives_of_runWith e

instance (κ : Kind) : Nonempty κ.Carrier :=
  match κ with
  | .unit => ⟨()⟩
  | .event => ⟨.click⟩
  | .outcome => ⟨.ok .undefined⟩
  | .count => ⟨0⟩
  | .answer => ⟨.nothing⟩

/-- If its calls come back, a procedure does. -/
theorem gives_something (p : Proc α) (h : Host) : ∃ cs a h', p.Gives h cs a h' := by
  induction p generalizing h with
  | done a => exact ⟨[], a, h, rfl, rfl, rfl⟩
  | get k ih => exact ih h h
  | set h₁ k ih => exact ih h₁
  | @call κ t k ih =>
    obtain ⟨r⟩ : Nonempty κ.Carrier := inferInstance
    obtain ⟨cs, a, h', hg⟩ := ih r h
    exact ⟨_, a, h', r, h, cs, rfl, hg⟩

/-- The calls of a procedure whose run gave up, up to the one that did. -/
theorem gives_until {depth : Nat} {p : Proc α} (e : p.run depth h = none) :
    ∃ (cs : List Call) (κ : Kind) (t : Task κ) (h₁ : Host), Task.run depth κ t h₁ = none ∧
      (∀ c ∈ cs, Task.run depth c.kind c.task c.before = some (c.result, c.after)) ∧
      ∀ r h₂, ∃ rest a h', p.Gives h (cs ++ ⟨t, h₁, r, h₂⟩ :: rest) a h' := by
  unfold Proc.run at e
  induction p generalizing h with
  | done a => cases e
  | get k ih => exact ih h e
  | set h₁ k ih => exact ih e
  | @call κ t k ih =>
    simp only [Proc.runWith] at e
    split at e
    · rename_i htask
      refine ⟨[], κ, t, h, htask, fun _ hc => (by cases hc), fun r h₂ => ?_⟩
      obtain ⟨rest, a, h', hg⟩ := gives_something (k r) h₂
      exact ⟨rest, a, h', r, h₂, rest, rfl, hg⟩
    · rename_i r h₁ htask
      obtain ⟨cs, κ', t', h₂, hnone, hcs, hrest⟩ := ih r e
      refine ⟨⟨t, h, r, h₁⟩ :: cs, κ', t', h₂, hnone, List.forall_mem_cons.mpr ⟨htask, hcs⟩, fun r' h₃ => ?_⟩
      obtain ⟨rest, a, h', hg⟩ := hrest r' h₃
      exact ⟨rest, a, h', r, h₁, _, rfl, hg⟩

end Eventful.Host
