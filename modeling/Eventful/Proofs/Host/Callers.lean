import Eventful.Proofs.Host.Calls
import Eventful.Proofs.Host.Contract

/-
  Eventful.Proofs.Host.Callers — who calls whom.

  Every task of a session but the session's own actions was called by the last task that
  has not come back (`session_placed`), after other calls that have (`Spans`). Which tasks
  a task can call is read off its procedure.
-/

namespace Eventful.Host

open Page Binding

variable {α β : Type} {κ κ₀ : Kind} {h h' h₀ : Host} {cs : List Call} {tr : History} {t : Task κ} {t₀ : Task κ₀}

/-! ## Calls in a history -/

/-- The calls came back one after the other, and this happened meanwhile. -/
inductive Spans : List Call → History → Prop
  | nil : Spans [] []
  | snoc {cs : List Call} {before inner : History} (c : Call) : Spans cs before → Nested inner →
    Spans (cs ++ [c]) (.ends c.task c.result c.after :: (inner ++ .begins c.task c.before :: before))

theorem Spans.mem (hs : Spans cs tr) {c : Call} (hc : c ∈ cs) :
    .begins c.task c.before ∈ tr ∧ .ends c.task c.result c.after ∈ tr := by
  induction hs with
  | nil => cases hc
  | snoc c' _ _ ih =>
    rcases List.mem_append.mp hc with hc | hc
    · obtain ⟨hb, he⟩ := ih hc
      exact ⟨List.mem_cons_of_mem _ (List.mem_append_right _ (List.mem_cons_of_mem _ hb)),
        List.mem_cons_of_mem _ (List.mem_append_right _ (List.mem_cons_of_mem _ he))⟩
    · rw [List.mem_singleton.mp hc]
      exact ⟨List.mem_cons_of_mem _ (List.mem_append_right _ List.mem_cons_self), List.mem_cons_self⟩

/-- After the calls the procedure calls the task in a host, whatever that comes back with. -/
def Proc.Makes (p : Proc α) (h : Host) (cs : List Call) (t : Task κ) (h₁ : Host) : Prop :=
  ∀ r h₂, ∃ rest a h', p.Gives h (cs ++ ⟨t, h₁, r, h₂⟩ :: rest) a h'

/-- The task was called by one that has not come back: it began last of all such, and the
    calls that it made since have come back. -/
def CalledBy (t₀ : Task κ₀) (h₀ : Host) (t : Task κ) (h : Host) (tr : History) : Prop :=
  ∃ cs inner before, tr = inner ++ .begins t₀ h₀ :: before ∧ Spans cs inner ∧ t₀.body.Makes h₀ cs t h

def Task.IsAct : {κ : Kind} → Task κ → Prop
  | _, .act _ => True
  | _, _ => False

/-- A task that begins was called by another, or is an action; one that ends has made its
    calls, and what it came back with is what they came to. -/
def Moment.Placed : Moment → History → Prop
  | .begins t h, tr => t.IsAct ∨ ∃ (κ₀ : Kind) (t₀ : Task κ₀) (h₀ : Host), CalledBy t₀ h₀ t h tr
  | .ends t r h', tr =>
    ∃ h cs inner before, tr = inner ++ .begins t h :: before ∧ Spans cs inner ∧ t.body.Gives h cs r h'

def Placed : History → Prop
  | [] => True
  | m :: tr => m.Placed tr ∧ Placed tr

theorem Placed.drop {later : History} (hp : Placed (later ++ tr)) : Placed tr := by
  induction later with
  | nil => exact hp
  | cons m later ih => exact ih hp.2

def placing : Contract where
  fair _ := True
  pre t h tr := (Moment.begins t h).Placed tr ∧ Placed tr
  post _ _ _ _ _ tr' := Placed tr'
  kept := Placed
  kept_begins hp := hp
  kept_ends hp _ := hp

/-- What is left of a task's procedure, as the history has it, makes the rest of its calls. -/
theorem meets_placing (p : Proc κ₀.Carrier) {inner before : History} (hp : Placed (inner ++ .begins t₀ h₀ :: before))
    (hs : Spans cs inner) (hrest : ∀ {rest r h'}, p.Gives h rest r h' → t₀.body.Gives h₀ (cs ++ rest) r h') :
    p.Meets placing h (inner ++ .begins t₀ h₀ :: before) fun r h' tr' => Placed (.ends t₀ r h' :: tr') := by
  induction p generalizing h cs inner with
  | done r =>
    have hg : t₀.body.Gives h₀ cs r h := List.append_nil cs ▸ hrest ⟨rfl, rfl, rfl⟩
    exact ⟨⟨h₀, cs, inner, before, rfl, hs, hg⟩, hp⟩
  | get k ih => exact ih h hp hs hrest
  | set h₁ k ih => exact ih hp hs hrest
  | call t k ih =>
    have hmakes : t₀.body.Makes h₀ cs t h := by
      intro r h₂
      obtain ⟨rest, r₀, h', hg⟩ := gives_something (k r) h₂
      exact ⟨rest, r₀, h', hrest ⟨r, h₂, rest, rfl, hg⟩⟩
    refine ⟨⟨.inr ⟨_, t₀, h₀, cs, inner, before, rfl, hs, hmakes⟩, hp⟩, fun r h₁ tr₁ hp₁ hcl _ => ?_⟩
    obtain ⟨during, hn, rfl⟩ := hcl
    have e : .ends t r h₁ :: (during ++ .begins t h :: (inner ++ .begins t₀ h₀ :: before)) =
        (.ends t r h₁ :: (during ++ .begins t h :: inner)) ++ .begins t₀ h₀ :: before := by simp
    rw [e] at hp₁ ⊢
    refine ih r hp₁ (.snoc ⟨t, h, r, h₁⟩ hs hn) fun {rest r' h'} hg => ?_
    rw [List.append_assoc]
    exact hrest ⟨r, h₁, rest, rfl, hg⟩

theorem placing_holds : placing.Holds :=
  fun t h tr hp _ => meets_placing t.body (show Placed ([] ++ .begins t h :: tr) from hp) .nil id

theorem session_placed (depth : Nat) (as : List Action) (start : Host) : Placed (play depth as start []).2 :=
  play_kept placing_holds (fun _ tr => Placed tr) (fun hp _ => ⟨.inl trivial, hp⟩) (fun hp _ => hp) depth as start []
    trivial trivial fun _ _ => trivial

end Eventful.Host
