import Eventful.Proofs.Expr.Reading
import Eventful.Proofs.Host.Guards
import Eventful.Proofs.Host.Telling

/-
  Eventful.Proofs.Host.Assigning — evaluations that leave no half of a change.

  To hold a dialogue with a scope that answers it is to look at the host (`given_converse`).
  So an evaluation that only asks does nothing to the host and calls nobody. One that comes
  to an order either has it refused, and the host is as it was, or the scope is written
  and its subscribers are told, once each, if the write changed anything (`gives_order`).

  - `evaluation_all_or_nothing`: what an evaluation that only reads does, and what a single
    assignment or update does.
-/

namespace Eventful.Host

open Eventful.Expr

variable {α μ : Type} {i : Nat} {h h' : Host} {cs : List Call}

/-! ## Looking -/

theorem given_gives {p : Proc α} {a : α} : (p.given h).Gives h cs a h' ↔ p.Gives h cs a h' := by
  induction p with
  | get k ih => exact ih h
  | _ => exact Iff.rfl

theorem given_runWith (task : (κ : Kind) → Task κ → Host → Option (κ.Carrier × Host)) (p : Proc α) (h : Host) :
    (p.given h).runWith task h = p.runWith task h := by
  induction p with
  | get k ih => exact ih h
  | _ => rfl

theorem given_converse {d d' : Dialogue α} (hd : d.Reaches (h.scope i) d') :
    (converse i d).given h = (converse i d').given h := by
  induction hd with
  | refl => rfl
  | ask _ ih => exact ih

theorem run_of_answers {m : Eval α} {o : Except Fault α} (ho : Answers (h.scope i) m o) :
    (converse i m.run).run 0 h = some (o, h) := by
  unfold Proc.run
  rw [← given_runWith, given_converse ho]
  rfl

/-! ## Orders -/

/-- A write to the path was done, with the calls that it led to. -/
structure Wrote (i : Nat) (path : List String) (changes : List Change) (h : Host) (cs : List Call) (h' : Host) : Prop where
  once : changes.length ≤ 1
  told : cs.map Call.told? = changes.flatMap fun change => (h.scope i).subscribers.map fun w => some (w.2, change)
  data : (∀ c ∈ cs, c.OnlyReads i) → Scope.AgreeBut path (h.scope i).snapshot (h'.scope i).snapshot
  version : (∀ c ∈ cs, c.OnlyReads i) → (h'.scope i).version = (h.scope i).version + changes.length

/-- An order that is not refused writes the scope, tells of the change if there is one, and
    has its value. -/
theorem gives_order {path : List String} {v u : Value} {s : Scope Watcher} {change : Option Change} {r : Outcome}
    (hi : i < h.scopes.length) (hw : (h.scope i).write path v = .ok (s, change))
    (hg : (converse i (order path v u).run).Gives h cs r h') : r = .ok u ∧ Wrote i path change.toList h cs h' := by
  obtain ⟨-, hversion, -, -⟩ := Scope.write_cases hw
  have hagree := Scope.agreeBut_of_write hw
  obtain ⟨o, h₁, cs₁, cs₂, rfl, hwrite, hrest⟩ := gives_bind.mp hg
  obtain ⟨rfl, htold⟩ := gives_write hw hwrite
  obtain ⟨rfl, rfl, rfl⟩ := hrest
  rw [List.append_nil]
  refine ⟨rfl, by cases change <;> simp, htold.told, fun hs => ?_, fun hs => ?_⟩
  · rw [Scope.snapshot, Scope.snapshot, (htold.reads hi hs).1]
    exact hagree
  · exact (htold.reads hi hs).2.trans hversion

/-- An order that is refused does nothing. -/
theorem run_of_refused {path : List String} {v u : Value} {b : Blocked} (hw : (h.scope i).write path v = .error b) :
    (converse i (order path v u).run).run 0 h = some (.error (.blocked b), h) :=
  runWith_bind.mpr ⟨_, _, runWith_refused hw, rfl⟩

/-! ## Evaluations -/

/-- What an expression without assignments and updates comes to, a value or a fault, it
    comes to without a call, and the host stays as it is. An assignment or an update whose
    computed keys and right-hand side are such expressions either fails in the same way, or
    its target denotes a path. Whatever its subscribers do, it then comes back with the one
    value, unless one of them does not come back: every subscriber is called as often as the
    write grew the version, which is at most once. If none of these calls writes the scope,
    its data are what they were but for what lies behind the path, and its version grew by
    no more. -/
theorem evaluation_all_or_nothing (h : Host) (i : Nat) (hi : i < h.scopes.length) (locals : Locals) (e : Term μ) :
    (e.Reads → ∃ r, (converse i (eval locals e).run).run 0 h = some (r, h)) ∧
    (e.WritesOnce → (∃ f, (converse i (eval locals e).run).run 0 h = some (.error f, h)) ∨
      ∃ t path u changes, e.target? = some t ∧ Denotes locals (h.scope i) t path ∧
        (∀ cs r h', (converse i (eval locals e).run).Gives h cs r h' → r = .ok u ∧ Wrote i path changes h cs h') ∧
        ∀ depth, (converse i (eval locals e).run).run depth h = none →
          ∃ w ∈ (h.scope i).subscribers, ∃ change ∈ changes, ∃ h₁,
            Task.run depth .unit (.watch w.2 change) h₁ = none) := by
  constructor
  · intro hr
    obtain ⟨o, ho⟩ : Settles (h.scope i) (eval locals e) := settles_eval hr
    exact ⟨o, run_of_answers ho⟩
  · intro hw
    rcases orders_once (h.scope i) locals hw with ⟨f, hf⟩ | ⟨t, path, v, u, ht, hd, hreach⟩
    · exact .inl ⟨f, run_of_answers hf⟩
    · have hsame := given_converse hreach
      cases hwrite : (h.scope i).write path v with
      | error b =>
        refine .inl ⟨.blocked b, ?_⟩
        unfold Proc.run
        rw [← given_runWith, hsame, given_runWith]
        exact run_of_refused hwrite
      | ok p =>
        obtain ⟨s, change⟩ := p
        have hgives : ∀ cs r h', (converse i (eval locals e).run).Gives h cs r h' →
            r = .ok u ∧ Wrote i path change.toList h cs h' := by
          intro cs r h' hg
          rw [← given_gives, hsame, given_gives] at hg
          exact gives_order hi hwrite hg
        exact .inr ⟨t, path, u, change.toList, ht, hd, hgives, fun depth hnone =>
          gives_up_in_subscriber hnone fun cs r h' hg => (hgives cs r h' hg).2.told⟩

/-- A scope with a subscriber that shows what it is told. -/
def shownScope : Host :=
  let start := Host.new "" .browser [.object [("a", .object [("b", .text "old")]), ("c", .text "kept")]]
  (play 1 [.subscribe 0 none (.mk "show" [])] start []).1.getD start

/-- The assignment `a[k] = c`, with `k` bound to the key. -/
def keyedAssignment : Term Unit := .assign () .plain (.index () (.name () "a") (.name () "k")) (.name () "c")

theorem keyedAssignment_wrote : keyedAssignment.WritesOnce ∧
    ∃ t path changes cs u h', keyedAssignment.target? = some t ∧ Denotes [("k", .text "b")] (shownScope.scope 0) t path ∧
      (converse 0 (eval [("k", .text "b")] keyedAssignment).run).run 3 shownScope = some (.ok u, h') ∧
      (converse 0 (eval [("k", .text "b")] keyedAssignment).run).Gives shownScope cs (.ok u) h' ∧
      Wrote 0 path changes shownScope cs h' ∧ ∀ c ∈ cs, c.OnlyReads 0 := by
  have hreads (n : String) : (Term.name () n).Reads := .mk rfl (List.forall_mem_nil _)
  have honce : keyedAssignment.WritesOnce := .assign () .plain (.index () (.name () "a") (hreads "k")) (hreads "c")
  obtain ⟨-, hwrites⟩ := evaluation_all_or_nothing shownScope 0 (by decide) [("k", .text "b")] keyedAssignment
  have hrun : (converse 0 (eval [("k", .text "b")] keyedAssignment).run).run 3 shownScope = some (.ok (.text "kept"), _) := rfl
  obtain ⟨cs, hg, hcs⟩ := gives_of_run hrun
  have hspared : ∀ c ∈ cs, c.OnlyReads 0 := by
    obtain ⟨⟨⟩, h₁, rest, rfl, rfl, -, -⟩ := hg
    have hafter := (Option.some.inj (hcs _ List.mem_cons_self)).symm
    exact List.forall_mem_singleton.mpr
      ⟨congrArg (fun r => (r.2.scope 0).data) hafter, congrArg (fun r => (r.2.scope 0).version) hafter⟩
  rcases hwrites honce with ⟨f, hf⟩ | ⟨t, path, u, changes, ht, hd, hgives, -⟩
  · cases hf
  · obtain ⟨hvalue, hwrote⟩ := hgives _ _ _ hg
    cases hvalue
    exact ⟨honce, t, path, changes, cs, _, _, ht, hd, hrun, hg, hwrote, hspared⟩

end Eventful.Host
