import Eventful.Proofs.Host.Calls
import Eventful.Proofs.Host.Cascade

/-
  Eventful.Proofs.Host.Telling — the round that a write sets off.

  A write that is not refused stores what it stores, and then tells of the change, if there is
  one: the subscribers that stand there are called in their order, each once, whatever they
  do meanwhile (`Announced`, `gives_write`).
-/

namespace Eventful.Host

variable {α : Type} {i : Nat} {h h' : Host} {cs : List Call}

/-- The subscriber that is called, and the change that it is told of. -/
def Call.told? : Call → Option (Watcher × Change)
  | ⟨.watch w change, _, _, _⟩ => some (w, change)
  | _ => none

/-- The call leaves the scope unwritten. -/
def Call.OnlyReads (i : Nat) (c : Call) : Prop :=
  (c.after.scope i).data = (c.before.scope i).data ∧ (c.after.scope i).version = (c.before.scope i).version

/-- What calls in turn that only read leave, they find before each of them. -/
theorem InTurn.reads (ht : InTurn h cs h') (hs : ∀ c ∈ cs, c.OnlyReads i) :
    ((h'.scope i).data = (h.scope i).data ∧ (h'.scope i).version = (h.scope i).version) ∧
      ∀ c ∈ cs, (c.before.scope i).data = (h.scope i).data := by
  induction cs generalizing h with
  | nil =>
    cases ht
    exact ⟨⟨rfl, rfl⟩, List.forall_mem_nil _⟩
  | cons c cs ih =>
    obtain ⟨rfl, hrest⟩ := ht
    obtain ⟨⟨hdata, hversion⟩, hs⟩ := List.forall_mem_cons.mp hs
    obtain ⟨⟨hdata', hversion'⟩, hbefore⟩ := ih hrest hs
    refine ⟨⟨hdata'.trans hdata, hversion'.trans hversion⟩, List.forall_mem_cons.mpr ⟨rfl, fun c' hc' => ?_⟩⟩
    exact (hbefore c' hc').trans hdata

/-- A round tells every subscriber once, in order. -/
theorem gives_tellAll {change : Change} {ws : List (Nat × Watcher)} (hg : (tellAll change ws).Gives h cs () h') :
    cs.map Call.told? = ws.map (fun w => some (w.2, change)) ∧ InTurn h cs h' := by
  induction ws generalizing h cs with
  | nil =>
    obtain ⟨rfl, -, rfl⟩ := hg
    exact ⟨rfl, rfl⟩
  | cons w ws ih =>
    obtain ⟨⟨⟩, h₁, rest, rfl, hrest⟩ := hg
    obtain ⟨htold, hturn⟩ := ih hrest
    exact ⟨by rw [List.map_cons, htold]; rfl, rfl, hturn⟩

/-- The calls of a host in which `s` was stored, and the change told if there was one. -/
structure Announced (i : Nat) (s : Scope Watcher) (change : Option Change) (h : Host) (cs : List Call) (h' : Host) :
    Prop where
  told : cs.map Call.told? = change.toList.flatMap fun change => (h.scope i).subscribers.map fun w => some (w.2, change)
  /-- The subscribers find the value stored. -/
  inTurn : InTurn (h.setScope i s) cs h'

/-- Subscribers that only read leave the scope as it was stored. -/
theorem Announced.reads {s : Scope Watcher} {change : Option Change} (ht : Announced i s change h cs h')
    (hi : i < h.scopes.length) (hs : ∀ c ∈ cs, c.OnlyReads i) : (h'.scope i).data = s.data ∧ (h'.scope i).version = s.version := by
  have hscope : (h.setScope i s).scope i = s := scope_setScope hi
  have hreads := (ht.inTurn.reads hs).1
  rwa [hscope] at hreads

/-- A write that is not refused stores what it stores, and tells of it. -/
theorem gives_write {path : List String} {v : Value} {s : Scope Watcher} {change : Option Change} {r : Except Blocked Unit}
    (hw : (h.scope i).write path v = .ok (s, change)) (hg : (write i path v).Gives h cs r h') :
    r = .ok () ∧ Announced i s change h cs h' := by
  obtain ⟨-, -, hsubscribers, -⟩ := Scope.write_cases hw
  unfold write at hg
  rw [gives_get, hw] at hg
  cases change with
  | none =>
    obtain ⟨rfl, rfl, rfl⟩ := hg
    exact ⟨rfl, rfl, rfl⟩
  | some ch =>
    obtain ⟨⟨⟩, h₁, cs₁, cs₂, rfl, htell, rfl, rfl, rfl⟩ := gives_bind.mp (gives_first.mp hg)
    obtain ⟨htold, hturn⟩ := gives_tellAll htell
    rw [List.append_nil]
    exact ⟨rfl, by simpa [hsubscribers] using htold, hturn⟩

theorem runWith_refused {task : (κ : Kind) → Task κ → Host → Option (κ.Carrier × Host)} {path : List String} {v : Value}
    {b : Blocked} (hw : (h.scope i).write path v = .error b) : (write i path v).runWith task h = some (.error b, h) := by
  unfold write
  rw [runWith_get, hw]
  rfl

/-- The run of a procedure that tells a scope's subscribers gives up in one of them. -/
theorem gives_up_in_subscriber {p : Proc α} {changes : List Change} {depth : Nat} (hnone : p.run depth h = none)
    (htold : ∀ cs a h', p.Gives h cs a h' →
      cs.map Call.told? = changes.flatMap fun change => (h.scope i).subscribers.map fun w => some (w.2, change)) :
    ∃ w ∈ (h.scope i).subscribers, ∃ change ∈ changes, ∃ h₁, Task.run depth .unit (.watch w.2 change) h₁ = none := by
  obtain ⟨cs, κ, t, h₁, htask, -, hg⟩ := gives_until hnone
  obtain ⟨r⟩ : Nonempty κ.Carrier := inferInstance
  obtain ⟨rest, a, h', hg⟩ := hg r h₁
  have hmem : Call.told? ⟨t, h₁, r, h₁⟩ ∈
      changes.flatMap fun change => (h.scope i).subscribers.map fun w => some (w.2, change) := by
    rw [← htold _ _ _ hg]
    exact List.mem_map_of_mem (by simp)
  obtain ⟨change, hchange, w, hw, heq⟩ : ∃ change ∈ changes, ∃ w ∈ (h.scope i).subscribers,
      some (w.2, change) = Call.told? ⟨t, h₁, r, h₁⟩ := by
    simpa only [List.mem_flatMap, List.mem_map] using hmem
  cases t with
  | watch w' change' =>
    cases heq
    exact ⟨w, hw, change, hchange, h₁, htask⟩
  | _ => cases heq

end Eventful.Host
