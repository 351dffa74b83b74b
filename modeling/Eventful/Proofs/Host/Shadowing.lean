import Eventful.Proofs.Expr.Shadowing
import Eventful.Proofs.Host.Reporting

/-
  Eventful.Proofs.Host.Shadowing — locals before properties.

  With a scope that its subscribers do not write to, an evaluation comes to what its dialogue
  with the scope comes to (`gives_runOn`), and tells of the changes in their order.

  - `locals_shadow`: a property by the name of a local is neither read nor written, so nothing
    that an evaluation does depends on it.
-/

namespace Eventful.Host

open Eventful.Expr

variable {α : Type} {i : Nat} {h h' : Host} {cs : List Call}

/-- The calls tell of the changes, one change after the other. -/
inductive Recounts : List Change → List Call → Prop
  | nil : Recounts [] []
  | cons {change : Change} {changes : List Change} {block cs : List Call} :
    (∀ c ∈ block, ∃ w, c.told? = some (w, change)) → Recounts changes cs → Recounts (change :: changes) (block ++ cs)

theorem Announced.recounts {s : Scope Watcher} {change : Option Change} {cs' : List Call} {changes : List Change}
    (ha : Announced i s change h cs h') (ht : Recounts changes cs') : Recounts (change.toList ++ changes) (cs ++ cs') := by
  have htold := ha.told
  cases change with
  | none =>
    obtain rfl : cs = [] := List.map_eq_nil_iff.mp htold
    exact ht
  | some ch =>
    refine .cons (fun c hc => ?_) ht
    have hmem : c.told? ∈ cs.map Call.told? := List.mem_map_of_mem hc
    rw [htold] at hmem
    obtain ⟨w, -, hw⟩ : ∃ w ∈ (h.scope i).subscribers, some (w.2, ch) = c.told? := by simpa using hmem
    exact ⟨w.2, hw.symm⟩

/-- Writes to scopes of the same data and version. -/
theorem write_same {s s' : Scope Watcher} (hdata : s'.data = s.data) (hversion : s'.version = s.version)
    (path : List String) (v : Value) :
    (∃ b, s.write path v = .error b ∧ s'.write path v = .error b) ∨
      ∃ t t' change, s.write path v = .ok (t, change) ∧ s'.write path v = .ok (t', change) ∧
        t'.data = t.data ∧ t'.version = t.version := by
  cases path with
  | nil => exact .inr ⟨s, s', none, rfl, rfl, hdata, hversion⟩
  | cons key rest =>
    simp only [Scope.write, hdata]
    rcases Fields.write v key rest s.data with b | _ | ⟨fs, old⟩
    · exact .inl ⟨b, rfl, rfl⟩
    · exact .inr ⟨s, s', none, rfl, rfl, hdata, hversion⟩
    · dsimp only
      split
      · exact .inr ⟨_, _, _, rfl, rfl, rfl, hversion⟩
      · exact .inr ⟨_, _, _, rfl, rfl, rfl, congrArg (· + 1) hversion⟩

/-- Among subscribers that do not write, a dialogue comes to what it comes to with a scope
    alone, and tells of the changes. -/
theorem gives_runOn {d : Dialogue α} {a : α} {s : Scope Watcher} (hi : i < h.scopes.length)
    (hdata : s.data = (h.scope i).data) (hversion : s.version = (h.scope i).version)
    (hg : (converse i d).Gives h cs a h') (hs : ∀ c ∈ cs, c.Spares i) :
    a = (d.runOn s).1 ∧ (h'.scope i).data = (d.runOn s).2.1.data ∧ (h'.scope i).version = (d.runOn s).2.1.version ∧
      Recounts (d.runOn s).2.2 cs := by
  induction d generalizing h cs s with
  | done b =>
    obtain ⟨rfl, rfl, rfl⟩ := hg
    exact ⟨rfl, hdata.symm, hversion.symm, .nil⟩
  | ask name k ih =>
    unfold Dialogue.runOn
    rw [hdata]
    exact ih _ hi hdata hversion hg hs
  | tell path v k ih =>
    obtain ⟨r, h₁, cs₁, cs₂, rfl, hwrite, hrest⟩ := gives_bind.mp hg
    obtain ⟨hs₁, hs₂⟩ := List.forall_mem_append.mp hs
    unfold Dialogue.runOn
    rcases write_same hdata.symm hversion.symm path v with ⟨b, hb, hb'⟩ | ⟨t, t', change, ht, ht', hd, hv⟩
    · unfold write at hwrite
      rw [gives_get, hb'] at hwrite
      obtain ⟨rfl, rfl, rfl⟩ := hwrite
      rw [hb]
      exact ih _ hi hdata hversion hrest hs₂
    · obtain ⟨rfl, htold⟩ := gives_write ht' hwrite
      obtain ⟨hd₁, hv₁⟩ := htold.reads hi fun c hc => (hs₁ c hc).1
      have hi₁ : i < h₁.scopes.length := htold.inTurn.length (by rwa [length_setScope]) hs₁
      obtain ⟨ha, hdata', hversion', hchanges⟩ := ih _ hi₁ (hd.symm.trans hd₁.symm) (hv.symm.trans hv₁.symm) hrest hs₂
      rw [ht]
      exact ⟨ha, hdata', hversion', htold.recounts hchanges⟩

/-- An evaluation never asks a scope for a name that is a local, and gives no order for a path
    that begins with it. What the scope has by the name is left as it is, and nothing depends
    on it: the outcome, the changes, and what the scope has by other names afterwards are the
    same whatever that is. This is what an evaluation in a host comes to, unless a
    subscriber writes to the scope. -/
theorem locals_shadow (c : Cache) (source : String) (locals : Locals) (n : String) (hn : (locals.get? n).isSome = true) :
    let d := (c.evaluate source locals).1
    d.Deals (· ≠ n) (fun _ => True) ∧
    (∀ s : Scope Watcher, (d.runOn s).2.1.data.get? n = s.data.get? n) ∧
    (∀ s s' : Scope Watcher, AlikeBut n s s' → (d.runOn s').1 = (d.runOn s).1 ∧ (d.runOn s').2.2 = (d.runOn s).2.2 ∧
      AlikeBut n (d.runOn s).2.1 (d.runOn s').2.1) ∧
    ∀ (h : Host) (i : Nat), i < h.scopes.length → ∀ cs r h', (converse i d).Gives h cs r h' → (∀ c ∈ cs, c.Spares i) →
      r = (d.runOn (h.scope i)).1 ∧ (h'.scope i).data = (d.runOn (h.scope i)).2.1.data ∧
      (h'.scope i).version = (d.runOn (h.scope i)).2.1.version ∧ Recounts (d.runOn (h.scope i)).2.2 cs := by
  intro d
  have hdeals : d.Deals (· ≠ n) fun _ => True :=
    (deals_evaluate c source locals).mono (fun _ hfree => hfree.ne hn) fun _ _ => trivial
  refine ⟨hdeals, fun s => ?_, fun s s' h => ?_, fun h i hi cs r h' hg hs => gives_runOn hi rfl rfl hg hs⟩
  · exact (runOn_alike hdeals (alikeBut_rfl n s)).2.2.2
  · obtain ⟨hvalue, hchanges, halike, -⟩ := runOn_alike hdeals h
    exact ⟨hvalue, hchanges, halike⟩

/-- The program `a = c; c = a`, known to a cache. -/
def borrowing : Cache :=
  let span : Span := ⟨0, 0⟩
  let assign (t v : String) : Statement Span := .expression span (.assign span .plain (.name span t) (.name span v))
  ⟨[("a = c; c = a", ⟨span, [assign "a" "c", assign "c" "a"]⟩)]⟩

/-- The shown scope without its property `c`. -/
def nameless : Scope Watcher :=
  { shownScope.scope 0 with data := (Scope.ofValue (.object [("a", .object [("b", .text "old")])]) : Scope Watcher).data }

theorem nameless_alike : AlikeBut "c" nameless (shownScope.scope 0) := by
  refine ⟨fun name hne => ?_, rfl, rfl, rfl⟩
  have hmissing : (if "c" == name then some (Value.text "kept") else none) = none := if_neg (by simpa using hne.symm)
  exact congrArg (fun rest => if "a" == name then _ else rest) hmissing

theorem borrowing_shadowed : (Locals.get? "c" [("c", .text "local")]).isSome = true ∧
    AlikeBut "c" nameless (shownScope.scope 0) ∧
    ∃ cs h', (converse 0 (borrowing.evaluate "a = c; c = a" [("c", .text "local")]).1).Gives shownScope cs
        (.error (.constantName "c")) h' ∧ (∀ c ∈ cs, c.Spares 0) ∧
      (h'.scope 0).data.get? "c" = (shownScope.scope 0).data.get? "c" ∧
      ((borrowing.evaluate "a = c; c = a" [("c", .text "local")]).1.runOn nameless).1 = .error (.constantName "c") := by
  obtain ⟨-, hleft, hsame, hhost⟩ := locals_shadow borrowing "a = c; c = a" [("c", .text "local")] "c" rfl
  have hrun : (converse 0 (borrowing.evaluate "a = c; c = a" [("c", .text "local")]).1).run 3 shownScope =
      some (.error (.constantName "c"), _) := rfl
  obtain ⟨cs, hg, hcs⟩ := gives_of_run hrun
  have hspared : ∀ c ∈ cs, c.Spares 0 := by
    obtain ⟨⟨⟩, h₁, rest, rfl, rfl, -, -⟩ := hg
    have hafter := (Option.some.inj (hcs _ List.mem_cons_self)).symm
    exact List.forall_mem_singleton.mpr
      ⟨⟨congrArg (fun r => (r.2.scope 0).data) hafter, congrArg (fun r => (r.2.scope 0).version) hafter⟩,
        Nat.zero_lt_one.trans_eq (congrArg (fun r => r.2.scopes.length) hafter).symm⟩
  obtain ⟨hvalue, hdata, -, -⟩ := hhost shownScope 0 (by decide) cs _ _ hg hspared
  refine ⟨rfl, nameless_alike, cs, _, hg, hspared, ?_, ?_⟩
  · rw [hdata]
    exact hleft (shownScope.scope 0)
  · exact (hsame _ _ nameless_alike).1.symm.trans hvalue.symm

end Eventful.Host
