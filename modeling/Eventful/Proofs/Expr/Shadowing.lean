import Eventful.Expr.Cache
import Eventful.Proofs.Expr.Dealing
import Eventful.Proofs.Scope.Storing

/-
  Eventful.Proofs.Expr.Shadowing — names that are locals.

  A name that is a local is never asked of the scope, and no order is given for a path that
  begins with it (`deals_evaluate`). So the dialogue keeps what the scope has by that name, and
  goes the same way with any other scope that differs in it alone (`runOn_alike`).
-/

namespace Eventful.Expr

variable {α σ : Type} {n : String} {locals : Locals}

/-- The evaluation of a source text asks for no local, and gives no order for a path that
    begins with one. -/
theorem deals_evaluate (c : Cache) (source : String) (locals : Locals) :
    (c.evaluate source locals).1.Deals (Free locals) fun _ => True := by
  unfold Cache.evaluate
  split
  · rename_i p c' hp
    exact (heeds_statements locals p.body .undefined).mono (fun _ hfree => hfree) fun _ _ => trivial
  · trivial

theorem Free.ne {name : String} (h : Free locals name) (hn : (locals.get? n).isSome = true) : name ≠ n := by
  rintro rfl
  rw [h] at hn
  cases hn

/-! ## Scopes that differ in a name -/

/-- Two scopes that agree but for what they have by the name. -/
structure AlikeBut (n : String) (s s' : Scope σ) : Prop where
  others : ∀ name, name ≠ n → s'.data.get? name = s.data.get? name
  version : s'.version = s.version
  subscribers : s'.subscribers = s.subscribers
  nextId : s'.nextId = s.nextId

/-- A write depends on what it finds by its first key, and changes what is there. -/
theorem write_depends (v : Value) (key : String) (rest : List String) (held : Option Value) :
    ∃ w : Except Blocked (Option (Value × Value)), ∀ fs : Fields, fs.get? key = held →
      Fields.write v key rest fs = w.map fun x => x.map fun p => (fs.put key p.1, p.2) := by
  cases rest with
  | nil =>
    refine ⟨.ok (some (v, held.getD .undefined)), fun fs hget => ?_⟩
    rw [Fields.write, hget]
    rfl
  | cons next rest =>
    cases held with
    | none =>
      refine ⟨.error ⟨.undefined, (next :: rest).getLast (by simp)⟩, fun fs hget => ?_⟩
      rw [Fields.write, hget]
      rfl
    | some holder =>
      cases holder with
      | object inner =>
        refine ⟨(Fields.write v next rest inner).map fun x => x.map fun p => (.object p.1, p.2), fun fs hget => ?_⟩
        simp only [Fields.write, hget]
        rcases Fields.write v next rest inner with b | _ | ⟨inner', old⟩ <;> rfl
      | undefined =>
        refine ⟨.error ⟨.undefined, (next :: rest).getLast (by simp)⟩, fun fs hget => ?_⟩
        rw [Fields.write, hget]
        rfl
      | null =>
        refine ⟨.error ⟨.null, (next :: rest).getLast (by simp)⟩, fun fs hget => ?_⟩
        rw [Fields.write, hget]
        rfl
      | boolean | number | text =>
        refine ⟨.ok none, fun fs hget => ?_⟩
        rw [Fields.write, hget]
        rfl

/-- What a write elsewhere does to two scopes that agree but for a name. -/
inductive SameWrite (n : String) (s s' : Scope σ) :
    Except Blocked (Scope σ × Option Change) → Except Blocked (Scope σ × Option Change) → Prop
  | refused (b : Blocked) : SameWrite n s s' (.error b) (.error b)
  | done {t t' : Scope σ} (change : Option Change) : AlikeBut n t t' → t.data.get? n = s.data.get? n →
    SameWrite n s s' (.ok (t, change)) (.ok (t', change))

theorem AlikeBut.put {s s' : Scope σ} {key : String} (h : AlikeBut n s s') (v : Value) :
    ∀ name, name ≠ n → (s'.data.put key v).get? name = (s.data.put key v).get? name := by
  intro name hne
  by_cases hkey : name = key
  · rw [hkey, Fields.get?_put_self, Fields.get?_put_self]
  · rw [Fields.get?_put_of_ne hkey, Fields.get?_put_of_ne hkey]
    exact h.others name hne

theorem AlikeBut.write {s s' : Scope σ} {path : List String} (h : AlikeBut n s s') (hp : path.head? ≠ some n) (v : Value) :
    SameWrite n s s' (s.write path v) (s'.write path v) := by
  cases path with
  | nil => exact .done none h rfl
  | cons key rest =>
    have hkey : n ≠ key := fun heq => hp (congrArg some heq.symm)
    obtain ⟨w, hw⟩ := write_depends v key rest (s.data.get? key)
    simp only [Scope.write, hw s.data rfl, hw s'.data (h.others key hkey.symm)]
    rcases w with b | _ | ⟨u, old⟩
    · exact .refused b
    · exact .done none h rfl
    · have hkeeps : (s.data.put key u).get? n = s.data.get? n := Fields.get?_put_of_ne hkey u s.data
      simp only [Except.map, Option.map_some]
      split
      · exact .done none ⟨h.put u, h.version, h.subscribers, h.nextId⟩ hkeeps
      · exact .done _ ⟨h.put u, congrArg (· + 1) h.version, h.subscribers, h.nextId⟩ hkeeps

theorem alikeBut_rfl (n : String) (s : Scope σ) : AlikeBut n s s := ⟨fun _ _ => rfl, rfl, rfl, rfl⟩

/-- Dialogues that deal with other names come to the same with either scope, by the same changes, and
    leave what the scopes have by the name. -/
theorem runOn_alike {P : α → Prop} {d : Dialogue α} (hd : d.Deals (· ≠ n) P) {s s' : Scope σ} (h : AlikeBut n s s') :
    (d.runOn s').1 = (d.runOn s).1 ∧ (d.runOn s').2.2 = (d.runOn s).2.2 ∧ AlikeBut n (d.runOn s).2.1 (d.runOn s').2.1 ∧
      (d.runOn s).2.1.data.get? n = s.data.get? n := by
  induction d generalizing s s' with
  | done a => exact ⟨rfl, rfl, h, rfl⟩
  | ask name k ih =>
    simp only [Dialogue.runOn, h.others name hd.1]
    exact ih _ (hd.2 _) h
  | tell path v k ih =>
    obtain ⟨⟨name, hname, hne⟩, hd⟩ := hd
    have hhead : path.head? ≠ some n := by
      rw [Option.mem_def.mp hname]
      exact fun heq => hne (Option.some.inj heq)
    have hw := h.write hhead v
    simp only [Dialogue.runOn]
    generalize s.write path v = w at hw ⊢
    generalize s'.write path v = w' at hw ⊢
    cases hw with
    | refused b => exact ih _ (hd _) h
    | done change ht hkeeps =>
      obtain ⟨hvalue, hchanges, halike, hname⟩ := ih (.ok ()) (hd _) ht
      exact ⟨hvalue, congrArg (change.toList ++ ·) hchanges, halike, hname.trans hkeeps⟩

end Eventful.Expr
