import Eventful.Proofs.Host.History

/-
  Eventful.Proofs.Host.Contract — what tasks promise each other.

  A contract says what every task may rely on when it begins (`pre`), what it promises
  when it ends (`post`), and what a run is assumed to keep to (`fair`), all with the
  history in view. A procedure meets the contract (`Proc.Meets`) if it does so whatever
  its calls come back with. If the body of every task meets it, a run keeps to it however
  deep callbacks nest and wherever it stops (`record_kept`, `play_kept`).
-/

namespace Eventful.Host

variable {α β : Type} {κ : Kind}

structure Contract where
  fair : Moment → Prop
  pre : {κ : Kind} → Task κ → Host → History → Prop
  post : {κ : Kind} → Task κ → Host → History → κ.Carrier → Host → History → Prop
  /-- What holds of the history at every moment. -/
  kept : History → Prop
  kept_begins : ∀ {κ : Kind} {t : Task κ} {h : Host} {tr : History}, pre t h tr → kept (.begins t h :: tr)
  kept_ends : ∀ {κ : Kind} {t : Task κ} {h : Host} {tr : History} {r : κ.Carrier} {h' : Host} {tr' : History},
    post t h tr r h' tr' → Closes t h tr r h' tr' → kept tr'

/-- From a host and a history the procedure comes back, if it does, as `Q` says. -/
def Proc.Meets (S : Contract) : Proc α → Host → History → (α → Host → History → Prop) → Prop
  | .done a, h, tr, Q => Q a h tr
  | .get k, h, tr, Q => (k h).Meets S h tr Q
  | .set h' k, _, tr, Q => k.Meets S h' tr Q
  | .call t k, h, tr, Q =>
    S.pre t h tr ∧ ∀ r h' tr', S.post t h tr r h' tr' → Closes t h tr r h' tr' → S.fair (.ends t r h') →
      (k r).Meets S h' tr' Q

variable {S : Contract}

theorem Proc.Meets.mono {p : Proc α} {h : Host} {tr : History} {Q Q' : α → Host → History → Prop}
    (hp : p.Meets S h tr Q) (hQ : ∀ a h tr, Q a h tr → Q' a h tr) : p.Meets S h tr Q' := by
  induction p generalizing h tr with
  | done a => exact hQ _ _ _ hp
  | get k ih => exact ih h hp
  | set h' k ih => exact ih hp
  | call t k ih => exact ⟨hp.1, fun r h' tr' hr hc hf => ih r (hp.2 r h' tr' hr hc hf)⟩

theorem Proc.Meets.forall {ι : Type} [Nonempty ι] {p : Proc α} {h : Host} {tr : History}
    {Q : ι → α → Host → History → Prop} (hp : ∀ i, p.Meets S h tr (Q i)) :
    p.Meets S h tr fun a h' tr' => ∀ i, Q i a h' tr' := by
  induction p generalizing h tr with
  | done a => exact hp
  | get k ih => exact ih h hp
  | set h' k ih => exact ih hp
  | call t k ih =>
    exact ⟨‹Nonempty ι›.elim fun i => (hp i).1, fun r h' tr' hr hc hf => ih r fun i => (hp i).2 r h' tr' hr hc hf⟩

/-! ## The parts of a procedure -/

theorem meets_procBind {p : Proc α} {f : α → Proc β} {h : Host} {tr : History} {Q : β → Host → History → Prop} :
    (p.bind f).Meets S h tr Q ↔ p.Meets S h tr fun a h' tr' => (f a).Meets S h' tr' Q := by
  induction p generalizing h tr with
  | done a => exact Iff.rfl
  | get k ih => exact ih h
  | set h' k ih => exact ih
  | call t k ih =>
    exact and_congr Iff.rfl (forall_congr' fun r => forall_congr' fun h' => forall_congr' fun tr' =>
      imp_congr Iff.rfl (imp_congr Iff.rfl (imp_congr Iff.rfl (ih r))))

@[simp] theorem meets_bind {p : Proc α} {f : α → Proc β} {h : Host} {tr : History} {Q : β → Host → History → Prop} :
    (p >>= f).Meets S h tr Q ↔ p.Meets S h tr fun a h' tr' => (f a).Meets S h' tr' Q := meets_procBind

@[simp] theorem meets_pure {a : α} {h : Host} {tr : History} {Q : α → Host → History → Prop} :
    (pure a : Proc α).Meets S h tr Q ↔ Q a h tr := Iff.rfl

@[simp] theorem meets_get {h : Host} {tr : History} {Q : Host → Host → History → Prop} :
    (get : Proc Host).Meets S h tr Q ↔ Q h h tr := Iff.rfl

@[simp] theorem meets_set {h h' : Host} {tr : History} {Q : PUnit → Host → History → Prop} :
    (set h' : Proc PUnit).Meets S h tr Q ↔ Q () h' tr := Iff.rfl

@[simp] theorem meets_modify {f : Host → Host} {h : Host} {tr : History} {Q : PUnit → Host → History → Prop} :
    (modify f : Proc PUnit).Meets S h tr Q ↔ Q () (f h) tr := Iff.rfl

@[simp] theorem meets_change {f : Host → α × Host} {h : Host} {tr : History} {Q : α → Host → History → Prop} :
    (change f).Meets S h tr Q ↔ Q (f h).1 (f h).2 tr := Iff.rfl

@[simp] theorem meets_answer {f : Host → Answer} {h : Host} {tr : History} {Q : Answer → Host → History → Prop} :
    (answer f).Meets S h tr Q ↔ Q (f h) h tr := Iff.rfl

theorem meets_call {t : Task κ} {h : Host} {tr : History} {Q : κ.Carrier → Host → History → Prop} :
    (call t).Meets S h tr Q ↔
      S.pre t h tr ∧ ∀ r h' tr', S.post t h tr r h' tr' → Closes t h tr r h' tr' → S.fair (.ends t r h') →
        Q r h' tr' := Iff.rfl

/-! ## Runs -/

/-- The body of every task meets the contract. -/
def Contract.Holds (S : Contract) : Prop :=
  ∀ {κ : Kind} (t : Task κ) (h : Host) (tr : History), S.pre t h tr → S.fair (.begins t h) →
    t.body.Meets S h (.begins t h :: tr) fun r h' tr' => S.post t h tr r h' (.ends t r h' :: tr')

/-- What is known of a record: the history is kept, and a result is as promised. -/
def Good (S : Contract) (Q : α → Host → History → Prop) (res : Option (α × Host) × History) : Prop :=
  S.kept res.2 ∧ ∀ a h', res.1 = some (a, h') → Q a h' res.2

theorem good_recordWith {task : (κ : Kind) → Task κ → Host → History → Option (κ.Carrier × Host) × History}
    (hg : ∀ κ t h tr, tr <:+ (task κ t h tr).2)
    (hn : ∀ κ t h tr r h', (task κ t h tr).1 = some (r, h') → Closes t h tr r h' (task κ t h tr).2)
    (ht : ∀ κ t h tr, S.pre t h tr → (∀ m ∈ (task κ t h tr).2, S.fair m) → Good S (S.post t h tr) (task κ t h tr))
    {p : Proc α} {h : Host} {tr : History} {Q : α → Host → History → Prop} (hk : S.kept tr) (hp : p.Meets S h tr Q)
    (hf : ∀ m ∈ (p.recordWith task h tr).2, S.fair m) : Good S Q (p.recordWith task h tr) := by
  induction p generalizing h tr with
  | done a => exact ⟨hk, fun a' h' e => by cases e; exact hp⟩
  | get k ih => exact ih h hk hp hf
  | set h' k ih => exact ih hk hp hf
  | call t k ih =>
    simp only [Proc.recordWith] at hf ⊢
    have hc := ht _ t h tr hp.1
    have hclosed := hn _ t h tr
    rcases htask : task _ t h tr with ⟨_ | ⟨r, h'⟩, tr'⟩
    · rw [htask] at hc hf
      exact ⟨(hc hf).1, fun a h' e => by cases e⟩
    · rw [htask] at hf
      -- What follows the call only adds to the history, so the call was fair as well.
      have hsub := recordWith_grows hg (k r) h' tr'
      have hc := hc (by rw [htask]; exact fun m hm => hf m (hsub.subset hm))
      rw [htask] at hc hclosed
      have hcl := hclosed r h' rfl
      obtain ⟨inner, -, rfl⟩ := id hcl
      exact ih r hc.1 (hp.2 r h' _ (hc.2 r h' rfl) hcl (hf _ (hsub.subset List.mem_cons_self))) hf

theorem record_kept (hS : S.Holds) (depth : Nat) (t : Task κ) (h : Host) (tr : History) (hp : S.pre t h tr)
    (hf : ∀ m ∈ (Task.record depth κ t h tr).2, S.fair m) :
    Good S (S.post t h tr) (Task.record depth κ t h tr) := by
  induction depth generalizing κ h tr with
  | zero => exact ⟨S.kept_begins hp, fun a h' e => by cases e⟩
  | succ depth ih =>
    have hb : S.fair (.begins t h) := hf _ ((record_grows (depth + 1) t h tr).subset List.mem_cons_self)
    have hbody := hS t h tr hp hb
    simp only [Task.record] at hf ⊢
    have hgood := good_recordWith (fun κ t h tr => (List.suffix_cons _ _).trans (record_grows depth t h tr))
      (fun κ t h tr r h' e => nested_record depth t h tr e) (fun κ t h tr => ih t h tr) (S.kept_begins hp) hbody
    have hclosed := fun r h' (e : (Task.record (depth + 1) κ t h tr).1 = some (r, h')) => nested_record (depth + 1) t h tr e
    simp only [Task.record] at hclosed
    rcases hrec : t.body.recordWith (Task.record depth) h (.begins t h :: tr) with ⟨_ | ⟨r, h'⟩, tr'⟩
    · rw [hrec] at hgood hf
      exact ⟨(hgood hf).1, fun a h' e => by cases e⟩
    · rw [hrec] at hgood hclosed hf
      have hq := (hgood fun m hm => hf m (List.mem_cons_of_mem _ hm)).2 r h' rfl
      exact ⟨S.kept_ends hq (hclosed r h' rfl), fun a h'' e => by cases e; exact hq⟩

/-- A task that came back did as it promised. -/
theorem record_returned (hS : S.Holds) {depth : Nat} {t : Task κ} {h h' : Host} {tr tr' : History} {r : κ.Carrier}
    (e : Task.record depth κ t h tr = (some (r, h'), tr')) (hp : S.pre t h tr) (hf : ∀ m ∈ tr', S.fair m) :
    S.kept tr' ∧ S.post t h tr r h' tr' ∧ Closes t h tr r h' tr' := by
  have hgood := record_kept hS depth t h tr hp (by rwa [e])
  have hclosed := nested_record depth t h tr (congrArg Prod.fst e)
  rw [e] at hgood hclosed
  exact ⟨hgood.1, hgood.2 r h' rfl, hclosed⟩

theorem play_grows (depth : Nat) (as : List Action) (h : Host) (tr : History) : tr <:+ (play depth as h tr).2 := by
  induction as generalizing h tr with
  | nil => exact List.suffix_refl _
  | cons a rest ih =>
    have hg := (List.suffix_cons _ _).trans (record_grows (depth + 1) (.act a) { h with log := [] } tr)
    simp only [play]
    generalize Task.record (depth + 1) _ (.act a) { h with log := [] } tr = res at hg ⊢
    rcases res with ⟨_ | ⟨r, h'⟩, tr'⟩
    · exact hg
    · exact hg.trans (ih h' tr')

/-- A session keeps to a contract if every host between its actions may begin any action. -/
theorem play_kept (hS : S.Holds) (Ready : Host → History → Prop)
    (hr : ∀ {h tr}, Ready h tr → ∀ a : Action, S.pre (.act a) { h with log := [] } tr)
    (hq : ∀ {a : Action} {h tr r h' tr'}, S.post (.act a) h tr r h' tr' → Closes (.act a) h tr r h' tr' → Ready h' tr')
    (depth : Nat) (as : List Action) (h : Host) (tr : History) (hk : S.kept tr) (hi : Ready h tr)
    (hf : ∀ m ∈ (play depth as h tr).2, S.fair m) : S.kept (play depth as h tr).2 := by
  induction as generalizing h tr with
  | nil => exact hk
  | cons a rest ih =>
    simp only [play] at hf ⊢
    rcases hrec : Task.record (depth + 1) _ (.act a) { h with log := [] } tr with ⟨_ | ⟨r, h'⟩, tr'⟩
    · rw [hrec] at hf
      have hgood := record_kept hS (depth + 1) (.act a) { h with log := [] } tr (hr hi a) (by rwa [hrec])
      rw [hrec] at hgood
      exact hgood.1
    · rw [hrec] at hf
      have hact := fun m hm => hf m ((play_grows depth rest h' tr').subset hm)
      obtain ⟨hk', hpost, hclosed⟩ := record_returned hS hrec (hr hi a) hact
      exact ih h' tr' hk' (hq hpost hclosed) hf

/-- A session that comes back leaves a host that may begin any action. -/
theorem play_ready (hS : S.Holds) (Ready : Host → History → Prop)
    (hr : ∀ {h tr}, Ready h tr → ∀ a : Action, S.pre (.act a) { h with log := [] } tr)
    (hq : ∀ {a : Action} {h tr r h' tr'}, Ready h tr → S.post (.act a) { h with log := [] } tr r h' tr' →
      Closes (.act a) { h with log := [] } tr r h' tr' → Ready h' tr')
    (depth : Nat) (as : List Action) (h : Host) (tr : History) (hi : Ready h tr)
    (hf : ∀ m ∈ (play depth as h tr).2, S.fair m) {h' : Host} (e : (play depth as h tr).1 = some h') :
    Ready h' (play depth as h tr).2 := by
  induction as generalizing h tr with
  | nil =>
    cases e
    exact hi
  | cons a rest ih =>
    simp only [play] at hf e ⊢
    rcases hrec : Task.record (depth + 1) _ (.act a) { h with log := [] } tr with ⟨_ | ⟨r, h'⟩, tr'⟩
    · rw [hrec] at e
      cases e
    · rw [hrec] at hf e
      have hact := fun m hm => hf m ((play_grows depth rest h' tr').subset hm)
      obtain ⟨-, hpost, hclosed⟩ := record_returned hS hrec (hr hi a) hact
      exact ih h' tr' (hq hi hpost hclosed) hf e

end Eventful.Host
