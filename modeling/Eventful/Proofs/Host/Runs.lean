import Eventful.Proofs.Host.Contract

/-
  Eventful.Proofs.Host.Runs — runs that came back.

  A run that came back is one run, however deep it might have gone: more depth leaves its
  record as it is (`record_deeper`), and so does what happened before it, which stays below
  (`record_after`). `Task.Came` and `Proc.Came` say of a task and of a procedure what it
  came back with and what happened meanwhile; the record of a procedure is that of its
  calls, one above the other (`came_call`). Every task that came back in a session did so
  as it would by itself (`session_whole`).
-/

namespace Eventful.Host

variable {α : Type} {κ : Kind}

/-- A way to run tasks and to keep the record. -/
abbrev Recorder := (κ : Kind) → Task κ → Host → History → Option (κ.Carrier × Host) × History

/-! ## The steps of a record -/

section

variable {β : Type} {task : Recorder} {h h' : Host} {tr tr' : History}

theorem recordWith_call {t : Task κ} {k : κ.Carrier → Proc α} {r : κ.Carrier}
    (e : task κ t h tr = (some (r, h'), tr')) :
    (Proc.call t k).recordWith task h tr = (k r).recordWith task h' tr' := by
  simp only [Proc.recordWith, e]

theorem recordWith_stuck {t : Task κ} {k : κ.Carrier → Proc α} (e : task κ t h tr = (none, tr')) :
    (Proc.call t k).recordWith task h tr = (none, tr') := by
  simp only [Proc.recordWith, e]

theorem recordWith_bind {p : Proc α} {f : α → Proc β} {a : α} (e : p.recordWith task h tr = (some (a, h'), tr')) :
    (p >>= f).recordWith task h tr = (f a).recordWith task h' tr' := by
  induction p generalizing h tr with
  | done b =>
    cases e
    rfl
  | get k ih => exact ih h e
  | set h₁ k ih => exact ih e
  | call t k ih =>
    rcases htask : task _ t h tr with ⟨_ | ⟨r, h₁⟩, tr₁⟩
    · rw [recordWith_stuck htask] at e
      cases e
    · rw [recordWith_call htask] at e
      exact (recordWith_call htask).trans (ih r e)

theorem recordWith_bind_stuck {p : Proc α} {f : α → Proc β} (e : p.recordWith task h tr = (none, tr')) :
    (p >>= f).recordWith task h tr = (none, tr') := by
  induction p generalizing h tr with
  | done b => cases e
  | get k ih => exact ih h e
  | set h₁ k ih => exact ih e
  | call t k ih =>
    rcases htask : task _ t h tr with ⟨_ | ⟨r, h₁⟩, tr₁⟩
    · rw [recordWith_stuck htask] at e
      cases e
      exact recordWith_stuck htask
    · rw [recordWith_call htask] at e
      exact (recordWith_call htask).trans (ih r e)

theorem record_of_body {depth : Nat} {t : Task κ} {r : κ.Carrier}
    (e : t.body.recordWith (Task.record depth) h (.begins t h :: tr) = (some (r, h'), tr')) :
    Task.record (depth + 1) κ t h tr = (some (r, h'), .ends t r h' :: tr') := by
  simp only [Task.record, e]

theorem record_of_stuck {depth : Nat} {t : Task κ}
    (e : t.body.recordWith (Task.record depth) h (.begins t h :: tr) = (none, tr')) :
    Task.record (depth + 1) κ t h tr = (none, tr') := by
  simp only [Task.record, e]

theorem record_suffix (depth : Nat) (t : Task κ) (h : Host) (tr : History) : tr <:+ (Task.record depth κ t h tr).2 :=
  (List.suffix_cons _ _).trans (record_grows depth t h tr)

/-- The history of a call is part of that of its procedure. -/
theorem recordWith_call_grows (depth : Nat) (t : Task κ) (k : κ.Carrier → Proc α) (h : Host) (tr : History) :
    (Task.record depth κ t h tr).2 <:+ ((Proc.call t k).recordWith (Task.record depth) h tr).2 := by
  rcases htask : Task.record depth κ t h tr with ⟨_ | ⟨r, h₁⟩, tr₁⟩
  · exact ⟨[], congrArg Prod.snd (recordWith_stuck htask).symm⟩
  · rw [recordWith_call htask]
    exact recordWith_grows (fun κ t h tr => record_suffix depth t h tr) (k r) h₁ tr₁

theorem record_body_grows (depth : Nat) {t : Task κ} :
    (t.body.recordWith (Task.record depth) h (.begins t h :: tr)).2 <:+ (Task.record (depth + 1) κ t h tr).2 := by
  rcases hbody : t.body.recordWith (Task.record depth) h (.begins t h :: tr) with ⟨_ | ⟨r, h₁⟩, tr₁⟩
  · exact ⟨[], congrArg Prod.snd (record_of_stuck hbody).symm⟩
  · rw [record_of_body hbody]
    exact List.suffix_cons _ _

theorem play_cons {depth : Nat} {a : Action} {rest : List Action} {r : Answer}
    (e : Task.record (depth + 1) _ (.act a) { h with log := [] } tr = (some (r, h'), tr')) :
    play depth (a :: rest) h tr = play depth rest h' tr' := by
  simp only [play, e]

theorem play_stuck {depth : Nat} {a : Action} {rest : List Action}
    (e : Task.record (depth + 1) _ (.act a) { h with log := [] } tr = (none, tr')) :
    play depth (a :: rest) h tr = (none, tr') := by
  simp only [play, e]

theorem play_cons_grows (depth : Nat) (a : Action) (rest : List Action) (h : Host) (tr : History) :
    (Task.record (depth + 1) _ (.act a) { h with log := [] } tr).2 <:+ (play depth (a :: rest) h tr).2 := by
  rcases e : Task.record (depth + 1) _ (.act a) { h with log := [] } tr with ⟨_ | ⟨r, h'⟩, tr'⟩
  · exact ⟨[], congrArg Prod.snd (play_stuck e).symm⟩
  · rw [play_cons e]
    exact play_grows depth rest h' tr'

/-- A procedure that makes no calls leaves nothing in the history. -/
theorem recordWith_of_run {p : Proc α} {a : α} (e : p.run 0 h = some (a, h')) (tr : History) :
    p.recordWith task h tr = (some (a, h'), tr) := by
  induction p generalizing h with
  | done b =>
    cases e
    rfl
  | get k ih => exact ih h e
  | set h₁ k ih => exact ih e
  | call t k ih => cases e

end

/-! ## What happened before -/

/-- The record lies above what happened before, and does not depend on it. -/
def Recorder.Above (task : Recorder) : Prop :=
  ∀ κ t h tr, task κ t h tr = ((task κ t h []).1, (task κ t h []).2 ++ tr)

theorem recordWith_after {task : Recorder} (ht : task.Above) (p : Proc α) (h : Host) (tr : History) :
    p.recordWith task h tr = ((p.recordWith task h []).1, (p.recordWith task h []).2 ++ tr) := by
  induction p generalizing h tr with
  | done a => rfl
  | get k ih => exact ih h h tr
  | set h' k ih => exact ih h' tr
  | call t k ih =>
    simp only [Proc.recordWith]
    rw [ht _ t h tr]
    rcases task _ t h [] with ⟨_ | ⟨r, h₁⟩, tr₁⟩
    · rfl
    · simp only
      rw [ih r h₁ (tr₁ ++ tr), ih r h₁ tr₁, List.append_assoc]

theorem record_after (depth : Nat) : Recorder.Above (Task.record depth) := by
  induction depth with
  | zero => exact fun κ t h tr => rfl
  | succ depth ih =>
    intro κ t h tr
    simp only [Task.record]
    rw [recordWith_after ih t.body h (.begins t h :: tr), recordWith_after ih t.body h [.begins t h]]
    rcases t.body.recordWith (Task.record depth) h [] with ⟨_ | ⟨r, h₁⟩, tr₁⟩
    · simp
    · simp

/-! ## Depth -/

theorem recordWith_deeper {task task' : Recorder}
    (ht : ∀ κ t h tr, (task κ t h tr).1.isSome = true → task' κ t h tr = task κ t h tr) (p : Proc α) (h : Host)
    (tr : History) (hp : (p.recordWith task h tr).1.isSome = true) :
    p.recordWith task' h tr = p.recordWith task h tr := by
  induction p generalizing h tr with
  | done a => rfl
  | get k ih => exact ih h h tr hp
  | set h' k ih => exact ih h' tr hp
  | call t k ih =>
    have hc := ht _ t h tr
    simp only [Proc.recordWith] at hp ⊢
    generalize task _ t h tr = res at hc hp ⊢
    rcases res with ⟨_ | ⟨r, h₁⟩, tr₁⟩
    · cases hp
    · rw [hc rfl]
      exact ih r h₁ tr₁ hp

theorem record_succ (depth : Nat) (t : Task κ) (h : Host) (tr : History)
    (hs : (Task.record depth κ t h tr).1.isSome = true) :
    Task.record (depth + 1) κ t h tr = Task.record depth κ t h tr := by
  induction depth generalizing κ h tr with
  | zero => cases hs
  | succ depth ih =>
    have hd := recordWith_deeper (fun κ t h tr => ih t h tr) t.body h (.begins t h :: tr)
    rw [Task.record]
    simp only [Task.record] at hs ⊢
    rcases hb : t.body.recordWith (Task.record depth) h (.begins t h :: tr) with ⟨_ | ⟨r, h₁⟩, tr₁⟩
    · rw [hb] at hs
      cases hs
    · rw [hb] at hd
      have hd := hd rfl
      simp only [Task.record] at hd
      rw [hd]

theorem record_deeper {depth depth' : Nat} (hd : depth ≤ depth') (t : Task κ) (h : Host) (tr : History)
    (hs : (Task.record depth κ t h tr).1.isSome = true) :
    Task.record depth' κ t h tr = Task.record depth κ t h tr := by
  induction hd with
  | refl => rfl
  | step _ ih =>
    rw [record_succ _ t h tr (by rw [ih]; exact hs), ih]

/-! ## Coming back -/

/-- Run by itself, the task comes back with a result, and this happens meanwhile. -/
def Task.Came (t : Task κ) (h : Host) (r : κ.Carrier) (h' : Host) (tr : History) : Prop :=
  ∃ depth, Task.record depth κ t h [] = (some (r, h'), tr)

def Proc.Came (p : Proc α) (h : Host) (a : α) (h' : Host) (tr : History) : Prop :=
  ∃ depth, p.recordWith (Task.record depth) h [] = (some (a, h'), tr)

variable {h h' : Host} {tr : History}

theorem Task.Came.run {t : Task κ} {r : κ.Carrier} (hc : t.Came h r h' tr) :
    ∃ depth, Task.run depth κ t h = some (r, h') := by
  obtain ⟨depth, hd⟩ := hc
  exact ⟨depth, by rw [← record_fst depth t h [], hd]⟩

/-- A task comes back in one way. -/
theorem Task.Came.unique {t : Task κ} {r r₁ : κ.Carrier} {h₁ : Host} {tr₁ : History} (hc : t.Came h r h' tr)
    (hc₁ : t.Came h r₁ h₁ tr₁) : r = r₁ ∧ h' = h₁ ∧ tr = tr₁ := by
  obtain ⟨d, hd⟩ := hc
  obtain ⟨d₁, hd₁⟩ := hc₁
  have e := record_deeper (Nat.le_max_left d d₁) t h [] (by rw [hd]; rfl)
  rw [record_deeper (Nat.le_max_right d d₁) t h [] (by rw [hd₁]; rfl), hd, hd₁] at e
  cases e
  exact ⟨rfl, rfl, rfl⟩

theorem came_done {a b : α} : (Proc.done a).Came h b h' tr ↔ b = a ∧ h' = h ∧ tr = [] := by
  constructor
  · rintro ⟨_, hd⟩
    cases hd
    exact ⟨rfl, rfl, rfl⟩
  · rintro ⟨rfl, rfl, rfl⟩
    exact ⟨0, rfl⟩

/-- What happens in a call comes first, and lies below what follows. -/
theorem came_call {t : Task κ} {k : κ.Carrier → Proc α} {a : α} :
    (Proc.call t k).Came h a h' tr ↔
      ∃ r h₁ tr₁ tr₂, t.Came h r h₁ tr₁ ∧ (k r).Came h₁ a h' tr₂ ∧ tr = tr₂ ++ tr₁ := by
  constructor
  · rintro ⟨depth, hd⟩
    simp only [Proc.recordWith] at hd
    rcases ht : Task.record depth _ t h [] with ⟨_ | ⟨r, h₁⟩, tr₁⟩
    · rw [ht] at hd
      cases hd
    · rw [ht] at hd
      simp only at hd
      rw [recordWith_after (record_after depth) (k r) h₁ tr₁, Prod.mk.injEq] at hd
      exact ⟨r, h₁, tr₁, _, ⟨depth, ht⟩, ⟨depth, Prod.ext hd.1 rfl⟩, hd.2.symm⟩
  · rintro ⟨r, h₁, tr₁, tr₂, ⟨d, hd⟩, ⟨d', hd'⟩, rfl⟩
    -- Both parts are runs of the greater depth as well.
    refine ⟨max d d', ?_⟩
    have ht : Task.record (max d d') _ t h [] = (some (r, h₁), tr₁) := by
      rw [record_deeper (Nat.le_max_left d d') t h [] (by rw [hd]; rfl), hd]
    have hk : (k r).recordWith (Task.record (max d d')) h₁ [] = (some (a, h'), tr₂) := by
      rw [recordWith_deeper (fun κ t h tr => record_deeper (Nat.le_max_right d d') t h tr) (k r) h₁ [] (by rw [hd']; rfl),
        hd']
    simp only [Proc.recordWith, ht]
    rw [recordWith_after (record_after _), hk]

/-- What happens in the first procedure lies below what happens in the second. -/
theorem came_bind {β : Type} {p : Proc α} {f : α → Proc β} {b : β} :
    (p >>= f).Came h b h' tr ↔
      ∃ a h₁ tr₁ tr₂, p.Came h a h₁ tr₁ ∧ (f a).Came h₁ b h' tr₂ ∧ tr = tr₂ ++ tr₁ := by
  induction p generalizing h tr with
  | done a =>
    constructor
    · exact fun hf => ⟨a, h, [], tr, came_done.mpr ⟨rfl, rfl, rfl⟩, hf, (List.append_nil tr).symm⟩
    · rintro ⟨_, _, _, tr₂, hp, hf, rfl⟩
      obtain ⟨rfl, rfl, rfl⟩ := came_done.mp hp
      rw [List.append_nil]
      exact hf
  | get k ih => exact ih h
  | set h₂ k ih => exact ih
  | call t k ih =>
    refine came_call.trans ⟨?_, ?_⟩
    · rintro ⟨r, h₂, tr₁, _, ht, hk, rfl⟩
      obtain ⟨a, h₁, tr₂, tr₃, hp, hf, rfl⟩ := (ih r).mp hk
      exact ⟨a, h₁, tr₂ ++ tr₁, tr₃, came_call.mpr ⟨r, h₂, tr₁, tr₂, ht, hp, rfl⟩, hf, List.append_assoc _ _ _⟩
    · rintro ⟨a, h₁, _, tr₃, hp, hf, rfl⟩
      obtain ⟨r, h₂, tr₁, tr₂, ht, hk, rfl⟩ := came_call.mp hp
      exact ⟨r, h₂, tr₁, _, ht, (ih r).mpr ⟨a, h₁, tr₂, tr₃, hk, hf, rfl⟩, (List.append_assoc _ _ _).symm⟩

theorem Proc.Came.bind {β : Type} {p : Proc α} {f : α → Proc β} {a : α} {b : β} {h₁ : Host} {tr tr' : History}
    (hp : p.Came h a h₁ tr) (hf : (f a).Came h₁ b h' tr') : (p >>= f).Came h b h' (tr' ++ tr) :=
  came_bind.mpr ⟨a, h₁, tr, tr', hp, hf, rfl⟩

/-- A task comes back when its procedure does; its beginning and its end stand around that. -/
theorem came_iff {t : Task κ} {r : κ.Carrier} :
    t.Came h r h' tr ↔ ∃ inner, t.body.Came h r h' inner ∧ tr = .ends t r h' :: (inner ++ [.begins t h]) := by
  constructor
  · rintro ⟨depth, hd⟩
    cases depth with
    | zero => cases hd
    | succ depth =>
      rw [Task.record, recordWith_after (record_after depth)] at hd
      rcases hb : t.body.recordWith (Task.record depth) h [] with ⟨_ | ⟨r₁, h₁⟩, inner⟩
      · rw [hb] at hd
        cases hd
      · rw [hb] at hd
        cases hd
        exact ⟨inner, ⟨depth, hb⟩, rfl⟩
  · rintro ⟨inner, ⟨depth, hd⟩, rfl⟩
    refine ⟨depth + 1, ?_⟩
    rw [Task.record, recordWith_after (record_after depth), hd]

@[simp] theorem came_get {f : Host → Proc α} {a : α} :
    (get >>= f).Came h a h' tr ↔ (f h).Came h a h' tr := Iff.rfl

theorem came_first {f : Host → Host} {k : PUnit → Proc α} {a : α} :
    (modify f >>= k).Came h a h' tr ↔ (k ()).Came (f h) a h' tr := Iff.rfl

theorem came_change {f : Host → α × Host} {a : α} :
    (change f).Came h a h' tr ↔ a = (f h).1 ∧ h' = (f h).2 ∧ tr = [] := came_done

/-- A procedure that meets a contract comes back as it promises. -/
theorem Proc.Came.meets {S : Contract} {p : Proc α} {a : α} {Q : α → Host → History → Prop} (hc : p.Came h a h' tr)
    (hS : S.Holds) (hk : S.kept []) (hp : p.Meets S h [] Q) (hf : ∀ m ∈ tr, S.fair m) : Q a h' tr := by
  obtain ⟨depth, hd⟩ := hc
  have hgood := good_recordWith (fun κ t h tr => record_suffix depth t h tr)
    (fun κ t h tr r h' e => nested_record depth t h tr e) (fun κ t h tr => record_kept hS depth t h tr) hk hp
    (by rwa [hd])
  rw [hd] at hgood
  exact hgood.2 a h' rfl

/-- What a procedure comes back with, it comes back with in a record. -/
theorem came_of_run {depth : Nat} {p : Proc α} {a : α} (hr : p.run depth h = some (a, h')) : ∃ tr, p.Came h a h' tr := by
  have hfst := recordWith_fst (fun κ t h tr => record_fst depth t h tr) p h []
  exact ⟨_, depth, Prod.ext (hfst.trans hr) rfl⟩

/-! ## Sessions -/

theorem play_deeper {depth depth' : Nat} (hd : depth ≤ depth') {as : List Action} {tr : History}
    (e : (play depth as h tr).1 = some h') : (play depth' as h tr).1 = some h' := by
  induction as generalizing h tr with
  | nil => exact e
  | cons a as ih =>
    have hdeeper := record_deeper (Nat.succ_le_succ hd) (.act a) { h with log := [] } tr
    simp only [play] at e ⊢
    rcases hrec : Task.record (depth + 1) _ (.act a) { h with log := [] } tr with ⟨_ | ⟨r, h₁⟩, tr₁⟩
    · rw [hrec] at e
      cases e
    · rw [hrec] at e
      rw [hdeeper (by rw [hrec]; rfl), hrec]
      exact ih e

/-- Every task that came back in the history did so as it would by itself. -/
def Whole (tr : History) : Prop :=
  ∀ (κ : Kind) (t : Task κ) (r : κ.Carrier) (h' : Host) (later earlier : History),
    tr = later ++ .ends t r h' :: earlier →
      ∃ h inner before, earlier = inner ++ .begins t h :: before ∧
        t.Came h r h' (.ends t r h' :: (inner ++ [.begins t h]))

theorem whole_begins {t : Task κ} (hw : Whole tr) : Whole (.begins t h :: tr) := by
  intro κ' t' r h' later earlier e
  cases later with
  | nil => cases e
  | cons m later => exact hw κ' t' r h' later earlier (List.cons.inj e).2

theorem Whole.drop {later : History} (hw : Whole (later ++ tr)) : Whole tr :=
  fun κ t r h' later' earlier e => hw κ t r h' (later ++ later') earlier (by rw [e, List.append_assoc])

def coming : Contract where
  fair _ := True
  pre _ _ tr := Whole tr
  post t h tr r h' tr' := Whole tr' ∧ ∃ inner, tr' = .ends t r h' :: (inner ++ .begins t h :: tr) ∧
    t.Came h r h' (.ends t r h' :: (inner ++ [.begins t h]))
  kept := Whole
  kept_begins hw := whole_begins hw
  kept_ends hp _ := hp.1

theorem meets_coming (p : Proc α) (hw : Whole tr) :
    p.Meets coming h tr fun a h' tr' => Whole tr' ∧ ∃ inner, tr' = inner ++ tr ∧ p.Came h a h' inner := by
  induction p generalizing h tr with
  | done a => exact ⟨hw, [], rfl, came_done.mpr ⟨rfl, rfl, rfl⟩⟩
  | get k ih => exact ih h hw
  | set h₁ k ih => exact ih hw
  | call t k ih =>
    refine ⟨hw, fun r h₁ tr₁ hp _ _ => ?_⟩
    obtain ⟨hw₁, inner, rfl, hcame⟩ := hp
    refine (ih r hw₁).mono fun a h' tr' ⟨hw', inner', e, hk⟩ =>
      ⟨hw', _, ?_, came_call.mpr ⟨r, h₁, _, inner', hcame, hk, rfl⟩⟩
    rw [e]
    simp

theorem coming_holds : coming.Holds := by
  intro κ t h tr hw _
  refine (meets_coming t.body (whole_begins hw)).mono fun r h' tr' ⟨hw', inner, e, hbody⟩ => ?_
  subst e
  have hcame := came_iff.mpr ⟨inner, hbody, rfl⟩
  refine ⟨fun κ' t' r' h'' later earlier e => ?_, inner, rfl, hcame⟩
  cases later with
  | nil =>
    cases e
    exact ⟨h, inner, tr, rfl, hcame⟩
  | cons m later => exact hw' κ' t' r' h'' later earlier (List.cons.inj e).2

theorem session_whole (depth : Nat) (as : List Action) (start : Host) : Whole (play depth as start []).2 := by
  have hnil : Whole [] := fun _ _ _ _ later _ e => by cases later <;> cases e
  exact play_kept coming_holds (fun _ tr => Whole tr) (fun hw _ => hw) (fun hp _ => hp.1) depth as start [] hnil hnil
    fun _ _ => trivial

end Eventful.Host
