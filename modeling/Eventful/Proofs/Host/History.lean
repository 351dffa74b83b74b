import Eventful.Host.Run

/-
  Eventful.Proofs.Host.History — what happened in a run.

  A history lists the moments of a run, last first as the log does: a task begins in a
  host, a task ends with a result and a host. `record` is `run` with the history of the
  run: it comes back with the same result (`record_fst`), and a run that gives up still
  leaves the history up to there, so the histories of all depths together hold every
  prefix of an endless run. `play` is a session of actions. Between a beginning and the
  next moment of a history lies only what the task does itself (`linked_play`).
-/

namespace Eventful.Host

inductive Moment where
  | begins {κ : Kind} (t : Task κ) (h : Host)
  | ends {κ : Kind} (t : Task κ) (r : κ.Carrier) (h : Host)

def Moment.host : Moment → Host
  | .begins _ h => h
  | .ends _ _ h => h

abbrev History := List Moment

variable {α β : Type} {κ : Kind}

/-! ## Records -/

def Proc.recordWith (task : (κ : Kind) → Task κ → Host → History → Option (κ.Carrier × Host) × History) :
    Proc α → Host → History → Option (α × Host) × History
  | .done a, h, tr => (some (a, h), tr)
  | .get k, h, tr => (k h).recordWith task h tr
  | .set h' k, _, tr => k.recordWith task h' tr
  | .call t k, h, tr =>
    match task _ t h tr with
    | (none, tr') => (none, tr')
    | (some (r, h'), tr') => (k r).recordWith task h' tr'

/-- Runs a task with calls nested at most `depth` deep, after a history. -/
def Task.record : Nat → (κ : Kind) → Task κ → Host → History → Option (κ.Carrier × Host) × History
  | 0, _, t, h, tr => (none, .begins t h :: tr)
  | depth + 1, _, t, h, tr =>
    match t.body.recordWith (Task.record depth) h (.begins t h :: tr) with
    | (none, tr') => (none, tr')
    | (some (r, h'), tr') => (some (r, h'), .ends t r h' :: tr')

/-- A session: actions one after the other, as far as they come back. -/
def play (depth : Nat) : List Action → Host → History → Option Host × History
  | [], h, tr => (some h, tr)
  | a :: rest, h, tr =>
    match Task.record (depth + 1) _ (.act a) { h with log := [] } tr with
    | (none, tr') => (none, tr')
    | (some (_, h'), tr') => play depth rest h' tr'

/-! ## The record of a run is the run -/

theorem recordWith_fst {task : (κ : Kind) → Task κ → Host → History → Option (κ.Carrier × Host) × History}
    {run : (κ : Kind) → Task κ → Host → Option (κ.Carrier × Host)} (ht : ∀ κ t h tr, (task κ t h tr).1 = run κ t h)
    (p : Proc α) (h : Host) (tr : History) : (p.recordWith task h tr).1 = p.runWith run h := by
  induction p generalizing h tr with
  | done a => rfl
  | get k ih => exact ih h h tr
  | set h' k ih => exact ih h' tr
  | call t k ih =>
    simp only [Proc.recordWith, Proc.runWith, ← ht _ t h tr]
    match task _ t h tr with
    | (none, _) => rfl
    | (some (r, h'), tr') => exact ih r h' tr'

theorem record_fst (depth : Nat) (t : Task κ) (h : Host) (tr : History) :
    (Task.record depth κ t h tr).1 = Task.run depth κ t h := by
  induction depth generalizing κ h tr with
  | zero => rfl
  | succ depth ih =>
    have hb := recordWith_fst (fun κ (t : Task κ) h tr => ih t h tr) t.body h (.begins t h :: tr)
    simp only [Task.record, Task.run, ← hb]
    match t.body.recordWith (Task.record depth) h (.begins t h :: tr) with
    | (none, _) => rfl
    | (some _, _) => rfl

/-- A session does its actions as `act` does them. -/
theorem play_cons_fst (depth : Nat) (a : Action) (rest : List Action) (h : Host) (tr : History) :
    (play depth (a :: rest) h tr).1 =
      (act depth a h).bind fun (_, _, h') =>
        (play depth rest h' (Task.record (depth + 1) _ (.act a) { h with log := [] } tr).2).1 := by
  have hb := record_fst (depth + 1) (.act a) { h with log := [] } tr
  have ha : act depth a h = (Task.run (depth + 1) _ (.act a) { h with log := [] }).map
    fun (r, h') => (r, h'.log.reverse, h') := rfl
  rw [ha, ← hb, play]
  match Task.record (depth + 1) _ (.act a) { h with log := [] } tr with
  | (none, _) => rfl
  | (some (_, _), _) => rfl

/-! ## A history only grows -/

theorem recordWith_grows {task : (κ : Kind) → Task κ → Host → History → Option (κ.Carrier × Host) × History}
    (ht : ∀ κ t h tr, tr <:+ (task κ t h tr).2) (p : Proc α) (h : Host) (tr : History) :
    tr <:+ (p.recordWith task h tr).2 := by
  induction p generalizing h tr with
  | done a => exact List.suffix_refl _
  | get k ih => exact ih h h tr
  | set h' k ih => exact ih h' tr
  | call t k ih =>
    have hg := ht _ t h tr
    simp only [Proc.recordWith]
    match task _ t h tr, hg with
    | (none, _), hg => exact hg
    | (some (r, h'), tr'), hg => exact hg.trans (ih r h' tr')

theorem record_grows (depth : Nat) (t : Task κ) (h : Host) (tr : History) :
    .begins t h :: tr <:+ (Task.record depth κ t h tr).2 := by
  induction depth generalizing κ h tr with
  | zero => exact List.suffix_refl _
  | succ depth ih =>
    have hb := recordWith_grows (fun κ (t : Task κ) h tr => (List.suffix_cons _ _).trans (ih t h tr)) t.body h
      (.begins t h :: tr)
    simp only [Task.record]
    match t.body.recordWith (Task.record depth) h (.begins t h :: tr), hb with
    | (none, _), hb => exact hb
    | (some (r, h'), tr'), hb => exact hb.trans (List.suffix_cons _ _)

/-! ## Tasks within tasks -/

/-- Tasks that came back, one after the other, with all that happened in them. -/
inductive Nested : History → Prop
  | nil : Nested []
  | task {κ : Kind} (t : Task κ) (r : κ.Carrier) (h h' : Host) {inner earlier : History} :
    Nested inner → Nested earlier → Nested (.ends t r h' :: (inner ++ .begins t h :: earlier))

theorem Nested.append {tr tr' : History} (h : Nested tr) (h' : Nested tr') : Nested (tr ++ tr') := by
  induction h with
  | nil => exact h'
  | task t r h₀ h₁ hin _ _ ih =>
    have := Nested.task t r h₀ h₁ hin ih
    rwa [List.cons_append, List.append_assoc, List.cons_append]

/-- The beginning that an end belongs to is the last one before which all tasks came back. -/
theorem Nested.unique {tr tr' earlier earlier' : History} {κ' : Kind} {t : Task κ} {t' : Task κ'} {h h' : Host}
    (hn : Nested tr) (hn' : Nested tr') (e : tr ++ .begins t h :: earlier = tr' ++ .begins t' h' :: earlier') :
    tr = tr' := by
  induction hn generalizing κ κ' tr' t t' h h' earlier earlier' with
  | nil =>
    cases hn' with
    | nil => rfl
    | task => cases e
  | task t₁ r₁ h₁ h₂ _ _ ih₁ ih₂ =>
    cases hn' with
    | nil => cases e
    | task t₂ r₂ h₃ h₄ hin hbefore =>
      simp only [List.cons_append, List.append_assoc, List.cons.injEq] at e
      obtain ⟨e₁, e₂⟩ := e
      cases ih₁ hin e₂
      obtain ⟨e₃, e₄⟩ := List.cons.inj (List.append_cancel_left e₂)
      cases ih₂ hbefore e₄
      rw [e₁, e₃]

/-- What a task that came back has put on the history. -/
def Closes (t : Task κ) (h : Host) (tr : History) (r : κ.Carrier) (h' : Host) (tr' : History) : Prop :=
  ∃ inner, Nested inner ∧ tr' = .ends t r h' :: (inner ++ .begins t h :: tr)

theorem nested_recordWith {task : (κ : Kind) → Task κ → Host → History → Option (κ.Carrier × Host) × History}
    (ht : ∀ κ t h tr r h', (task κ t h tr).1 = some (r, h') → Closes t h tr r h' (task κ t h tr).2)
    (p : Proc α) (h : Host) (tr : History) {a : α} {h' : Host} (e : (p.recordWith task h tr).1 = some (a, h')) :
    ∃ inner, Nested inner ∧ (p.recordWith task h tr).2 = inner ++ tr := by
  induction p generalizing h tr with
  | done a => exact ⟨[], .nil, rfl⟩
  | get k ih => exact ih h h tr e
  | set h₁ k ih => exact ih h₁ tr e
  | call t k ih =>
    have hc := ht _ t h tr
    simp only [Proc.recordWith] at e ⊢
    match htask : task _ t h tr, e with
    | (some (r, h₁), tr₁), e =>
      rw [htask] at hc
      obtain ⟨inner, hin, rfl⟩ := hc r h₁ rfl
      obtain ⟨inner', hin', e'⟩ := ih r h₁ _ e
      refine ⟨inner' ++ .ends t r h₁ :: (inner ++ [.begins t h]), hin'.append (.task t r h h₁ hin .nil), ?_⟩
      rw [e', List.append_assoc, List.cons_append, List.append_assoc]
      rfl

theorem nested_record (depth : Nat) (t : Task κ) (h : Host) (tr : History) {r : κ.Carrier} {h' : Host}
    (e : (Task.record depth κ t h tr).1 = some (r, h')) : Closes t h tr r h' (Task.record depth κ t h tr).2 := by
  induction depth generalizing κ h tr h' with
  | zero => cases e
  | succ depth ih =>
    have hb := fun (e : (t.body.recordWith (Task.record depth) h (.begins t h :: tr)).1 = some (r, h')) =>
      nested_recordWith (fun κ (t : Task κ) h tr r h' e => ih t h tr e) t.body h (.begins t h :: tr) e
    simp only [Task.record] at e ⊢
    match t.body.recordWith (Task.record depth) h (.begins t h :: tr), hb, e with
    | (some (r₁, h₁), tr₁), hb, e =>
      cases e
      obtain ⟨inner, hin, e'⟩ := hb rfl
      exact ⟨inner, hin, congrArg _ e'⟩

theorem nested_play (depth : Nat) (as : List Action) (h : Host) (tr : History) {h' : Host}
    (e : (play depth as h tr).1 = some h') : ∃ inner, Nested inner ∧ (play depth as h tr).2 = inner ++ tr := by
  induction as generalizing h tr with
  | nil => exact ⟨[], .nil, rfl⟩
  | cons a rest ih =>
    have hr := fun r h' (e : (Task.record (depth + 1) _ (.act a) { h with log := [] } tr).1 = some (r, h')) =>
      nested_record (depth + 1) (.act a) { h with log := [] } tr e
    simp only [play] at e ⊢
    match Task.record (depth + 1) _ (.act a) { h with log := [] } tr, hr, e with
    | (some (r, h₁), tr₁), hr, e =>
      obtain ⟨inner, hin, rfl⟩ := hr r h₁ rfl
      obtain ⟨inner', hin', e'⟩ := ih h₁ _ e
      refine ⟨inner' ++ .ends (.act a) r h₁ :: (inner ++ [.begins (.act a) { h with log := [] }]),
        hin'.append (.task _ r _ h₁ hin .nil), ?_⟩
      rw [e', List.append_assoc, List.cons_append, List.append_assoc]
      rfl

/-! ## The moment after a beginning -/

/-- What happens first when a task does its procedure: its first call, or else its end. -/
def Proc.first (t : Task κ) : Proc κ.Carrier → Host → Moment
  | .done r, h => .ends t r h
  | .get k, h => (k h).first t h
  | .set h' k, _ => k.first t h'
  | .call t' _, h => .begins t' h

@[simp] theorem first_get {t : Task κ} {f : Host → Proc κ.Carrier} {h : Host} :
    Proc.first t (get >>= f) h = (f h).first t h := rfl

def Moment.next : Moment → Option Moment
  | .begins t h => some (t.body.first t h)
  | .ends .. => none

/-- Every beginning is followed by what its task does first. -/
def Linked : History → Prop
  | [] => True
  | [_] => True
  | m' :: m :: tr => (∀ n, m.next = some n → m' = n) ∧ Linked (m :: tr)

/-- The moment that may be put on a history. -/
def Expects (n : Moment) : History → Prop
  | [] => True
  | m :: _ => ∀ n', m.next = some n' → n = n'

theorem linked_cons {m : Moment} {tr : History} (h : Linked tr) (he : Expects m tr) : Linked (m :: tr) := by
  cases tr with
  | nil => trivial
  | cons m' tr => exact ⟨he, h⟩

theorem expects_after_end (m : Moment) (t : Task κ) (r : κ.Carrier) (h : Host) (tr : History) :
    Expects m (.ends t r h :: tr) := by
  intro n' hn; cases hn

/-- A record that came back ends with the end of its task. -/
def EndsWith (t : Task κ) (res : Option (κ.Carrier × Host) × History) : Prop :=
  ∀ r h, res.1 = some (r, h) → ∃ tr, res.2 = .ends t r h :: tr

theorem linked_recordWith {task : (κ : Kind) → Task κ → Host → History → Option (κ.Carrier × Host) × History}
    (ht : ∀ κ t h tr, Linked tr → Expects (.begins t h) tr → Linked (task κ t h tr).2 ∧ EndsWith t (task κ t h tr))
    (t : Task κ) (p : Proc κ.Carrier) (h : Host) (tr : History) (hl : Linked tr) (he : Expects (p.first t h) tr) :
    Linked (p.recordWith task h tr).2 ∧
      ∀ r h', (p.recordWith task h tr).1 = some (r, h') → Expects (.ends t r h') (p.recordWith task h tr).2 := by
  induction p generalizing h tr with
  | done a => exact ⟨hl, fun r h' e => by cases e; exact he⟩
  | get k ih => exact ih h h tr hl he
  | set h' k ih => exact ih h' tr hl he
  | call t' k ih =>
    have hc := ht _ t' h tr hl he
    simp only [Proc.recordWith]
    match task _ t' h tr, hc with
    | (none, _), hc => exact ⟨hc.1, fun r h' e => by cases e⟩
    | (some (r, h'), tr'), hc =>
      obtain ⟨tr'', e⟩ := hc.2 r h' rfl
      simp only at e
      subst e
      exact ih r h' _ hc.1 (expects_after_end _ _ _ _ _)

theorem linked_record (depth : Nat) (t : Task κ) (h : Host) (tr : History) (hl : Linked tr)
    (he : Expects (.begins t h) tr) :
    Linked (Task.record depth κ t h tr).2 ∧ EndsWith t (Task.record depth κ t h tr) := by
  induction depth generalizing κ h tr with
  | zero => exact ⟨linked_cons hl he, fun r h' e => by cases e⟩
  | succ depth ih =>
    have hb := linked_recordWith (fun κ (t : Task κ) h tr => ih t h tr) t t.body h (.begins t h :: tr)
      (linked_cons hl he) (fun n hn => (Option.some.inj hn))
    simp only [Task.record]
    match t.body.recordWith (Task.record depth) h (.begins t h :: tr), hb with
    | (none, _), hb => exact ⟨hb.1, fun r h' e => by cases e⟩
    | (some (r, h'), tr'), hb =>
      exact ⟨linked_cons hb.1 (hb.2 r h' rfl), fun r' h'' e => by cases e; exact ⟨tr', rfl⟩⟩

theorem linked_play_after (depth : Nat) (as : List Action) (h : Host) (tr : History) (hl : Linked tr)
    (he : ∀ m, Expects m tr) : Linked (play depth as h tr).2 := by
  induction as generalizing h tr with
  | nil => exact hl
  | cons a rest ih =>
    have hr := linked_record (depth + 1) (.act a) { h with log := [] } tr hl (he _)
    simp only [play]
    match Task.record (depth + 1) _ (.act a) { h with log := [] } tr, hr with
    | (none, _), hr => exact hr.1
    | (some (r, h'), tr'), hr =>
      obtain ⟨tr'', e⟩ := hr.2 r h' rfl
      simp only at e
      subst e
      exact ih h' _ hr.1 fun m => expects_after_end _ _ _ _ _

/-- In a session, every beginning is followed by what its task does first. -/
theorem linked_play (depth : Nat) (as : List Action) (h : Host) : Linked (play depth as h []).2 :=
  linked_play_after depth as h [] trivial fun _ => trivial

theorem Linked.next {later earlier : History} {m m' n : Moment} (h : Linked (later ++ m' :: m :: earlier))
    (hn : m.next = some n) : m' = n := by
  induction later with
  | nil => exact h.1 n hn
  | cons x later ih =>
    apply ih
    cases later with
    | nil => exact h.2
    | cons y later => exact h.2

end Eventful.Host
