import Eventful.Proofs.Host.Runs

/-
  Eventful.Proofs.Host.Replaying — the same session with other bodies.

  A session can be played with any other way to do the tasks (`playBy`). If that way does
  what the bodies do wherever a contract lets a task begin, and the bodies meet the
  contract, the two sessions are one and the same, moment by moment (`play_by`): the
  contract is used of the one to know where the other stands.
-/

namespace Eventful.Host

variable {α : Type} {κ : Kind}

/-! ## Records -/

/-- What each task does instead of its body. -/
abbrev Bodies := (κ : Kind) → Task κ → Proc κ.Carrier

def recordBy (body : Bodies) : Nat → Recorder
  | 0, _, t, h, tr => (none, .begins t h :: tr)
  | depth + 1, κ, t, h, tr =>
    match (body κ t).recordWith (recordBy body depth) h (.begins t h :: tr) with
    | (none, tr') => (none, tr')
    | (some (r, h'), tr') => (some (r, h'), .ends t r h' :: tr')

/-- A session whose tasks do `body`. -/
def playBy (body : Bodies) (depth : Nat) : List Action → Host → History → Option Host × History
  | [], h, tr => (some h, tr)
  | a :: rest, h, tr =>
    match recordBy body (depth + 1) _ (.act a) { h with log := [] } tr with
    | (none, tr') => (none, tr')
    | (some (_, h'), tr') => playBy body depth rest h' tr'

section

variable {task : Recorder} {h : Host} {tr : History}

theorem recordWith_get (k : Host → Proc α) : (get >>= k).recordWith task h tr = (k h).recordWith task h tr := rfl

theorem recordWith_modify (f : Host → Host) (k : PUnit → Proc α) :
    (modify f >>= k).recordWith task h tr = (k ⟨⟩).recordWith task (f h) tr := rfl

end

/-! ## Where the bodies do the same -/

/-- Wherever a task may begin, it does what its body does. -/
def Bodies.Follows (body : Bodies) (S : Contract) : Prop :=
  ∀ {κ : Kind} (t : Task κ) (h : Host) (tr : History), S.pre t h tr →
    ∀ task, (body κ t).recordWith task h (.begins t h :: tr) = t.body.recordWith task h (.begins t h :: tr)

variable {S : Contract} {body : Bodies}

/-- Tasks that are run alike wherever they may begin make alike procedures. -/
theorem recordWith_congr {depth : Nat} (hS : S.Holds)
    {task : Recorder} (ht : ∀ κ (t : Task κ) h tr, S.pre t h tr →
      (∀ m ∈ (Task.record depth κ t h tr).2, S.fair m) → task κ t h tr = Task.record depth κ t h tr)
    {p : Proc α} {h : Host} {tr : History} {Q : α → Host → History → Prop} (hp : p.Meets S h tr Q)
    (hf : ∀ m ∈ (p.recordWith (Task.record depth) h tr).2, S.fair m) :
    p.recordWith task h tr = p.recordWith (Task.record depth) h tr := by
  induction p generalizing h tr with
  | done a => rfl
  | get k ih => exact ih h hp hf
  | set h' k ih => exact ih hp hf
  | call t k ih =>
    have hcall := fun m hm => hf m ((recordWith_call_grows depth t k h tr).subset hm)
    have hsame := ht _ t h tr hp.1 hcall
    rcases hrec : Task.record depth _ t h tr with ⟨_ | ⟨r, h'⟩, tr'⟩
    · rw [recordWith_stuck (hsame.trans hrec), recordWith_stuck hrec]
    · rw [hrec] at hcall
      obtain ⟨-, hpost, hclosed⟩ := record_returned hS hrec hp.1 hcall
      have hends : S.fair (.ends t r h') := by
        obtain ⟨inner, -, rfl⟩ := hclosed
        exact hcall _ List.mem_cons_self
      rw [recordWith_call hrec] at hf
      rw [recordWith_call (hsame.trans hrec), recordWith_call hrec]
      exact ih r (hp.2 r h' tr' hpost hclosed hends) hf

theorem record_by (hS : S.Holds) (hb : body.Follows S) (depth : Nat) (t : Task κ) (h : Host) (tr : History)
    (hp : S.pre t h tr) (hf : ∀ m ∈ (Task.record depth κ t h tr).2, S.fair m) :
    recordBy body depth κ t h tr = Task.record depth κ t h tr := by
  induction depth generalizing κ h tr with
  | zero => rfl
  | succ depth ih =>
    have hbegin : S.fair (.begins t h) := hf _ ((record_grows (depth + 1) t h tr).subset List.mem_cons_self)
    have hbody := fun m hm => hf m ((record_body_grows depth).subset hm)
    have hsame := (hb t h tr hp (recordBy body depth)).trans
      (recordWith_congr hS (fun κ t h tr => ih t h tr) (hS t h tr hp hbegin) hbody)
    rcases hrun : t.body.recordWith (Task.record depth) h (.begins t h :: tr) with ⟨_ | ⟨r, h'⟩, tr'⟩
    · rw [record_of_stuck hrun, recordBy, hsame.trans hrun]
    · rw [record_of_body hrun, recordBy, hsame.trans hrun]

/-- A session in which every host between the actions may begin any action. -/
theorem play_by (hS : S.Holds) (hb : body.Follows S) (Ready : Host → History → Prop)
    (hr : ∀ {h tr}, Ready h tr → ∀ a : Action, S.pre (.act a) { h with log := [] } tr)
    (hq : ∀ {a : Action} {h tr r h' tr'}, S.post (.act a) h tr r h' tr' → Closes (.act a) h tr r h' tr' → Ready h' tr')
    (depth : Nat) (as : List Action) (h : Host) (tr : History) (hi : Ready h tr)
    (hf : ∀ m ∈ (play depth as h tr).2, S.fair m) : playBy body depth as h tr = play depth as h tr := by
  induction as generalizing h tr with
  | nil => rfl
  | cons a rest ih =>
    have hact := fun m hm => hf m ((play_cons_grows depth a rest h tr).subset hm)
    have hsame := record_by hS hb (depth + 1) (.act a) { h with log := [] } tr (hr hi a) hact
    unfold playBy
    rcases hrec : Task.record (depth + 1) _ (.act a) { h with log := [] } tr with ⟨_ | ⟨r, h'⟩, tr'⟩
    · rw [hsame, hrec, play_stuck hrec]
    · rw [hrec] at hact
      obtain ⟨-, hpost, hclosed⟩ := record_returned hS hrec (hr hi a) hact
      rw [play_cons hrec] at hf
      rw [hsame, hrec, play_cons hrec]
      exact ih h' tr' (hq hpost hclosed) hf

end Eventful.Host
