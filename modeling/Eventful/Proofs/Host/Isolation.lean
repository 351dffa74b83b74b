import Eventful.Proofs.Host.Faithful
import Eventful.Proofs.Host.Runs

/-
  Eventful.Proofs.Host.Isolation — a failing expression keeps to itself.

  A history shows what happened outside of error hooks, in hosts without evaluators and
  logs, and with faults out of sight (`shown`). If error hooks only look, two sessions
  whose evaluators agree but for faults show the same, and each makes all reports that are
  due and no other (`session_isolated`). The proof is one induction on how deep calls nest,
  with the procedures of both sessions side by side (`echoes_recordWith`). A hook's own
  actions need two more levels in the session that calls it.
-/

namespace Eventful.Host

open Page Binding

variable {α β : Type} {κ : Kind} {c : Evaluator → Evaluator} {h h' h₁ h₂ : Host} {tr tr' tr₁ tr₂ : History} {m : Moment}

/-! ## What a history shows -/

def Moment.isHook : Moment → Bool
  | .begins t _ => t.isHook
  | .ends t _ _ => t.isHook

/-- How many calls of error hooks have not come back. -/
def hooksOpen : History → Nat
  | [] => 0
  | .begins t _ :: tr => if t.isHook then hooksOpen tr + 1 else hooksOpen tr
  | .ends t _ _ :: tr => if t.isHook then hooksOpen tr - 1 else hooksOpen tr

/-- The moment in a host with other evaluators, with faults out of sight. -/
def Moment.recast (c : Evaluator → Evaluator) : Moment → Moment
  | .begins t h => .begins t (h.recast c)
  | @Moment.ends κ t r h => .ends t (κ.settled r) (h.recast c)

/-- What happened outside of error hooks. -/
def shownBy (c : Evaluator → Evaluator) : History → History
  | [] => []
  | m :: tr => if m.isHook || 0 < hooksOpen tr then shownBy c tr else m.recast c :: shownBy c tr

theorem hooksOpen_other (hm : m.isHook = false) : hooksOpen (m :: tr) = hooksOpen tr := by
  cases m <;> exact if_neg (Bool.eq_false_iff.mp hm)

theorem shownBy_other (hm : m.isHook = false) (ho : hooksOpen tr = 0) : shownBy c (m :: tr) = m.recast c :: shownBy c tr := by
  rw [shownBy, hm, ho]
  rfl

theorem shownBy_hook (hm : m.isHook = true) : shownBy c (m :: tr) = shownBy c tr := by
  rw [shownBy, hm]
  rfl

theorem shownBy_within (ho : 0 < hooksOpen tr) : shownBy c (m :: tr) = shownBy c tr := by
  rw [shownBy, if_pos]
  simp [ho]

theorem shownBy_grows (hs : tr <:+ tr') : shownBy c tr <:+ shownBy c tr' := by
  obtain ⟨later, rfl⟩ := hs
  induction later with
  | nil => exact List.suffix_refl _
  | cons m later ih =>
    rw [List.cons_append, shownBy]
    split
    · exact ih
    · exact ih.trans (List.suffix_cons _ _)

/-! ## Reports -/

def Moment.reports : Moment → Reports
  | .begins (.hook s f) _ => [(s, f)]
  | _ => []

def Moment.owed : Moment → Reports
  | .begins .. => []
  | .ends t r h => t.owed r h

/-- The calls of error hooks, first to last. -/
def reported (tr : History) : Reports := tr.reverse.flatMap Moment.reports

/-- For every evaluation that failed, a call of every error hook that its runtime had then. -/
def due (tr : History) : Reports := tr.reverse.flatMap Moment.owed

@[simp] theorem reported_cons : reported (m :: tr) = reported tr ++ m.reports := by simp [reported]

@[simp] theorem due_cons : due (m :: tr) = due tr ++ m.owed := by simp [due]

theorem reported_grows (hs : tr <:+ tr') : reported tr ⊆ reported tr' := by
  obtain ⟨later, rfl⟩ := hs
  simp [reported]

theorem reports_other (hm : m.isHook = false) : m.reports = [] := by
  cases m with
  | begins t h =>
    cases t with
    | hook s f => cases hm
    | _ => rfl
  | ends t r h => rfl

/-- No report was made that was not due, and all were made before anything else happened. -/
def Prompt : History → Prop
  | [] => True
  | m :: tr =>
    reported (m :: tr) <+: due (m :: tr) ∧ (m.isHook = false → hooksOpen tr = 0 → reported tr = due tr) ∧ Prompt tr

/-- No hook is being called, and these reports are still to be made. -/
structure Owing (tr : History) (ds : Reports) : Prop where
  idle : hooksOpen tr = 0
  left : reported tr ++ ds = due tr
  prompt : Prompt tr

/-- Something else happens once all reports are made. -/
theorem Owing.other (ho : Owing tr []) (hm : m.isHook = false) : Owing (m :: tr) m.owed := by
  have hdue : reported tr = due tr := by simpa using ho.left
  have hreports := reports_other hm
  exact ⟨(hooksOpen_other hm).trans ho.idle, by simp [hdue, hreports], by simp [hdue, hreports], fun _ _ => hdue, ho.prompt⟩

/-! ## Hooks that only look -/

/-- The action comes back without calling anything, and leaves the host as it is. -/
def Action.Looks (a : Action) : Prop := ∀ h, ∃ r, (perform a).run 0 h = some (r, h)

def Script.Quiet (s : Script) : Prop := ∀ a ∈ s.actions, a.Looks

/-- Nothing that is shown, owed or reported happened between the histories. -/
structure Hushed (c : Evaluator → Evaluator) (tr tr' : History) : Prop where
  shown : shownBy c tr' = shownBy c tr
  hooks : hooksOpen tr' = hooksOpen tr
  reports : reported tr' = reported tr
  dues : due tr' = due tr
  prompt : Prompt tr → Prompt tr'

theorem Hushed.trans {tr'' : History} (h₁ : Hushed c tr tr') (h₂ : Hushed c tr' tr'') : Hushed c tr tr'' :=
  ⟨h₂.shown.trans h₁.shown, h₂.hooks.trans h₁.hooks, h₂.reports.trans h₁.reports, h₂.dues.trans h₁.dues,
    fun hp => h₂.prompt (h₁.prompt hp)⟩

theorem hushed_within (ho : 0 < hooksOpen tr) (hm : m.isHook = false) (hw : m.owed = []) (hp : reported tr <+: due tr) :
    Hushed c tr (m :: tr) where
  shown := shownBy_within ho
  hooks := hooksOpen_other hm
  reports := by simp [reports_other hm]
  dues := by simp [hw]
  prompt hprompt := ⟨by simpa [reports_other hm, hw] using hp, fun _ hidle => absurd hidle (Nat.ne_of_gt ho), hprompt⟩

/-- What becomes of actions that only look. -/
structure Quieted (c : Evaluator → Evaluator) (depth : Nat) (h : Host) (tr : History)
    (res : Option (α × Host) × History) : Prop where
  hushed : Hushed c tr res.2
  alike : ∀ {a h'}, res.1 = some (a, h') → Alike c h' h
  back : 0 < depth → res.1.isSome

theorem quieted_runActions {as : List Action} (hq : ∀ a ∈ as, a.Looks) (depth : Nat) (h : Host) (ho : 0 < hooksOpen tr)
    (hp : reported tr <+: due tr) :
    Quieted c depth h tr ((runActions none as).recordWith (Task.record depth) h tr) := by
  induction as generalizing h tr with
  | nil => exact ⟨⟨rfl, rfl, rfl, rfl, id⟩, fun e => by cases e; rfl, fun _ => rfl⟩
  | cons a rest ih =>
    obtain ⟨ha, hrest⟩ := List.forall_mem_cons.mp hq
    obtain ⟨r, hr⟩ := ha h
    have hbegins : Hushed c tr (.begins (.act a) h :: tr) := hushed_within ho rfl rfl hp
    cases depth with
    | zero => exact ⟨hbegins, nofun, fun hd => absurd hd (Nat.lt_irrefl 0)⟩
    | succ d =>
      have hact : Task.record (d + 1) _ (.act a) h tr = (some (r, h), .ends (.act a) r h :: .begins (.act a) h :: tr) :=
        record_of_body (recordWith_of_run hr _)
      have hends : Hushed c tr (.ends (.act a) r h :: .begins (.act a) h :: tr) :=
        hbegins.trans (hushed_within (hbegins.hooks ▸ ho) rfl rfl (by simpa [Moment.reports, Moment.owed] using hp))
      have hp' : reported (.ends (.act a) r h :: .begins (.act a) h :: tr) <+:
          due (.ends (.act a) r h :: .begins (.act a) h :: tr) := by
        rw [hends.reports, hends.dues]
        exact hp
      have hrest := ih hrest (h.note (.did a r)) (hends.hooks ▸ ho) hp'
      have hcons : (runActions none (a :: rest)).recordWith (Task.record (d + 1)) h tr =
          (runActions none rest).recordWith (Task.record (d + 1)) (h.note (.did a r))
            (.ends (.act a) r h :: .begins (.act a) h :: tr) :=
        recordWith_call hact
      rw [hcons]
      exact ⟨hends.trans hrest.hushed, fun e => (hrest.alike e).trans (alike_note _), hrest.back⟩

/-- What becomes of a report that is made, with these to be made after it. -/
structure Made (c : Evaluator → Evaluator) (ds : Reports) (depth : Nat) (h : Host) (tr : History)
    (res : Option (Unit × Host) × History) : Prop where
  shown : shownBy c res.2 = shownBy c tr
  prompt : Prompt res.2
  back : ∀ {h'}, res.1 = some ((), h') → Alike c h' h ∧ Owing res.2 ds
  some : 2 ≤ depth → res.1.isSome

theorem made_hook {s : Script} {f : Failure} {ds : Reports} (hq : s.Quiet) (ho : Owing tr ((s, f) :: ds)) (depth : Nat)
    (h : Host) : Made c ds depth h tr (Task.record depth _ (.hook s f) h tr) := by
  have hleft : reported (.begins (.hook s f) h :: tr) ++ ds = due (.begins (.hook s f) h :: tr) := by
    simpa [Moment.reports, Moment.owed] using ho.left
  have hbegins : Prompt (.begins (.hook s f) h :: tr) := ⟨⟨ds, hleft⟩, nofun, ho.prompt⟩
  cases depth with
  | zero => exact ⟨shownBy_hook rfl, hbegins, fun e => (by cases e), fun hd => by omega⟩
  | succ d =>
    have hopen : hooksOpen (.begins (.hook s f) h :: tr) = 1 := congrArg (· + 1) ho.idle
    obtain ⟨hhushed, halike, hback⟩ :=
      quieted_runActions (c := c) hq d (h.note (.failure s.label f)) (hopen ▸ Nat.one_pos) ⟨ds, hleft⟩
    rcases hrun : (runActions none s.actions).recordWith (Task.record d) (h.note (.failure s.label f))
      (.begins (.hook s f) h :: tr) with ⟨_ | ⟨x, h'⟩, tr'⟩
    · rw [hrun] at hhushed hback
      have hbody : Task.record (d + 1) _ (.hook s f) h tr = (none, tr') :=
        record_of_stuck (recordWith_bind_stuck (p := runActions none s.actions) hrun)
      rw [hbody]
      refine ⟨hhushed.shown.trans (shownBy_hook rfl), hhushed.prompt hbegins, fun e => ?_, fun hd => ?_⟩
      · cases e
      · cases hback (by omega)
    · rw [hrun] at hhushed halike
      have hbody : Task.record (d + 1) _ (.hook s f) h tr = (some ((), h'), .ends (.hook s f) () h' :: tr') :=
        record_of_body (recordWith_bind (p := runActions none s.actions) hrun)
      rw [hbody]
      have hidle : hooksOpen (.ends (.hook s f) () h' :: tr') = 0 := congrArg (· - 1) (hhushed.hooks.trans hopen)
      have hends : reported (.ends (.hook s f) () h' :: tr') ++ ds = due (.ends (.hook s f) () h' :: tr') := by
        simpa [Moment.reports, Moment.owed, Task.owed, hhushed.reports, hhushed.dues] using hleft
      have howing : Owing (.ends (.hook s f) () h' :: tr') ds :=
        ⟨hidle, hends, ⟨ds, hends⟩, nofun, hhushed.prompt hbegins⟩
      refine ⟨?_, howing.prompt, fun e => ?_, fun _ => rfl⟩
      · exact (shownBy_hook rfl).trans (hhushed.shown.trans (shownBy_hook rfl))
      · cases e
        exact ⟨(halike rfl).trans (alike_note _), howing⟩

/-! ## Two runs -/

/-- What the second run shows as well, and comes back as; neither has reports left then but
    these. -/
structure Echoes (c : Evaluator → Evaluator) (R : α → α → Prop) (owed : α → Host → Reports)
    (res₁ res₂ : Option (α × Host) × History) : Prop where
  shown : shownBy c res₁.2 <:+ shownBy c res₂.2
  prompt : Prompt res₁.2
  back : ∀ {a₁ h₁}, res₁.1 = some (a₁, h₁) → ∃ a₂ h₂, res₂.1 = some (a₂, h₂) ∧ R a₁ a₂ ∧ Alike c h₁ h₂ ∧
    shownBy c res₁.2 = shownBy c res₂.2 ∧ Owing res₁.2 (owed a₁ h₁) ∧ Owing res₂.2 (owed a₂ h₂)

/-- All hooks that were called only look. -/
def Hushes (tr : History) : Prop := ∀ x ∈ reported tr, x.1.Quiet

theorem Hushes.earlier (hq : Hushes tr') (hs : tr <:+ tr') : Hushes tr := fun x hx => hq x (reported_grows hs hx)

theorem Hushes.hook {s : Script} {f : Failure} (hq : Hushes tr') (hs : .begins (.hook s f) h :: tr <:+ tr') : s.Quiet :=
  hq (s, f) (reported_grows hs (by simp [Moment.reports]))

/-- Tasks at a depth do the same in two runs. -/
def Isolates (c : Evaluator → Evaluator) (depth : Nat) : Prop :=
  ∀ {κ : Kind} {t : Task κ} {h₁ h₂ : Host} {tr₁ tr₂ : History}, t.isHook = false → Alike c h₁ h₂ →
    shownBy c tr₁ = shownBy c tr₂ → Owing tr₁ [] → Owing tr₂ [] →
    Hushes (Task.record depth κ t h₁ tr₁).2 → Hushes (Task.record (depth + 2) κ t h₂ tr₂).2 →
    Echoes c (fun r₁ r₂ => κ.settled r₁ = κ.settled r₂) t.owed (Task.record depth κ t h₁ tr₁)
      (Task.record (depth + 2) κ t h₂ tr₂)

theorem echoes_recordWith {depth : Nat} (hi : Isolates c depth) {R : α → α → Prop} {ds₁ ds₂ : Reports} {p₁ p₂ : Proc α}
    (hm : Mirrors c R ds₁ ds₂ h₁ h₂ p₁ p₂) (hs : shownBy c tr₁ = shownBy c tr₂) (ho₁ : Owing tr₁ ds₁)
    (ho₂ : Owing tr₂ ds₂) (hq₁ : Hushes (p₁.recordWith (Task.record depth) h₁ tr₁).2)
    (hq₂ : Hushes (p₂.recordWith (Task.record (depth + 2)) h₂ tr₂).2) :
    Echoes c R (fun _ _ => []) (p₁.recordWith (Task.record depth) h₁ tr₁)
      (p₂.recordWith (Task.record (depth + 2)) h₂ tr₂) := by
  have grows : ∀ {d : Nat} (p : Proc α) (h tr), tr <:+ (p.recordWith (Task.record d) h tr).2 := fun p h tr =>
    recordWith_grows (fun κ t h tr => record_suffix _ t h tr) p h tr
  induction hm generalizing tr₁ tr₂ with
  | done ha hr =>
    refine ⟨hs ▸ List.suffix_refl _, ho₁.prompt, fun e => ?_⟩
    cases e
    exact ⟨_, _, rfl, hr, ha, hs, ho₁, ho₂⟩
  | get _ ih => exact ih hs ho₁ ho₂ hq₁ hq₂
  | get' _ ih => exact ih hs ho₁ ho₂ hq₁ hq₂
  | set _ ih => exact ih hs ho₁ ho₂ hq₁ hq₂
  | set' _ ih => exact ih hs ho₁ ho₂ hq₁ hq₂
  | @call h₁ h₂ κ t k₁ k₂ ha ht _ ih =>
    have hsub₁ := recordWith_call_grows depth t k₁ h₁ tr₁
    have hsub₂ := recordWith_call_grows (depth + 2) t k₂ h₂ tr₂
    have hf := hi ht ha hs ho₁ ho₂ (hq₁.earlier hsub₁) (hq₂.earlier hsub₂)
    rcases e₁ : Task.record depth κ t h₁ tr₁ with ⟨_ | ⟨r₁, h₁'⟩, tr₁'⟩
    · rw [e₁] at hf
      rw [recordWith_stuck e₁]
      exact ⟨hf.shown.trans (shownBy_grows hsub₂), hf.prompt, fun e => by cases e⟩
    · rw [e₁] at hf
      obtain ⟨r₂, h₂', e₂, hr, ha', hs', ho₁', ho₂'⟩ := hf.back rfl
      rcases e₂' : Task.record (depth + 2) κ t h₂ tr₂ with ⟨res, tr₂'⟩
      rw [e₂'] at e₂ hs' ho₂'
      obtain rfl : res = some (r₂, h₂') := e₂
      rw [recordWith_call e₁] at hq₁ ⊢
      rw [recordWith_call e₂'] at hq₂ ⊢
      exact ih r₁ r₂ h₁' h₂' hr ha' hs' ho₁' ho₂' hq₁ hq₂
  | @hook ds₁ ds₂ h₁ h₂ s f k p _ ih =>
    have hsub := (record_grows depth (.hook s f) h₁ tr₁).trans (recordWith_call_grows depth (.hook s f) k h₁ tr₁)
    have hquiet : s.Quiet := hq₁.hook hsub
    obtain ⟨hshown, hprompt, hback, -⟩ := made_hook (c := c) hquiet ho₁ depth h₁
    rcases e₁ : Task.record depth _ (.hook s f) h₁ tr₁ with ⟨_ | ⟨r₁, h₁'⟩, tr₁'⟩
    · rw [e₁] at hshown hprompt
      rw [recordWith_stuck e₁]
      exact ⟨hshown.trans hs ▸ shownBy_grows (grows _ _ _), hprompt, fun e => by cases e⟩
    · rw [e₁] at hshown hback
      rw [recordWith_call e₁] at hq₁ ⊢
      obtain ⟨ha', ho₁'⟩ := hback rfl
      exact ih h₁' ha' (hshown.trans hs) ho₁' ho₂ hq₁ hq₂
  | @hook' ds₁ ds₂ h₁ h₂ s f k p _ ih =>
    have hsub := (record_grows (depth + 2) (.hook s f) h₂ tr₂).trans (recordWith_call_grows (depth + 2) (.hook s f) k h₂ tr₂)
    have hquiet : s.Quiet := hq₂.hook hsub
    obtain ⟨hshown, -, hback, hsome⟩ := made_hook (c := c) hquiet ho₂ (depth + 2) h₂
    rcases e₂ : Task.record (depth + 2) _ (.hook s f) h₂ tr₂ with ⟨_ | ⟨r₂, h₂'⟩, tr₂'⟩
    · rw [e₂] at hsome
      cases hsome (by omega)
    · rw [e₂] at hshown hback
      rw [recordWith_call e₂] at hq₂ ⊢
      obtain ⟨ha', ho₂'⟩ := hback rfl
      exact ih h₂' ha' (hs.trans hshown.symm) ho₁ ho₂' hq₁ hq₂

theorem shownBy_begins {t : Task κ} (ht : t.isHook = false) (ha : Alike c h₁ h₂) (hs : shownBy c tr₁ = shownBy c tr₂)
    (hi₁ : hooksOpen tr₁ = 0) (hi₂ : hooksOpen tr₂ = 0) :
    shownBy c (.begins t h₁ :: tr₁) = shownBy c (.begins t h₂ :: tr₂) := by
  have hm : (Moment.begins t h₁).recast c = (Moment.begins t h₂).recast c := congrArg (Moment.begins t) ha
  rw [shownBy_other (m := .begins t h₁) ht hi₁, shownBy_other (m := .begins t h₂) ht hi₂, hs, hm]

theorem shownBy_ends {t : Task κ} {r₁ r₂ : κ.Carrier} (ht : t.isHook = false) (hr : κ.settled r₁ = κ.settled r₂)
    (ha : Alike c h₁ h₂) (hs : shownBy c tr₁ = shownBy c tr₂) (hi₁ : hooksOpen tr₁ = 0) (hi₂ : hooksOpen tr₂ = 0) :
    shownBy c (.ends t r₁ h₁ :: tr₁) = shownBy c (.ends t r₂ h₂ :: tr₂) := by
  have hm : (Moment.ends t r₁ h₁).recast c = (Moment.ends t r₂ h₂).recast c := congrArg₂ (Moment.ends t) hr ha
  rw [shownBy_other (m := .ends t r₁ h₁) ht hi₁, shownBy_other (m := .ends t r₂ h₂) ht hi₂, hs, hm]

theorem isolates (hc : Canonical c) (depth : Nat) : Isolates c depth := by
  induction depth with
  | zero =>
    intro κ t h₁ h₂ tr₁ tr₂ ht ha hs ho₁ ho₂ _ _
    have hbegins := shownBy_begins ht ha hs ho₁.idle ho₂.idle
    refine ⟨?_, (ho₁.other (m := .begins t h₁) ht).prompt, nofun⟩
    show shownBy c (.begins t h₁ :: tr₁) <:+ _
    rw [hbegins]
    exact shownBy_grows (record_grows 2 t h₂ tr₂)
  | succ depth ih =>
    intro κ t h₁ h₂ tr₁ tr₂ ht ha hs ho₁ ho₂ hq₁ hq₂
    have hf := echoes_recordWith ih (mirrors_body hc t ha) (shownBy_begins ht ha hs ho₁.idle ho₂.idle)
      (ho₁.other (m := .begins t h₁) ht) (ho₂.other (m := .begins t h₂) ht) (hq₁.earlier (record_body_grows depth))
      (hq₂.earlier (record_body_grows (depth + 2)))
    rcases e₁ : t.body.recordWith (Task.record depth) h₁ (.begins t h₁ :: tr₁) with ⟨_ | ⟨r₁, h₁'⟩, tr₁'⟩
    · rw [e₁] at hf
      rw [record_of_stuck e₁]
      exact ⟨hf.shown.trans (shownBy_grows (record_body_grows (depth + 2))), hf.prompt, fun e => by cases e⟩
    · rw [e₁] at hf
      obtain ⟨r₂, h₂', e₂, hr, ha', hs', ho₁', ho₂'⟩ := hf.back rfl
      rcases e₂' : t.body.recordWith (Task.record (depth + 2)) h₂ (.begins t h₂ :: tr₂) with ⟨res, tr₂'⟩
      rw [e₂'] at e₂ hs' ho₂'
      obtain rfl : res = some (r₂, h₂') := e₂
      have hends := shownBy_ends ht hr ha' hs' ho₁'.idle ho₂'.idle
      have hleft₁ := ho₁'.other (m := .ends t r₁ h₁') ht
      have hleft₂ := ho₂'.other (m := .ends t r₂ h₂') ht
      rw [record_of_body e₁, record_of_body e₂']
      refine ⟨hends ▸ List.suffix_refl _, hleft₁.prompt, fun e => ?_⟩
      cases e
      exact ⟨r₂, h₂', rfl, hr, ha', hends, hleft₁, hleft₂⟩

theorem echoes_play (hc : Canonical c) (depth : Nat) (as : List Action) (ha : Alike c h₁ h₂)
    (hs : shownBy c tr₁ = shownBy c tr₂) (ho₁ : Owing tr₁ []) (ho₂ : Owing tr₂ [])
    (hq₁ : Hushes (play depth as h₁ tr₁).2) (hq₂ : Hushes (play (depth + 2) as h₂ tr₂).2) :
    shownBy c (play depth as h₁ tr₁).2 <:+ shownBy c (play (depth + 2) as h₂ tr₂).2 ∧
      Prompt (play depth as h₁ tr₁).2 ∧
      ∀ h₁', (play depth as h₁ tr₁).1 = some h₁' → Owing (play depth as h₁ tr₁).2 [] ∧
        ∃ h₂', (play (depth + 2) as h₂ tr₂).1 = some h₂' ∧ Alike c h₁' h₂' ∧
          shownBy c (play depth as h₁ tr₁).2 = shownBy c (play (depth + 2) as h₂ tr₂).2 := by
  induction as generalizing h₁ h₂ tr₁ tr₂ with
  | nil =>
    refine ⟨hs ▸ List.suffix_refl _, ho₁.prompt, fun h₁' e => ?_⟩
    cases e
    exact ⟨ho₁, h₂, rfl, ha, hs⟩
  | cons a rest ih =>
    have ha' : Alike c { h₁ with log := [] } { h₂ with log := [] } := ha
    have hsub₁ := play_cons_grows depth a rest h₁ tr₁
    have hsub₂ := play_cons_grows (depth + 2) a rest h₂ tr₂
    have hf := isolates hc (depth + 1) (t := .act a) rfl ha' hs ho₁ ho₂ (hq₁.earlier hsub₁) (hq₂.earlier hsub₂)
    rcases e₁ : Task.record (depth + 1) _ (.act a) { h₁ with log := [] } tr₁ with ⟨_ | ⟨r₁, h₁'⟩, tr₁'⟩
    · rw [e₁] at hf
      rw [play_stuck e₁]
      exact ⟨hf.shown.trans (shownBy_grows hsub₂), hf.prompt, fun _ e => by cases e⟩
    · rw [e₁] at hf
      obtain ⟨r₂, h₂', e₂, -, ha', hs', ho₁', ho₂'⟩ := hf.back rfl
      rcases e₂' : Task.record (depth + 2 + 1) _ (.act a) { h₂ with log := [] } tr₂ with ⟨res, tr₂'⟩
      rw [e₂'] at e₂ hs' ho₂'
      obtain rfl : res = some (r₂, h₂') := e₂
      rw [play_cons e₁] at hq₁ ⊢
      rw [play_cons e₂'] at hq₂ ⊢
      exact ih ha' hs' ho₁' ho₂' hq₁ hq₂

/-! ## Sessions -/

/-- One evaluator for all. -/
def blank (_ : Evaluator) : Evaluator := .script .empty

/-- What happened outside of error hooks, in hosts without evaluators and logs. -/
def shown (tr : History) : History := shownBy blank tr

/-- Hosts that differ in nothing but their logs and their runtimes' evaluators, and those in
    nothing but faults. -/
structure Twins (h₁ h₂ : Host) : Prop where
  same : h₁.recast blank = h₂.recast blank
  agree : ∀ {rt r₁ r₂}, h₁.runtime? rt = some r₁ → h₂.runtime? rt = some r₂ → r₁.evaluator.Agrees r₂.evaluator

theorem recast_blank (h : Host) : (h.recast c).recast blank = h.recast blank := by
  have hblank : (Runtime.recast blank ∘ Runtime.recast c : Runtime Script → Runtime Script) = Runtime.recast blank := rfl
  simp [recast, hblank]

theorem twins_iff (hc : Canonical c) : Twins h₁ h₂ ↔ Alike c h₁ h₂ := by
  constructor
  · intro ht
    have hruntimes : h₁.runtimes.map (Runtime.recast c) = h₂.runtimes.map (Runtime.recast c) := by
      refine List.ext_getElem? fun rt => ?_
      have hsame : (h₁.runtime? rt).map (Runtime.recast blank) = (h₂.runtime? rt).map (Runtime.recast blank) := by
        rw [← recast_runtime?, ← recast_runtime?, ht.same]
      rw [List.getElem?_map, List.getElem?_map]
      show (h₁.runtime? rt).map (Runtime.recast c) = (h₂.runtime? rt).map (Runtime.recast c)
      cases hr₁ : h₁.runtime? rt with
      | none =>
        have hr₂ : h₂.runtime? rt = none := by simpa [hr₁] using hsame.symm
        rw [hr₂]
      | some r₁ =>
        cases hr₂ : h₂.runtime? rt with
        | none => simp [hr₁, hr₂] at hsame
        | some r₂ =>
          have hr : r₁.recast blank = r₂.recast blank := by simpa [hr₁, hr₂] using hsame
          have hev : c r₁.evaluator = c r₂.evaluator := hc.same.mpr (ht.agree hr₁ hr₂)
          exact congrArg some (congrArg₂ (fun (r : Runtime Script) ev => { r with evaluator := ev }) hr hev)
    exact congrArg₂ (fun (h : Host) rs => { h with runtimes := rs }) ht.same hruntimes
  · intro ha
    refine ⟨by rw [← recast_blank (c := c) h₁, ha, recast_blank], fun {rt r₁ r₂} hr₁ hr₂ => ?_⟩
    have hr : (h₁.runtime? rt).map (Runtime.recast c) = (h₂.runtime? rt).map (Runtime.recast c) := by
      rw [← recast_runtime?, ← recast_runtime?, ha]
    rw [hr₁, hr₂] at hr
    exact hc.same.mp (congrArg Runtime.evaluator (Option.some.inj hr))

theorem recast_shown (tr : History) : shown tr = (shownBy c tr).map (Moment.recast blank) := by
  have hrecast : ∀ m : Moment, (m.recast c).recast blank = m.recast blank := by
    intro m
    cases m with
    | begins t h => exact congrArg (Moment.begins t) (recast_blank h)
    | @ends κ t r h =>
      have hsettled : κ.settled (κ.settled r) = κ.settled r := by
        cases κ with
        | outcome => cases r <;> rfl
        | _ => rfl
      exact congrArg₂ (Moment.ends t) hsettled (recast_blank h)
  unfold shown
  induction tr with
  | nil => rfl
  | cons m tr ih =>
    unfold shownBy
    split
    · exact ih
    · rw [List.map_cons, ih, hrecast]

/-- If evaluators differ in nothing but faults, and error hooks only look, the same actions
    lead to the same calls in the same hosts, which come back with the same results but for
    faults, as far as the first session comes; and if that comes back, so does the second.
    A failed evaluation is reported to each error hook of its runtime, once, before anything
    else happens; nothing else is reported. -/
theorem session_isolated (depth : Nat) (as : List Action) (h₁ h₂ : Host) (ht : Twins h₁ h₂)
    (hq₁ : ∀ x ∈ reported (play depth as h₁ []).2, x.1.Quiet)
    (hq₂ : ∀ x ∈ reported (play (depth + 2) as h₂ []).2, x.1.Quiet) :
    shown (play depth as h₁ []).2 <:+ shown (play (depth + 2) as h₂ []).2 ∧
      Prompt (play depth as h₁ []).2 ∧
      ∀ h₁', (play depth as h₁ []).1 = some h₁' →
        reported (play depth as h₁ []).2 = due (play depth as h₁ []).2 ∧
          ∃ h₂', (play (depth + 2) as h₂ []).1 = some h₂' ∧ Twins h₁' h₂' ∧
            shown (play depth as h₁ []).2 = shown (play (depth + 2) as h₂ []).2 := by
  obtain ⟨c, hc⟩ := canonical_exists
  have hstart : Owing [] [] := ⟨rfl, rfl, trivial⟩
  obtain ⟨hshown, hprompt, hback⟩ := echoes_play hc depth as ((twins_iff hc).mp ht) rfl hstart hstart hq₁ hq₂
  rw [recast_shown (c := c), recast_shown (c := c)]
  refine ⟨hshown.map _, hprompt, fun h₁' e => ?_⟩
  obtain ⟨howing, h₂', e₂, ha, hs⟩ := hback h₁' e
  exact ⟨by simpa using howing.left, h₂', e₂, (twins_iff hc).mpr ha, by rw [hs]⟩

/-- A runtime with two bindings, of which the first evaluates as told, and an error hook. -/
def bindsTwo (first : Outcome) : List Action :=
  [.newRuntime ⟨none, false, none, .custom fun expression _ =>
      .done (if expression = "explode()" then first else .ok (.boolean false))⟩,
    .onError 0 (.mk "failed" [.textContent 3]),
    .bindDirective 0 3 ⟨"x-on:click.once", "click", [.once], "explode()"⟩ 0,
    .bindDirective 0 3 ⟨"x-on:click", "click", [], "false"⟩ 0]

def boundTwo (first : Outcome) : Host := ((play 3 (bindsTwo first) (.new "" .browser []) []).1).getD (.new "" .browser [])

theorem boundTwo_twins : Twins (boundTwo (.error .notATarget)) (boundTwo (.ok .undefined)) where
  same := rfl
  agree := by
    intro rt r₁ r₂ hr₁ hr₂
    cases rt with
    | zero =>
      cases hr₁
      cases hr₂
      intro expression e data
      unfold Evaluator.asks
      by_cases hx : expression = "explode()"
      · simp only [hx, if_true]
        exact .done rfl
      · simp only [hx, if_false]
        exact .done rfl
    | succ rt => cases hr₁

/-- The click that the first binding fails on goes on to the second, and is reported once. -/
theorem explodes_isolated : ∃ h₁ h₂,
    (play 3 [.click 3] (boundTwo (.error .notATarget)) []).1 = some h₁ ∧
      reported (play 3 [.click 3] (boundTwo (.error .notATarget)) []).2 =
        [(.mk "failed" [.textContent 3], ⟨1, 3, "click", "explode()", .notATarget⟩)] ∧
      (play 5 [.click 3] (boundTwo (.ok .undefined)) []).1 = some h₂ ∧
      reported (play 5 [.click 3] (boundTwo (.ok .undefined)) []).2 = [] ∧ Twins h₁ h₂ ∧
      shown (play 3 [.click 3] (boundTwo (.error .notATarget)) []).2 =
        shown (play 5 [.click 3] (boundTwo (.ok .undefined)) []).2 := by
  have hreported : reported (play 3 [.click 3] (boundTwo (.error .notATarget)) []).2 =
      [(.mk "failed" [.textContent 3], ⟨1, 3, "click", "explode()", .notATarget⟩)] := rfl
  have hnone : reported (play 5 [.click 3] (boundTwo (.ok .undefined)) []).2 = [] := rfl
  have hquiet : Script.Quiet (.mk "failed" [.textContent 3]) := List.forall_mem_singleton.mpr fun h => ⟨_, rfl⟩
  obtain ⟨-, -, hback⟩ :=
    session_isolated 3 [.click 3] _ _ boundTwo_twins (by simpa [hreported] using hquiet) (by simp [hnone])
  obtain ⟨-, h₂, e₂, ht, hs⟩ := hback _ rfl
  exact ⟨_, h₂, rfl, hreported, e₂, hnone, ht, hs⟩

end Eventful.Host
