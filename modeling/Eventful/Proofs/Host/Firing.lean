import Eventful.Proofs.Host.Calling

/-
  Eventful.Proofs.Host.Firing — an event that reaches a binding keeps the books.

  Between the moment a binding is looked up and the moment its expression is evaluated,
  nothing else runs: so it is still reached, and a `once` binding was not evaluated
  before (`pre_effect`). What its evaluation does is anything at all; a `once` binding is
  unbound after it all the same (`safeFrom_complete`).
-/

namespace Eventful.Host

open Page Binding

variable {F : Nat → Prop} {h h' : Host} {tr : History} {rt : Nat}

/-! ## What is known before an evaluation -/

/-- An id that is not bound any more is not bound later. -/
theorem not_bound_later {r : Runtime Script} {id : Nat} (ho : Onward h h') (hr : h.runtimes[rt]? = some r)
    (hid : id ≤ r.lastId) (hn : ∀ b, Binds h.runtimes rt b → b.id ≠ id) :
    ∀ b, Binds h'.runtimes rt b → b.id ≠ id := by
  intro b hb e
  obtain ⟨b₀, h₀, e₀⟩ := ho.bound hr hb (e ▸ hid)
  exact hn b₀ h₀ (e₀.trans e)

/-- A binding that goes by the id of one that was evaluated is that one. -/
theorem same_of_evaluated {b₀ : Bound} {e₀ : Event} (hfit : Fit F (.begins (.effect rt b₀ e₀) h) tr)
    (ho : Onward h h') {b : Bound} (hb : Keeps h'.runtimes rt b) (hid : b.id = b₀.id) :
    Same b₀ b ∧ (b₀.plan.isOnce = true → b.fired = true) := by
  obtain ⟨⟨hbooks, -⟩, ⟨b₁, ⟨r, hr, hreach⟩, hsame, hfired⟩, -⟩ := hfit
  have hle : b.id ≤ r.lastId := by
    rw [hid, ← hsame.id]
    exact (hbooks.runtimes hr).issued hreach
  obtain ⟨b₂, h₂, hsame', hmono⟩ := ho.reached hr hb hle
  have e : b₂ = b₁ := keeps_unique hbooks.runtimes h₂ ⟨r, hr, hreach⟩ (hsame'.id.symm.trans (hid.trans hsame.id.symm))
  subst e
  exact ⟨hsame.trans hsame', fun honce => hmono (hfired honce)⟩

/-- A `once` binding that has not fired has not been evaluated. -/
theorem not_evaluated (hn : Now F h tr) {b : Bound} (hb : Keeps h.runtimes rt b) (honce : b.plan.isOnce = true)
    (hf : b.fired = false) : ¬Evaluated tr rt b.id := by
  intro he
  obtain ⟨b₀, e₀, h₀, hm, hid⟩ := he
  obtain ⟨_, hfit⟩ := hn.told.mem hm
  obtain ⟨hsame, hfired⟩ := same_of_evaluated hfit (hn.onward _ hm) hb hid.symm
  rw [hfired (hsame.plan ▸ honce)] at hf
  cases hf

/-- The binding that a binding's event is for, if its runtime is one of `F`, is bound. -/
def BoundFor (F : Nat → Prop) (h : Host) (rt id : Nat) : Prop :=
  ∀ k, F rt → Owns h.runtimes rt k → ∃ b, Binds h.runtimes rt b ∧ b.id = id

/-- What is done once the expression was evaluated. -/
theorem meets_retire (hn : Now F h tr) {r : Runtime Script} {id : Nat} (hr : h.runtimes[rt]? = some r)
    (hid : id ≤ r.lastId) (once : Bool) (e : Event) :
    Proc.Meets (bookkeeping F) (do
      if once then
        modify fun h => (h.unbind rt id).2
      modify fun h => (h.endEvaluation rt id).endIfIdle rt
      return e : Proc Event) h tr fun _ h' tr' =>
        Comes F h tr h' tr' ∧ (once = true → ∀ b, Binds h'.runtimes rt b → b.id ≠ id) := by
  have hend : ∀ {h}, Books F h → Goes F h ((h.endEvaluation rt id).endIfIdle rt) := fun hb =>
    have hg := goes_endEvaluation hb rt id
    hg.trans (goes_endIfIdle hg.books rt)
  cases once with
  | false => exact ⟨(hend hn.books).comes hn, fun e => by cases e⟩
  | true =>
    have hg := goes_unbind hn.books rt id
    have hg' := hend hg.books
    refine ⟨(hg.trans hg').comes hn, fun _ => ?_⟩
    obtain ⟨r', hr', hl⟩ := hg.onward.runtimes rt r hr
    exact not_bound_later hg'.onward hr' (Nat.le_trans hid hl.issued)
      fun b hb e => ((binds_unbind hn.books).mp hb).2 ⟨rfl, e⟩

theorem pre_effect (hn : Now F h tr) {b : Bound} (hb : Keeps h.runtimes rt b) (hbound : BoundFor F h rt b.id)
    (hnot : b.plan.isOnce = true → ¬Evaluated tr rt b.id) {e : Event} (hled : Led rt b e tr) :
    (bookkeeping F).pre (.effect rt b e) (begun h rt b) tr := by
  obtain ⟨hbooks, honward, hstill⟩ := books_begin hn.books hb
  refine ⟨⟨⟨hbooks, hn.clocked.still hstill honward.runtimes⟩, ⟨_, keeps_edit.mpr ⟨b, hb, rfl⟩, ?_, ?_⟩, fun k hF ho => ?_, hnot, hled⟩, hn.told,
    fun m hm => (hn.onward m hm).trans honward, fun rt' b' hb' hf => ?_⟩
  · rw [if_pos ⟨rfl, rfl⟩]
    exact ⟨rfl, rfl, rfl, rfl, rfl⟩
  · rw [if_pos ⟨rfl, rfl⟩]
    exact id
  · obtain ⟨b', hb', hid⟩ := hbound k hF ((owns_iff (edit_parts _ _ _ _)).mp ho)
    exact ⟨_, binds_edit.mpr ⟨b', hb', rfl⟩, by rw [if_pos ⟨rfl, hid⟩]; exact hid⟩
  · obtain ⟨b₀, h₀, rfl⟩ := keeps_edit.mp hb'
    by_cases hid : rt' = rt ∧ b₀.id = b.id
    · rw [if_pos hid]
      obtain ⟨rfl, hid⟩ := hid
      exact ⟨b, e, _, List.mem_cons_self, hid.symm⟩
    · rw [if_neg hid] at hf ⊢
      exact (hn.accounted rt' b₀ h₀ hf).mono (List.subset_cons_self _ _)

theorem safeFrom_complete (hn : Now F h tr) {id : Nat} (hbound : BoundFor F h rt id) {e : Event}
    (hled : ∀ {b}, Keeps h.runtimes rt b → b.id = id → Led rt b e tr) : SafeFrom F h tr (complete rt id e) := by
  refine safeFrom_get ?_
  split
  · exact safe_pure e h tr hn
  · rename_i r b hlive
    obtain ⟨hr, -, hreach, rfl⟩ := (live?_eq_some hn.books.runtimes).mp hlive
    dsimp only
    split
    · exact safe_pure e h tr hn
    · rename_i hfresh
      have hkeeps : Keeps h.runtimes rt b := ⟨r, hr, hreach⟩
      have hnot : b.plan.isOnce = true → ¬Evaluated tr rt b.id := fun honce =>
        not_evaluated hn hkeeps honce (by simpa [honce] using hfresh)
      have hpre := pre_effect hn hkeeps hbound hnot (hled hkeeps rfl)
      have honward := (books_begin hn.books hkeeps).2.1
      have hid := (hn.books.runtimes hr).issued hreach
      unfold SafeFrom
      rw [meets_bind, meets_modify, meets_bind, meets_call]
      refine ⟨hpre, fun res h₂ tr₂ hp₂ hcl₂ _ => ?_⟩
      have hc₂ := comes_of_post hp₂ hcl₂
      -- The outcome is reported, if it is a failure, and then the evaluation is over.
      have hover : ∀ e' h₃ tr₃, Comes F h₂ tr₂ h₃ tr₃ → Proc.Meets (bookkeeping F) (do
          if b.plan.isOnce then
            modify fun h => (h.unbind rt b.id).2
          modify fun h => (h.endEvaluation rt b.id).endIfIdle rt
          return e' : Proc Event) h₃ tr₃ fun _ h' tr' => Comes F h tr h' tr' := by
        intro e' h₃ tr₃ hc₃
        have hc₃ := hc₂.trans hc₃
        obtain ⟨r₃, hr₃, hl₃⟩ := (honward.trans hc₃.onward).runtimes rt r hr
        refine (meets_retire hc₃.now hr₃ (Nat.le_trans hid hl₃.issued) b.plan.isOnce e').mono fun _ h' tr' hend => ?_
        have hc := hc₃.trans hend.1
        have honward' := honward.trans hc.onward
        refine ⟨hc.now, honward', fun rt' b' hb' honce he => ?_, (List.suffix_cons _ _).trans hc.grown⟩
        obtain ⟨b₀, e₀, h₀, hm, hid'⟩ := hc.settled rt' b' hb' honce he
        rcases List.mem_cons.mp hm with hm | hm
        · -- This evaluation was `b`'s, which is unbound by now.
          cases hm
          obtain ⟨b₂, h₂, hsame, -⟩ := honward'.reached hr hb'.keeps (hid' ▸ hid)
          cases keeps_unique hn.books.runtimes h₂ hkeeps (hsame.id.symm.trans hid'.symm)
          exact absurd hid'.symm (hend.2 (hsame.plan ▸ honce) b' hb')
        · exact ⟨b₀, e₀, h₀, hm, hid'⟩
      split
      · exact hover e.prevent h₂ tr₂ (.rfl hc₂.now)
      · exact hover e h₂ tr₂ (.rfl hc₂.now)
      · rw [meets_bind, meets_get, meets_bind]
        exact (safe_report _ _ h₂ tr₂ hc₂.now).mono fun _ h₃ tr₃ hc₃ => hover e h₃ tr₃ hc₃

/-! ## Events on their way -/

theorem given_safe {α : Type} {p q : Proc α} (e : p.given h = q.given h) (hq : SafeFrom F h tr q) :
    SafeFrom F h tr p := given_meets.mp (e ▸ given_meets.mpr hq)

/-- An event that passes all guards is evaluated, if none of them waits. -/
theorem safeFrom_waitless (hn : Now F h tr) {b : Bound} (hb : Keeps h.runtimes rt b) (hbound : BoundFor F h rt b.id)
    {e : Event} (hw : Waitless b.plan.guards) (hled : Admits h.page.tree b.element e b.plan.guards →
      Led rt b (heard e b.plan.guards) tr) : SafeFrom F h tr (passGuards rt b e b.plan.guards) := by
  by_cases ha : Admits h.page.tree b.element e b.plan.guards
  · have hgiven := passGuards_admits rt [] e hw ha
    rw [List.append_nil] at hgiven
    refine given_safe hgiven (safeFrom_complete hn hbound fun {b'} hb' hid => ?_)
    exact keeps_unique hn.books.runtimes hb' hb hid ▸ hled ha
  · obtain ⟨e', hgiven⟩ := passGuards_refuses rt [] e hw ha
    rw [List.append_nil] at hgiven
    exact given_safe hgiven (safe_pure e' h tr hn)

/-- An event reaches a binding. -/
theorem safeFrom_fire {m : Moment} {earlier : History} (ho : Opens F m earlier) {id : Nat}
    (hbound : BoundFor F m.host rt id) {e : Event} (hm : m.Fires rt id e) :
    SafeFrom F m.host (m :: earlier) (fire rt id e) := by
  have hb := ho.kept.books
  -- Unless its wait begins, the moment is about no binding's wait.
  have hquiet : (∀ c due e, ¬m.Arms rt id c due e) → Now F m.host (m :: earlier) :=
    fun hn => ho.now fun rt' id' => hm.not_turns hn rt' id'
  refine safeFrom_get ?_
  split
  · rename_i hnone
    refine safe_pure e m.host _ (hquiet fun c due e' ha => ?_)
    obtain ⟨_, _, _, _, _, hlive, -⟩ := ha
    cases hnone.symm.trans hlive
  · rename_i r b hlive
    obtain ⟨hr, -, hreach, rfl⟩ := (live?_eq_some hb.runtimes).mp hlive
    have hkeeps : Keeps m.host.runtimes rt b := ⟨r, hr, hreach⟩
    -- The moment could only start the wait of this binding, for this event.
    have hthis : ∀ {c due e'}, m.Arms rt b.id c due e' → (b.plan.isOnce && b.fired) = false ∧
        ∃ wait, b.plan.wait? = some wait ∧ Admits m.host.page.tree b.element e (beforeWait b.plan.guards) := by
      intro c due e' ⟨_, _, _, wait, hf, hlive', hfresh, hwait, ha, _⟩
      obtain ⟨rfl, rfl⟩ := Prod.mk.inj (Option.some.inj (hlive.symm.trans hlive'))
      obtain ⟨-, -, rfl⟩ := hm.unique hf
      exact ⟨hfresh, wait, hwait, ha⟩
    split
    · rename_i hfired
      exact safe_pure e m.host _ (hquiet fun c due e' ha => Bool.false_ne_true ((hthis ha).1.symm.trans hfired))
    · rename_i hfresh
      cases hwait : b.plan.wait? with
      | none =>
        have hn := hquiet fun c due e' ha => by
          obtain ⟨-, wait, hsome, -⟩ := hthis ha
          cases hwait.symm.trans hsome
        have hw := waitless_of_wait? hwait
        exact safeFrom_waitless hn hkeeps hbound hw fun ha => .inl ⟨hw, e, hm, ha, rfl⟩
      | some wait =>
        obtain ⟨after, hg⟩ := guards_of_wait? hwait
        have hw := waitless_beforeWait b.plan.guards
        rw [hg]
        by_cases ha : Admits m.host.page.tree b.element e (beforeWait b.plan.guards)
        · have hs := steps_arm hb rt b.id wait (heard e (beforeWait b.plan.guards))
            (fun {b'} hb' hid => ⟨wait, keeps_unique hb.runtimes hb' hkeeps hid ▸ hg ▸
              List.mem_append_right _ List.mem_cons_self⟩) fun {k} hF ho => hbound k hF ho
          have harms : m.Arms rt b.id r.clock ((m.host.clock r.clock).instant wait)
              (heard e (beforeWait b.plan.guards)) :=
            ⟨r, b, e, wait, hm, hlive, (Bool.not_eq_true _).mp hfresh, hwait, ha, rfl, rfl, rfl⟩
          have hc := clocked_arm hb ho.kept.clocked hlive harms hs.onward.runtimes
          exact given_safe (passGuards_admits rt (.debounce wait :: after) e hw ha) (hs.comes ho.told ho.onward_cons ho.accounted hc)
        · obtain ⟨e', hgiven⟩ := passGuards_refuses rt (.debounce wait :: after) e hw ha
          refine given_safe hgiven (safe_pure e' m.host _ (hquiet fun c due e' harms => ?_))
          obtain ⟨-, -, -, hadmits⟩ := hthis harms
          exact ha hadmits

/-! ## Walks -/

/-- An entry is recalled from the tracker it is in. -/
theorem recalled_of_mem (hb : Books F h) {k : Nat} {w : Entry Waiter} (hw : w ∈ (h.tracker k).entries) :
    Recalled k w h.runtimes := by
  intro rt id ha
  obtain ⟨b, hbinds, huses, -, rfl⟩ := hb.entries.backed hw ha
  cases ha
  exact ⟨rfl, issued_of_keeps hb.runtimes hbinds.keeps, huses⟩

/-- A recalled entry that is still registered leads to a bound binding, if its tracker is
    the binding's runtime's own. -/
theorem bound_of_registered (hb : Books F h) {k id : Nat} {w : Entry Waiter} (hw : Recalled k w h.runtimes)
    (ha : w.action = .binding rt id) (hreg : (h.tracker k).isRegistered w.binding = true) : BoundFor F h rt id := by
  intro k' hF ho
  obtain ⟨hid, -, huses⟩ := hw ha
  cases ho.uses.unique huses
  -- The entry by which it is registered is the runtime's as well.
  obtain ⟨w', hw', hid'⟩ := List.any_eq_true.mp hreg
  obtain ⟨id', ha'⟩ := (hb.entries.own hF ho).mine hw'
  obtain ⟨b, hbound, -, -, rfl⟩ := hb.entries.backed hw' ha'
  exact ⟨b, hbound, (beq_iff_eq.mp hid').trans hid⟩

theorem safeFrom_callEntries (k : Nat) (ws : List (Entry Waiter)) (e : Event) (hn : Now F h tr)
    (hw : ∀ w ∈ ws, Recalled k w h.runtimes) : SafeFrom F h tr (callEntries k e ws) := by
  induction ws generalizing e h tr with
  | nil => exact safe_pure e h tr hn
  | cons w rest ih =>
    have hrest : ∀ e {h' tr'}, Comes F h tr h' tr' → SafeFrom F h' tr' (callEntries k e rest) :=
      fun e _ _ hc => ih e hc.now fun w' hw' => Recalled.onward (hw w' (List.mem_cons_of_mem _ hw')) hc.onward
    refine safeFrom_get ?_
    split
    · rename_i haccepts
      have hreg := (Bool.and_eq_true_iff.mp haccepts).1
      refine SafeFrom.bind (safeFrom_call hn (fun _ _ _ e => by cases e) ⟨hn.toKept, fun rt id ha => ?_⟩)
        fun e' h' tr' hc => hrest e' hc
      have hrecalled : Recalled k w h.runtimes := hw w List.mem_cons_self
      exact ⟨(hrecalled ha).2.1, fun k' => bound_of_registered hn.books hrecalled ha hreg k'⟩
    · exact hrest e (.rfl hn)

end Eventful.Host
