import Eventful.Proofs.Host.Waiting

/-
  Eventful.Proofs.Host.Keeping — the contract under which every task keeps the books.

  When a task begins, whoever calls it has looked: a listener that is called stands and its
  binding is bound, a timer that rings was just taken, a `once` binding is evaluated that
  was not evaluated before (`Ready`). The history tells this of all its moments (`Told`).
  In return a task `Comes` back with the books kept, and with no `once` binding left bound
  that was evaluated meanwhile. `Spares` is what the host's own actions are asked: not to
  lay hands on what the runtimes of `F` registered.
-/

namespace Eventful.Host

open Page Binding

variable {F : Nat → Prop} {h h' h'' : Host} {tr tr' tr'' : History} {rt : Nat} {κ : Kind}

/-! ## What a history tells -/

/-- An evaluation of the binding began. -/
def Evaluated (tr : History) (rt id : Nat) : Prop :=
  ∃ b e h, Moment.begins (.effect rt b e) h ∈ tr ∧ b.id = id

theorem Evaluated.mono {id : Nat} (he : Evaluated tr rt id) (hs : tr ⊆ tr') : Evaluated tr' rt id :=
  let ⟨b, e, h, hm, hid⟩ := he
  ⟨b, e, h, hs hm, hid⟩

/-- Every binding that fired was evaluated. -/
def Accounted (h : Host) (tr : History) : Prop :=
  ∀ rt b, Keeps h.runtimes rt b → b.fired = true → Evaluated tr rt b.id

/-- What happened last makes the binding's expression be evaluated for the event: one
    reached it that its guards admit, or its wait is over. -/
def Led (rt : Nat) (b : Bound) (e : Event) : History → Prop
  | [] => False
  | m :: _ =>
    (Waitless b.plan.guards ∧ ∃ e₀, m.Fires rt b.id e₀ ∧ Admits m.host.page.tree b.element e₀ b.plan.guards ∧
        e = heard e₀ b.plan.guards) ∨
      (¬Waitless b.plan.guards ∧ m.Rings rt b.id e)

/-- What makes a timer ring: an advance that reaches it, or a run until the clock is idle. -/
def Due (c : Nat) (t : Timer Alarm) (tr : History) : Prop :=
  (∃ instant h before, tr = .begins (.advance c instant) h :: before ∧ t.due ≤ instant) ∨
    ∃ clock limit h, .begins (.act (.runUntilIdle clock limit)) h ∈ tr ∧ h.clockOf clock = c

structure Kept (F : Nat → Prop) (h : Host) (tr : History) : Prop where
  books : Books F h
  clocked : Clocked F h tr

/-- What has been looked at when a task begins. -/
def Ready (F : Nat → Prop) : {κ : Kind} → Task κ → Host → History → Prop
  | _, .listen l _, h, tr =>
    Kept F h tr ∧ ∀ rt id, l.action = .binding rt id → ∃ b, Binds h.runtimes rt b ∧ b.id = id
  | _, .outside w _, h, tr =>
    Kept F h tr ∧ ∀ rt id, w.action = .binding rt id → Issued h.runtimes rt id ∧
      ∀ k, F rt → Owns h.runtimes rt k → ∃ b, Binds h.runtimes rt b ∧ b.id = id
  | _, .effect rt b e, h, tr =>
    Kept F h tr ∧ (∃ b', Keeps h.runtimes rt b' ∧ Same b b' ∧ (b.plan.isOnce = true → b'.fired = true)) ∧
      (∀ k, F rt → Owns h.runtimes rt k → ∃ b', Binds h.runtimes rt b' ∧ b'.id = b.id) ∧
      (b.plan.isOnce = true → ¬Evaluated tr rt b.id) ∧ Led rt b e tr
  | _, .ring c t, h, tr =>
    ∃ h₀ k, Kept F h₀ tr ∧ (h₀.clock c).takeFirst? = some (t, k) ∧ h = h₀.setClock c k ∧ Due c t tr
  | _, _, h, tr => Kept F h tr

/-- What is done when a task ends: after an advance nothing is due. -/
def Task.Over : {κ : Kind} → Task κ → Host → Prop
  | _, .advance c instant, h => ∀ t ∈ (h.clock c).timers, instant < t.due
  | _, _, _ => True

/-- No `once` binding is bound that was evaluated only since `tr`. -/
def Settled (tr : History) (h' : Host) (tr' : History) : Prop :=
  ∀ rt b, Binds h'.runtimes rt b → b.plan.isOnce = true → Evaluated tr' rt b.id → Evaluated tr rt b.id

/-- What is known of one moment. -/
def Fit (F : Nat → Prop) : Moment → History → Prop
  | .begins t h, tr => Ready F t h tr
  | .ends t r h', tr' =>
    Kept F h' tr' ∧ t.Over h' ∧ ∃ h tr inner, Nested inner ∧ tr' = inner ++ .begins t h :: tr ∧
      Settled (.begins t h :: tr) h' (.ends t r h' :: tr')

/-- What is known of all moments. -/
def Told (F : Nat → Prop) : History → Prop
  | [] => True
  | m :: tr => Fit F m tr ∧ Accounted m.host (m :: tr) ∧ (∀ m' ∈ tr, Onward m'.host m.host) ∧ Told F tr

/-- What is known between two calls. -/
structure Now (F : Nat → Prop) (h : Host) (tr : History) : Prop extends Kept F h tr where
  told : Told F tr
  onward : ∀ m ∈ tr, Onward m.host h
  accounted : Accounted h tr

structure Comes (F : Nat → Prop) (h : Host) (tr : History) (h' : Host) (tr' : History) : Prop where
  now : Now F h' tr'
  onward : Onward h h'
  settled : Settled tr h' tr'
  grown : tr <:+ tr'

/-- What is known as a moment comes to the history. -/
structure Opens (F : Nat → Prop) (m : Moment) (earlier : History) : Prop where
  kept : Kept F m.host earlier
  told : Told F (m :: earlier)
  onward : ∀ m' ∈ earlier, Onward m'.host m.host
  accounted : Accounted m.host (m :: earlier)

theorem Opens.onward_cons {m : Moment} {earlier : History} (ho : Opens F m earlier) :
    ∀ m' ∈ m :: earlier, Onward m'.host m.host := by
  intro m' hm'
  rcases List.mem_cons.mp hm' with rfl | hm'
  · exact .rfl m'.host
  · exact ho.onward m' hm'

theorem Opens.now {m : Moment} {earlier : History} (ho : Opens F m earlier) (hm : ∀ rt id, ¬m.Turns rt id) :
    Now F m.host (m :: earlier) :=
  ⟨⟨ho.kept.books, ho.kept.clocked.cons hm⟩, ho.told, ho.onward_cons, ho.accounted⟩

/-! ## Hands off -/

/-- The action leaves alone what the runtimes of `F` registered. -/
def Spares (F : Nat → Prop) (h : Host) : Action → Prop
  | .unlisten id => ∀ t l, h.page.listeners.Stands t l → l.id = id → ListenerBooks.Unneeded F h.runtimes l
  | .clear c id => ∀ rt t id' e, t ∈ (h.clock (h.clockOf c)).timers → t.id = id → t.action = .binding rt id' e → ¬F rt
  | .registerOutside t .. => ∀ k, h.trackerOf? t = some k → Foreign F h k
  | .unregisterOutside t _ => ∀ k, h.trackerOf? t = some k → Foreign F h k
  | .resetTracker t => ∀ k, h.trackerOf? t = some k → Foreign F h k
  | _ => True

def Fair (F : Nat → Prop) : Moment → Prop
  | .begins (.act a) h => Spares F h a
  | _ => True

/-- If nobody is in `F` there is nothing to spare. -/
theorem fair_nobody (m : Moment) : Fair (fun _ => False) m := by
  have hs : ∀ (h : Host) (a : Action), Spares (fun _ => False) h a := by
    intro h a
    cases a with
    | unlisten id => exact fun t l _ _ => ⟨fun _ hF => hF, fun _ hF => hF.elim⟩
    | clear c id => exact fun rt t id' e _ _ _ hF => hF
    | registerOutside t id n event s => exact fun k _ rt hF => hF.elim
    | unregisterOutside t id => exact fun k _ rt hF => hF.elim
    | resetTracker t => exact fun k _ rt hF => hF.elim
    | _ => exact trivial
  cases m with
  | begins t h =>
    cases t with
    | act a => exact hs h a
    | _ => exact trivial
  | ends t r h => exact trivial

/-! ## Coming back -/

theorem Told.mem {m : Moment} (ht : Told F tr) (hm : m ∈ tr) : ∃ earlier, Fit F m earlier := by
  induction tr with
  | nil => cases hm
  | cons m' tr ih =>
    rcases List.mem_cons.mp hm with rfl | hm
    · exact ⟨tr, ht.1⟩
    · exact ih ht.2.2.2 hm

/-- Whatever was evaluated has an id that was given. -/
theorem Now.issued {id : Nat} (hn : Now F h tr) (he : Evaluated tr rt id) :
    ∃ m ∈ tr, ∃ r, m.host.runtimes[rt]? = some r ∧ id ≤ r.lastId := by
  obtain ⟨b, e, h₀, hm, rfl⟩ := he
  obtain ⟨earlier, hfit⟩ := hn.told.mem hm
  obtain ⟨hkept, ⟨b', ⟨r, hr, hreach⟩, hsame, -⟩, -⟩ := hfit
  exact ⟨_, hm, r, hr, hsame.id ▸ (hkept.books.runtimes hr).issued hreach⟩

theorem Comes.rfl (hn : Now F h tr) : Comes F h tr h tr :=
  ⟨hn, .rfl h, fun _ _ _ _ he => he, List.suffix_refl _⟩

theorem Comes.trans (h₁ : Comes F h tr h' tr') (h₂ : Comes F h' tr' h'' tr'') : Comes F h tr h'' tr'' where
  now := h₂.now
  onward := h₁.onward.trans h₂.onward
  grown := h₁.grown.trans h₂.grown
  settled := by
    intro rt b hb honce he
    have he' := h₂.settled rt b hb honce he
    -- The binding was bound before the second part as well.
    obtain ⟨m, hm, r, hr, hid⟩ := h₁.now.issued he'
    obtain ⟨r', hr', hl⟩ := (h₁.now.onward m hm).runtimes rt r hr
    have hid' := Nat.le_trans hid hl.issued
    obtain ⟨b₁, hb₁, e₁⟩ := h₂.onward.bound hr' hb hid'
    obtain ⟨b₂, hb₂, hsame, -⟩ := h₂.onward.reached hr' hb.keeps hid'
    have hplan : b₁.plan = b.plan := by
      rw [keeps_unique h₁.now.books.runtimes hb₁.keeps hb₂ (e₁.trans hsame.id), hsame.plan]
    rw [← e₁] at he' ⊢
    exact h₁.settled rt b₁ hb₁ (hplan ▸ honce) he'

/-- A step comes back, if it keeps the timers of bindings as the history has them. -/
theorem Steps.comes (hs : Steps F h h') (told : Told F tr) (onward : ∀ m ∈ tr, Onward m.host h)
    (accounted : Accounted h tr) (hc : Clocked F h' tr) : Comes F h tr h' tr where
  now := {
    books := hs.books
    clocked := hc
    told := told
    onward := fun m hm => (onward m hm).trans hs.onward
    accounted := by
      intro rt b hb hf
      obtain ⟨b₀, h₀, e, hf₀⟩ := hs.calm rt b hb hf
      exact e ▸ accounted rt b₀ h₀ hf₀ }
  onward := hs.onward
  settled := fun _ _ _ _ he => he
  grown := List.suffix_refl _

/-- An edit comes back, if it keeps the books. -/
theorem Goes.comes (hg : Goes F h h') (hn : Now F h tr) : Comes F h tr h' tr :=
  hg.toSteps.comes hn.told hn.onward hn.accounted (hn.clocked.still hg.still hg.onward.runtimes)

/-- The beginning of a task that evaluates nothing itself. -/
theorem evaluated_begins {t : Task κ} {id : Nat} (ht : ∀ rt b e, Moment.begins t h ≠ .begins (.effect rt b e) h)
    (he : Evaluated (.begins t h :: tr) rt id) : Evaluated tr rt id := by
  obtain ⟨b, e, h₀, hm, hid⟩ := he
  rcases List.mem_cons.mp hm with hm | hm
  · have hh : h₀ = h := congrArg Moment.host hm
    subst hh
    exact absurd hm.symm (ht rt b e)
  · exact ⟨b, e, h₀, hm, hid⟩

theorem evaluated_ends {t : Task κ} {r : κ.Carrier} {id : Nat} (he : Evaluated (.ends t r h :: tr) rt id) :
    Evaluated tr rt id := by
  obtain ⟨b, e, h₀, hm, hid⟩ := he
  rcases List.mem_cons.mp hm with hm | hm
  · cases hm
  · exact ⟨b, e, h₀, hm, hid⟩

/-- The end of a task is put on the history. -/
theorem Comes.ends {t : Task κ} {r : κ.Carrier} (hc : Comes F h (.begins t h :: tr) h' tr') (ho : t.Over h')
    (hcl : Closes t h tr r h' (.ends t r h' :: tr')) : Comes F h (.begins t h :: tr) h' (.ends t r h' :: tr') := by
  have hsettled : Settled (.begins t h :: tr) h' (.ends t r h' :: tr') :=
    fun rt b hb honce he => hc.settled rt b hb honce (evaluated_ends he)
  have haccounted : Accounted h' (.ends t r h' :: tr') :=
    fun rt b hb hf => (hc.now.accounted rt b hb hf).mono (List.subset_cons_self _ _)
  obtain ⟨inner, hin, e⟩ := hcl
  have hclocked : Clocked F h' (.ends t r h' :: tr') := hc.now.clocked.cons fun _ _ ht => turns_ends ht
  refine ⟨⟨⟨hc.now.books, hclocked⟩, ⟨⟨hc.now.toKept, ho, h, tr, inner, hin, (List.cons.inj e).2, hsettled⟩, haccounted,
    hc.now.onward, hc.now.told⟩, fun m hm => ?_, haccounted⟩, hc.onward, hsettled, hc.grown.trans (List.suffix_cons _ _)⟩
  rcases List.mem_cons.mp hm with rfl | hm
  · exact .rfl h'
  · exact hc.now.onward m hm

/-- The beginning is taken off again. -/
theorem Comes.drop {t : Task κ} (ht : ∀ rt b e, Moment.begins t h ≠ .begins (.effect rt b e) h)
    (hc : Comes F h (.begins t h :: tr) h' tr') : Comes F h tr h' tr' where
  now := hc.now
  onward := hc.onward
  settled rt b hb honce he := evaluated_begins ht (hc.settled rt b hb honce he)
  grown := (List.suffix_cons _ _).trans hc.grown

/-! ## The contract -/

def bookkeeping (F : Nat → Prop) : Contract where
  fair := Fair F
  pre t h tr := Ready F t h tr ∧ Told F tr ∧ (∀ m ∈ tr, Onward m.host h) ∧ Accounted h (.begins t h :: tr)
  post t h tr r h' tr' := ∃ tr'', tr' = .ends t r h' :: tr'' ∧ Comes F h (.begins t h :: tr) h' tr'' ∧ t.Over h'
  kept := Told F
  kept_begins hp := ⟨hp.1, hp.2.2.2, hp.2.2.1, hp.2.1⟩
  kept_ends hp hcl := by
    obtain ⟨tr'', rfl, hc, ho⟩ := hp
    exact (hc.ends ho hcl).now.told

theorem Now.pre (hn : Now F h tr) {t : Task κ} (hr : Ready F t h tr) : (bookkeeping F).pre t h tr :=
  ⟨hr, hn.told, hn.onward, fun rt b hb hf => (hn.accounted rt b hb hf).mono (List.subset_cons_self _ _)⟩

/-- What a caller knows of a task that came back. -/
theorem comes_of_post {t : Task κ} {r : κ.Carrier} (hp : (bookkeeping F).post t h tr r h' tr')
    (hcl : Closes t h tr r h' tr') : Comes F h (.begins t h :: tr) h' tr' := by
  obtain ⟨tr'', rfl, hc, ho⟩ := hp
  exact hc.ends ho hcl

theorem over_of_post {t : Task κ} {r : κ.Carrier} (hp : (bookkeeping F).post t h tr r h' tr') : t.Over h' :=
  let ⟨_, _, _, ho⟩ := hp
  ho

/-! ## Procedures that keep the books -/

variable {α β : Type}

/-- The procedure keeps the books from here. -/
def SafeFrom (F : Nat → Prop) (h : Host) (tr : History) (p : Proc α) : Prop :=
  p.Meets (bookkeeping F) h tr fun _ h' tr' => Comes F h tr h' tr'

/-- The procedure keeps the books from wherever it begins. -/
def Safe (F : Nat → Prop) (p : Proc α) : Prop := ∀ h tr, Now F h tr → SafeFrom F h tr p

theorem safe_pure (a : α) : Safe F (pure a : Proc α) := fun _ _ hn => .rfl hn

theorem SafeFrom.bind {p : Proc α} {f : α → Proc β} (hp : SafeFrom F h tr p)
    (hf : ∀ a h' tr', Comes F h tr h' tr' → SafeFrom F h' tr' (f a)) : SafeFrom F h tr (p >>= f) :=
  meets_bind.mpr (hp.mono fun a h' tr' hc => (hf a h' tr' hc).mono fun _ _ _ hc' => hc.trans hc')

theorem Safe.bind {p : Proc α} {f : α → Proc β} (hp : Safe F p) (hf : ∀ a, Safe F (f a)) : Safe F (p >>= f) :=
  fun h tr hn => (hp h tr hn).bind fun a h' tr' hc => hf a h' tr' hc.now

theorem SafeFrom.then {p : Proc α} {f : α → Proc β} (hp : SafeFrom F h tr p) (hf : ∀ a, Safe F (f a)) :
    SafeFrom F h tr (p >>= f) := hp.bind fun a h' tr' hc => hf a h' tr' hc.now

theorem safeFrom_get {f : Host → Proc α} (hf : SafeFrom F h tr (f h)) : SafeFrom F h tr (get >>= f) := hf

theorem safe_get {f : Host → Proc α} (hf : ∀ h tr, Now F h tr → SafeFrom F h tr (f h)) : Safe F (get >>= f) :=
  fun h tr hn => hf h tr hn

theorem safeFrom_modify {f : Host → Host} (hn : Now F h tr) (hg : Goes F h (f h)) :
    SafeFrom F h tr (modify f : Proc PUnit) := hg.comes hn

theorem safe_modify {f : Host → Host} (hf : ∀ h, Books F h → Goes F h (f h)) : Safe F (modify f : Proc PUnit) :=
  fun h _ hn => safeFrom_modify hn (hf h hn.books)

theorem safeFrom_change {f : Host → α × Host} (hn : Now F h tr) (hg : Goes F h (f h).2) :
    SafeFrom F h tr (change f) := hg.comes hn

theorem safe_change {f : Host → α × Host} (hf : ∀ h, Books F h → Goes F h (f h).2) : Safe F (change f) :=
  fun h _ hn => safeFrom_change hn (hf h hn.books)

theorem safe_answer (f : Host → Answer) : Safe F (answer f) := fun _ _ hn => .rfl hn

/-- A call of a task that evaluates nothing itself. -/
theorem safeFrom_call {t : Task κ} (hn : Now F h tr) (ht : ∀ rt b e, Moment.begins t h ≠ .begins (.effect rt b e) h)
    (hr : Ready F t h tr) : SafeFrom F h tr (call t) :=
  meets_call.mpr ⟨hn.pre hr, fun _ _ _ hp hcl _ => (comes_of_post hp hcl).drop ht⟩

/-- A call of a task that relies on nothing else. -/
theorem safe_call (t : Task κ) (ht : ∀ h rt b e, Moment.begins t h ≠ .begins (.effect rt b e) h)
    (hr : ∀ h tr, Kept F h tr → Ready F t h tr) : Safe F (call t) :=
  fun h tr hn => safeFrom_call hn (ht h) (hr h tr hn.toKept)

theorem safe_act (a : Action) : Safe F (call (.act a)) := safe_call _ (fun _ _ _ _ e => by cases e) fun _ _ hk => hk

theorem safe_hook (s : Script) (f : Failure) : Safe F (call (.hook s f)) :=
  safe_call _ (fun _ _ _ _ e => by cases e) fun _ _ hk => hk

theorem safe_watch (w : Watcher) (c : Change) : Safe F (call (.watch w c)) :=
  safe_call _ (fun _ _ _ _ e => by cases e) fun _ _ hk => hk

theorem safe_observe (o : Observer) (ns : List NodeId) : Safe F (call (.observe o ns)) :=
  safe_call _ (fun _ _ _ _ e => by cases e) fun _ _ hk => hk

theorem safe_advance (c instant : Nat) : Safe F (call (.advance c instant)) :=
  safe_call _ (fun _ _ _ _ e => by cases e) fun _ _ hk => hk

end Eventful.Host
