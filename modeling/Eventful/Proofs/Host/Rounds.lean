import Eventful.Proofs.Host.Calls
import Eventful.Proofs.Host.Tending

/-
  Eventful.Proofs.Host.Rounds — a dispatch whose callbacks change what they like.

  The way of an event is found once, when its dispatch begins. A round goes by the
  listeners that stood when the round began (`Turns`): each is called when its turn comes,
  if it still stands. What callbacks do decides only who still stands, and when the event
  is stopped (`Rounds`, `Delivers`).

  - `dispatch_rounds`: that is what every dispatch does; and in a session a listener that
    was removed is never called again, nor is a `once` listener called twice.
-/

namespace Eventful.Host

open Page Binding

/-! ## Turns -/

/-- A call of a listener: the event that it is given, and as it comes back. -/
structure Hearing where
  listener : Listener Reaction
  event : Event
  before : Host
  back : Event
  after : Host

def Hearing.call (c : Hearing) : Call := ⟨.listen c.listener c.event, c.before, c.back, c.after⟩

theorem Hearing.call_injective : Function.Injective Hearing.call := by
  rintro ⟨l, e, h, r, h'⟩ ⟨l₁, e₁, h₁, r₁, h₁'⟩ he
  cases he
  rfl

theorem split_calls {calls rest : List Call} {c : Call} {cs : List Hearing} (h : cs.map Hearing.call = calls ++ c :: rest) :
    ∃ cs₁ c₁ cs₂, cs = cs₁ ++ c₁ :: cs₂ ∧ cs₁.map Hearing.call = calls ∧ c₁.call = c := by
  obtain ⟨cs₁, cs', rfl, hcs, hrest⟩ := List.map_eq_append_iff.mp h
  obtain ⟨c₁, cs₂, rfl, hc, -⟩ := List.map_eq_cons_iff.mp hrest
  exact ⟨cs₁, c₁, cs₂, rfl, hcs, hc⟩

/-- What listeners are called with. -/
def given (l : Listener Reaction) (e : Event) : Event := { e with passive := l.options.passive }

/-- What comes back from a listener. -/
def taken (r : Event) : Event := { r with passive := false }

/-- The turns of the listeners come in order. One that does not stand is passed over; one
    that stands is called, and then the next turn comes unless the event is stopped at once. -/
inductive Turns : List (Listener Reaction) → Event → Host → List Hearing → Event → Host → Prop
  | nil {e : Event} {h : Host} : Turns [] e h [] e h
  | passed {l : Listener Reaction} {rest : List (Listener Reaction)} {e e' : Event} {h h' : Host} {cs : List Hearing} :
    h.page.listeners.contains l.id = false → Turns rest e h cs e' h' → Turns (l :: rest) e h cs e' h'
  | called {l : Listener Reaction} {rest : List (Listener Reaction)} {e e' r : Event} {h h₁ h' : Host}
    {cs : List Hearing} : h.page.listeners.contains l.id = true → r.stoppedAtOnce = false →
    Turns rest (taken r) h₁ cs e' h' → Turns (l :: rest) e h (⟨l, given l e, h.turn l, r, h₁⟩ :: cs) e' h'
  | stopped {l : Listener Reaction} {rest : List (Listener Reaction)} {e r : Event} {h h₁ : Host} :
    h.page.listeners.contains l.id = true → r.stoppedAtOnce = true →
    Turns (l :: rest) e h [⟨l, given l e, h.turn l, r, h₁⟩] (taken r) h₁

section

variable {ls : List (Listener Reaction)} {e e' : Event} {h h' : Host} {cs : List Hearing}

/-- None but the listeners of the round are called, in their order. -/
theorem Turns.sublist (ht : Turns ls e h cs e' h') : (cs.map Hearing.listener).Sublist ls := by
  induction ht with
  | nil => exact List.Sublist.refl _
  | passed _ _ ih => exact ih.cons _
  | called _ _ _ ih => exact ih.cons_cons _
  | stopped => exact (List.nil_sublist _).cons_cons _

theorem turns_of_gives {calls : List Call} (hg : (callListeners e ls).Gives h calls e' h') :
    ∃ cs, calls = cs.map Hearing.call ∧ Turns ls e h cs e' h' := by
  induction ls generalizing e h calls with
  | nil =>
    obtain ⟨rfl, rfl, rfl⟩ := hg
    exact ⟨[], rfl, .nil⟩
  | cons l rest ih =>
    -- The call itself, from the host in which it is made.
    have hcalled : h.page.listeners.contains l.id = true → (do
        let e ← call (.listen l (given l e))
        if (taken e).stoppedAtOnce then return taken e else callListeners (taken e) rest : Proc Event).Gives (h.turn l)
          calls e' h' → ∃ cs, calls = cs.map Hearing.call ∧ Turns (l :: rest) e h cs e' h' := by
      intro hstands hg
      obtain ⟨r, h₁, calls', rfl, hrest⟩ := gives_call.mp hg
      split at hrest
      · rename_i hstop
        obtain ⟨rfl, rfl, rfl⟩ := hrest
        exact ⟨[⟨l, given l e, h.turn l, r, h'⟩], rfl, .stopped hstands hstop⟩
      · rename_i hgo
        obtain ⟨cs, rfl, ht⟩ := ih hrest
        exact ⟨⟨l, given l e, h.turn l, r, h₁⟩ :: cs, rfl, .called hstands ((Bool.not_eq_true _).mp hgo) ht⟩
    unfold callListeners at hg
    rw [gives_get] at hg
    split at hg
    · rename_i hstands
      refine hcalled hstands ?_
      unfold turn
      split at hg <;> rename_i honce
      · rw [if_pos honce]
        exact hg
      · rw [if_neg honce]
        exact hg
    · rename_i hgone
      obtain ⟨cs, rfl, ht⟩ := ih hg
      exact ⟨cs, rfl, .passed ((Bool.not_eq_true _).mp hgone) ht⟩

end

/-! ## Rounds -/

/-- Whose turns come in a round that begins. -/
def snapshot (h : Host) (r : Round) (name : String) : List (Listener Reaction) :=
  h.page.listeners.select r.target name r.capture

/-- The event as it comes to a round. -/
def arriving (r : Round) (e : Event) : Event := { e with phase := r.phase, current := r.target }

/-- The rounds are made in order, up to one in which the event is stopped. -/
inductive Rounds : List Round → Event → Host → List Hearing → Event → Host → Prop
  | nil {e : Event} {h : Host} : Rounds [] e h [] e h
  | stopped {r : Round} {rs : List Round} {e e' : Event} {h h' : Host} {cs : List Hearing} :
    Turns (h.snapshot r e.name) (arriving r e) h cs e' h' → e'.stopped = true → Rounds (r :: rs) e h cs e' h'
  | next {r : Round} {rs : List Round} {e e₁ e' : Event} {h h₁ h' : Host} {cs cs' : List Hearing} :
    Turns (h.snapshot r e.name) (arriving r e) h cs e₁ h₁ → e₁.stopped = false → Rounds rs e₁ h₁ cs' e' h' →
    Rounds (r :: rs) e h (cs ++ cs') e' h'

theorem rounds_of_gives {rs : List Round} {e e' : Event} {h h' : Host} {calls : List Call} (hg : (makeRounds e rs).Gives h calls e' h') :
    ∃ cs, calls = cs.map Hearing.call ∧ Rounds rs e h cs e' h' := by
  induction rs generalizing e h calls with
  | nil =>
    obtain ⟨rfl, rfl, rfl⟩ := hg
    exact ⟨[], rfl, .nil⟩
  | cons r rs ih =>
    unfold makeRounds at hg
    rw [gives_get] at hg
    obtain ⟨e₁, h₁, calls₁, calls₂, rfl, hround, hrest⟩ := gives_bind.mp hg
    obtain ⟨cs, rfl, ht⟩ := turns_of_gives hround
    split at hrest
    · rename_i hstop
      obtain ⟨rfl, rfl, rfl⟩ := hrest
      exact ⟨cs, List.append_nil _, .stopped ht hstop⟩
    · rename_i hgo
      obtain ⟨cs', rfl, hr⟩ := ih hrest
      exact ⟨cs ++ cs', List.map_append.symm, .next ht ((Bool.not_eq_true _).mp hgo) hr⟩

/-- The event as its dispatch ends. -/
def delivered (target : Target) (e : Event) : Event := { e with phase := .none, current := target }

/-- An event goes down its way to the target, and back up if it bubbles and was not stopped.
    The way is that of the host in which the dispatch begins. -/
inductive Delivers (target : Target) (e : Event) (h : Host) : List Hearing → Event → Host → Prop
  | down {cs : List Hearing} {e₁ : Event} {h₁ : Host} :
    Rounds (roundsDown (h.page.way target) target) { e with target } h cs e₁ h₁ →
    (e₁.stopped || !e₁.bubbles) = true → Delivers target e h cs (delivered target e₁) h₁
  | up {cs cs' : List Hearing} {e₁ e' : Event} {h₁ h' : Host} :
    Rounds (roundsDown (h.page.way target) target) { e with target } h cs e₁ h₁ →
    (e₁.stopped || !e₁.bubbles) = false → Rounds (roundsUp (h.page.way target)) e₁ h₁ cs' e' h' →
    Delivers target e h (cs ++ cs') (delivered target e') h'

theorem delivers_of_gives {target : Target} {e e' : Event} {h h' : Host} {calls : List Call} (hg : (deliver target e).Gives h calls e' h') :
    ∃ cs, calls = cs.map Hearing.call ∧ Delivers target e h cs e' h' := by
  unfold deliver at hg
  rw [gives_get] at hg
  obtain ⟨e₁, h₁, calls₁, calls₂, rfl, hdown, hrest⟩ := gives_bind.mp hg
  obtain ⟨cs, rfl, hr⟩ := rounds_of_gives hdown
  dsimp only at hrest
  split at hrest
  · rename_i hstop
    obtain ⟨rfl, rfl, rfl⟩ := hrest
    exact ⟨cs, List.append_nil _, .down hr hstop⟩
  · rename_i hgo
    obtain ⟨e₂, h₂, calls₃, calls₄, rfl, hup, rfl, rfl, rfl⟩ := gives_bind.mp hrest
    obtain ⟨cs', rfl, hr'⟩ := rounds_of_gives hup
    exact ⟨cs ++ cs', by rw [List.append_nil, List.map_append], .up hr ((Bool.not_eq_true _).mp hgo) hr'⟩

/-! ## Who is not called again -/

/-- A listener that goes by the id is called. -/
def Moment.Calls (id : Nat) (m : Moment) : Prop := ∃ l e h, m = .begins (.listen l e) h ∧ l.id = id

variable {later earlier : History} {m : Moment} {id : Nat} {l : Listener Reaction} {e : Event} {h : Host}

theorem called_of_calls (ht : Tended (later ++ m :: earlier)) (hc : m.Calls id) :
    ∃ l h₀ t, l.id = id ∧ Called l m.host earlier h₀ t := by
  obtain ⟨l, e, h, rfl, rfl⟩ := hc
  obtain ⟨h₀, t, hcalled⟩ := ht.split.1
  exact ⟨l, h₀, t, rfl, hcalled⟩

/-- An id that was given and that nobody goes by is not called later. -/
theorem not_called_later (ht : Tended (later ++ m :: earlier)) (hid : id ≤ m.host.page.listeners.lastId)
    (hn : m.host.page.listeners.contains id = false) : ∀ m' ∈ later, ¬m'.Calls id := by
  intro m' hm' hc
  have hsound := ht.split.2.1.listeners
  obtain ⟨after, before, rfl⟩ := List.append_of_mem hm'
  rw [List.append_assoc, List.cons_append] at ht
  obtain ⟨l, h₀, t, rfl, hcalled⟩ := called_of_calls ht hc
  have hlater := hcalled.later m (List.mem_append_right _ List.mem_cons_self)
  have hstood := hlater.stood hcalled.stands hid
  rw [(Listeners.contains_iff hsound).mpr ⟨t, l, hstood, rfl⟩] at hn
  cases hn

/-- A `once` listener that is called does not stand any more. -/
theorem not_contains_once {h₀ : Host} {t : Target} (hc : Called l h earlier h₀ t) (honce : l.options.once = true) :
    l.id ≤ h.page.listeners.lastId ∧ h.page.listeners.contains l.id = false := by
  have hhost : h = (h₀.unlisten l.id).2 := by rw [hc.host, turn, if_pos honce]
  subst hhost
  have hsound := Listeners.sound_remove hc.sound l.id
  refine ⟨?_, ?_⟩
  · show l.id ≤ (h₀.page.listeners.remove l.id).2.lastId
    rw [Listeners.remove_lastId]
    exact hc.sound.issued hc.stands
  · refine (Bool.not_eq_true _).mp fun hcon => ?_
    obtain ⟨t', l', hl', hid⟩ := (Listeners.contains_iff hsound).mp hcon
    exact ((Listeners.stands_remove hc.sound).mp hl').2 hid

/-- A `once` listener is not called at any other moment. -/
theorem called_once (ht : Tended (later ++ .begins (.listen l e) h :: earlier)) (honce : l.options.once = true) :
    ∀ m' ∈ later ++ earlier, ¬m'.Calls l.id := by
  intro m' hm' hc
  obtain ⟨h₀, t, hcalled⟩ := ht.split.1
  rcases List.mem_append.mp hm' with hm' | hm'
  · obtain ⟨hid, hn⟩ := not_contains_once hcalled honce
    exact not_called_later ht hid hn m' hm' hc
  · -- The earlier call was of the same listener, so it would have been gone since.
    obtain ⟨between, before, rfl⟩ := List.append_of_mem hm'
    obtain ⟨l', e', h', rfl, hid⟩ := hc
    have ht' : Tended ((later ++ .begins (.listen l e) h :: between) ++ .begins (.listen l' e') h' :: before) := by
      rwa [List.append_assoc, List.cons_append]
    obtain ⟨h₁, t', hcalled'⟩ := ht'.split.1
    by_cases honce' : l'.options.once = true
    · obtain ⟨hid', hn⟩ := not_contains_once hcalled' honce'
      exact not_called_later ht' hid' hn _ (List.mem_append_right _ List.mem_cons_self) ⟨l, e, h, rfl, hid.symm⟩
    · have hhost : h' = h₁ := by rw [hcalled'.host, turn, if_neg honce']
      have hlater := hcalled.later (.begins (.listen l' e') h') (List.mem_append_right _ List.mem_cons_self)
      have hstood : h'.page.listeners.Stands t l :=
        hlater.stood hcalled.stands (hid ▸ hhost ▸ hcalled'.sound.issued hcalled'.stands)
      have hl : l = l' := (hcalled'.sound.distinct (hhost ▸ hstood) hcalled'.stands hid.symm).2
      exact honce' (hl ▸ honce)

/-! ## Dispatches -/

/-- The listeners that are called in a round stood at its target when it began, and are
    called in the order of their adding. -/
theorem Turns.of_snapshot {r : Round} {name : String} {e e' : Event} {h h₁ h' : Host} {cs : List Hearing}
    (hs : h.page.listeners.Sound) (ht : Turns (h.snapshot r name) e h₁ cs e' h') :
    (∀ c ∈ cs, h.page.listeners.Stands r.target c.listener ∧ c.listener.event = name ∧
      c.listener.options.capture = r.capture) ∧ (cs.map (·.listener.id)).Pairwise (· < ·) := by
  refine ⟨fun c hc => ?_, ?_⟩
  · have hl := ht.sublist.subset (List.mem_map_of_mem hc)
    simp only [snapshot, Listeners.select, List.mem_filter, Bool.and_eq_true, beq_iff_eq] at hl
    exact ⟨hl.1, hl.2.2, hl.2.1⟩
  · have hsub : (cs.map Hearing.listener).Sublist (h.page.listeners.of r.target) := ht.sublist.trans List.filter_sublist
    have hordered := (hs.ordered r.target).sublist hsub
    rwa [List.pairwise_map] at hordered ⊢

/-- However callbacks change the host and their events, a dispatch makes the rounds of the
    way that its target had when it began, in each of them the turns of the listeners that
    stood when the round began. So does every run; the calls of one that gives up are the
    first of such a dispatch. In a session a listener that was removed is never called
    again, and a `once` listener that was called never is at another moment. -/
theorem dispatch_rounds :
    (∀ target e h calls e' h', (deliver target e).Gives h calls e' h' →
      ∃ cs, calls = cs.map Hearing.call ∧ Delivers target e h cs e' h') ∧
    (∀ depth target e h e' h', (deliver target e).run depth h = some (e', h') →
      ∃ cs, Delivers target e h cs e' h' ∧
        ∀ c ∈ cs, Task.run depth .event (.listen c.listener c.event) c.before = some (c.back, c.after)) ∧
    (∀ depth target e h, (deliver target e).run depth h = none →
      ∃ cs l e₁ h₁, Task.run depth .event (.listen l e₁) h₁ = none ∧
        (∀ c ∈ cs, Task.run depth .event (.listen c.listener c.event) c.before = some (c.back, c.after)) ∧
        ∀ r h₂, ∃ rest e' h', Delivers target e h (cs ++ ⟨l, e₁, h₁, r, h₂⟩ :: rest) e' h') ∧
    (∀ (h : Host) (r : Round) name e h₁ cs e' h', h.page.listeners.Sound → Turns (h.snapshot r name) e h₁ cs e' h' →
      (∀ c ∈ cs, h.page.listeners.Stands r.target c.listener ∧ c.listener.event = name ∧
        c.listener.options.capture = r.capture) ∧ (cs.map (·.listener.id)).Pairwise (· < ·)) ∧
    ∀ depth as url globals scopes later m earlier,
      (play depth as (.new url globals scopes) []).2 = later ++ m :: earlier →
      m.host.page.listeners.Sound ∧
      (∀ id ≤ m.host.page.listeners.lastId, m.host.page.listeners.contains id = false → ∀ m' ∈ later, ¬m'.Calls id) ∧
      ∀ l e h, m = .begins (.listen l e) h → l.options.once = true → ∀ m' ∈ later ++ earlier, ¬m'.Calls l.id := by
  refine ⟨fun target e h calls e' h' hg => delivers_of_gives hg, fun depth target e h e' h' hrun => ?_,
    fun depth target e h hrun => ?_, fun h r name e h₁ cs e' h' hs ht => ht.of_snapshot hs,
    fun depth as url globals scopes later m earlier htr => ?_⟩
  · obtain ⟨calls, hg, hran⟩ := gives_of_run hrun
    obtain ⟨cs, rfl, hd⟩ := delivers_of_gives hg
    exact ⟨cs, hd, fun c hc => hran c.call (List.mem_map_of_mem hc)⟩
  · obtain ⟨calls, κ, t, h₁, hnone, hran, hrest⟩ := gives_until hrun
    obtain ⟨r⟩ : Nonempty κ.Carrier := inferInstance
    obtain ⟨rest, e', h', hg⟩ := hrest r h₁
    obtain ⟨cs, hcs, -⟩ := delivers_of_gives hg
    obtain ⟨cs₁, ⟨l, e₁, h₁, r, h₂⟩, cs₂, rfl, rfl, hc⟩ := split_calls hcs.symm
    cases hc
    refine ⟨cs₁, l, e₁, h₁, hnone, fun c hc => hran c.call (List.mem_map_of_mem hc), fun r h₂ => ?_⟩
    obtain ⟨rest, e', h', hg⟩ := hrest r h₂
    obtain ⟨cs, hcs, hd⟩ := delivers_of_gives hg
    obtain ⟨cs₁', c, cs₂', rfl, hbefore, hc⟩ := split_calls hcs.symm
    rw [List.map_injective_iff.mpr Hearing.call_injective hbefore,
      (Hearing.call_injective hc : c = ⟨l, e₁, h₁, r, h₂⟩)] at hd
    exact ⟨cs₂', e', h', hd⟩
  · have ht := htr ▸ session_tended depth as url globals scopes
    refine ⟨ht.split.2.1.listeners, fun id hid hn => not_called_later ht hid hn, fun l e h hm honce => ?_⟩
    subst hm
    exact called_once ht honce

/-- A `once` listener that clicks again, one that removes the last and adds another, and
    the last. -/
def unruly : List Action :=
  [.listen (.node 3) "click" ⟨false, false, true⟩ (.mk "again" [.click 3]),
    .listen (.node 3) "click" .default (.mk "swap" [.unlisten 3, .listen (.node 3) "click" .default (.mk "late" [])]),
    .listen (.node 3) "click" .default (.mk "last" [])]

/-- The host that they listen in. -/
def unrulyHost : Host := (play 1 unruly (.new "" .browser []) []).1.getD (.new "" .browser [])

/-- Of two clicks, the `once` listener is called by the first only, the last by neither.
    Where calls nest less deep, the click gives up. -/
theorem unruly_rounds :
    (∃ e h' cs, (deliver (.node 3) .click).run 4 unrulyHost = some (e, h') ∧
      Delivers (.node 3) .click unrulyHost cs e h') ∧
    (∃ cs l e h₁, (deliver (.node 3) .click).run 1 unrulyHost = none ∧
      ∀ r h₂, ∃ rest e' h', Delivers (.node 3) .click unrulyHost (cs ++ ⟨l, e, h₁, r, h₂⟩ :: rest) e' h') ∧
    (∃ e' h' l r, Turns (unrulyHost.snapshot ⟨.node 3, .atTarget, false⟩ "click") .click (unrulyHost.unlisten 1).2
      [⟨l, .click, (unrulyHost.unlisten 1).2, r, h'⟩] e' h' ∧ unrulyHost.page.listeners.Stands (.node 3) l) ∧
    (∃ later l e h₁ earlier, (play 5 (unruly ++ [.click 3]) (.new "" .browser []) []).2 =
      later ++ .begins (.listen l e) h₁ :: earlier ∧ l.id = 1 ∧ ∀ m ∈ later ++ earlier, ¬m.Calls 1) ∧
    ∃ later h₁ earlier, (play 5 (unruly ++ [.click 3]) (.new "" .browser []) []).2 =
      later ++ .ends (.act (.unlisten 3)) (.flag true) h₁ :: earlier ∧ ∀ m ∈ later, ¬m.Calls 3 := by
  obtain ⟨-, hrun, hnone, hround, hsession⟩ := dispatch_rounds
  have honce := hsession 5 (unruly ++ [.click 3]) "" .browser [] _ (.begins (.listen _ _) _) _ (List.take_append_drop 16 _).symm
  have hgone := hsession 5 (unruly ++ [.click 3]) "" .browser [] _ (.ends (.act (.unlisten 3)) (.flag true) _) _
    (List.take_append_drop 12 _).symm
  refine ⟨?_, ?_, ?_, ?_, ?_⟩
  · obtain ⟨cs, hd, -⟩ := hrun 4 (.node 3) .click unrulyHost _ _ rfl
    exact ⟨_, _, cs, rfl, hd⟩
  · obtain ⟨cs, l, e, h₁, -, -, hd⟩ := hnone 1 (.node 3) .click unrulyHost rfl
    exact ⟨cs, l, e, h₁, rfl, hd⟩
  · have hturns : Turns (unrulyHost.snapshot ⟨.node 3, .atTarget, false⟩ "click") .click (unrulyHost.unlisten 1).2
        [⟨_, .click, (unrulyHost.unlisten 1).2, Event.click.stopAtOnce, unrulyHost⟩] (taken Event.click.stopAtOnce) unrulyHost :=
      .passed rfl (.stopped rfl rfl)
    have hsound := (hsession 1 unruly "" .browser [] [] (.ends (.act _) _ unrulyHost) _ rfl).1
    exact ⟨_, _, _, _, hturns, ((hround _ _ _ _ _ _ _ _ hsound hturns).1 _ List.mem_cons_self).1⟩
  · exact ⟨_, _, _, _, _, rfl, rfl, honce.2.2 _ _ _ rfl rfl⟩
  · exact ⟨_, _, _, rfl, hgone.2.1 3 (by decide) rfl⟩

end Eventful.Host
