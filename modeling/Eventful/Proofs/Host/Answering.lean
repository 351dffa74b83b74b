import Eventful.Proofs.Host.Outside
import Eventful.Proofs.Host.Pipeline
import Eventful.Proofs.Host.Runs

/-
  Eventful.Proofs.Host.Answering — an expression that answers `false`.

  Nothing takes back that an event was prevented: listeners and entries only add to what
  was done to it (`Event.Handled`), on its way from turn to turn and from round to round.
  So what one binding prevents comes back prevented from the dispatch, whoever is called
  after it (`Delivers.prevented`). A binding prevents what its expression answers with
  `false`, unless its listener is passive (`Unheeding`).

  Of the tasks of a session only beginnings need be known: what they came back with, if
  they did, is what they come back with when they are run by themselves, and such a run
  makes the calls that the session has on record (`Proc.Makes.follows`).

  - `session_answered`: in a session `false` prevents every event that can be prevented,
    except where the listener is passive; there it does nothing.
-/

namespace Eventful.Page

theorem Event.prevented_prevent {e : Event} (hp : e.prevented = true) : e.prevent.prevented = true := by
  unfold Event.prevent
  split
  · rfl
  · exact hp

/-- Nothing takes back that an event was prevented. -/
theorem Event.Handled.prevented {e e' : Event} (h : e.Handled e') (hp : e.prevented = true) : e'.prevented = true := by
  induction h with
  | untouched => exact hp
  | stop _ ih => exact ih
  | stopAtOnce _ ih => exact ih
  | prevent _ ih => exact prevented_prevent ih

end Eventful.Page

namespace Eventful.Directive

/-- The listener of the directive cannot prevent its events: they are frequent, and it
    neither says that it will nor leaves them to a tracker. -/
def Unheeding (c : Config) (d : Directive) : Prop :=
  c.passiveHighFrequency = true ∧ .prevent ∉ d.modifiers ∧ d.event ∈ Plan.frequent ∧ .outside ∉ d.modifiers

instance (c : Config) (d : Directive) : Decidable (Unheeding c d) := inferInstanceAs (Decidable (_ ∧ _ ∧ _ ∧ _))

end Eventful.Directive

namespace Eventful.Host

open Page Binding Directive

variable {α : Type} {κ κ₀ : Kind} {h h' h₀ h₁ h₂ : Host} {tr earlier : History} {t : Task κ} {t₀ : Task κ₀}
  {cs : List Call} {e e' e₁ : Event} {rt : Nat} {b : Bound}

/-! ## Calls of a run -/

/-- Run by itself, the call comes back as it did. -/
def Call.Came (c : Call) : Prop := ∃ tr, c.task.Came c.before c.result c.after tr

theorem came_of_task {depth : Nat} {r : κ.Carrier} (hr : Task.run depth κ t h = some (r, h')) : ∃ tr, t.Came h r h' tr :=
  ⟨_, depth, Prod.ext ((record_fst depth t h []).trans hr) rfl⟩

theorem Task.Came.closes {r : κ.Carrier} (hc : t.Came h r h' tr) : Closes t h [] r h' tr := by
  obtain ⟨depth, hd⟩ := hc
  have hclosed := nested_record depth t h [] (congrArg Prod.fst hd)
  rwa [hd] at hclosed

theorem Spans.append {cs' : List Call} {tr' : History} (hs : Spans cs tr) (hs' : Spans cs' tr') :
    Spans (cs ++ cs') (tr' ++ tr) := by
  induction hs' with
  | nil =>
    rw [List.append_nil]
    exact hs
  | snoc c _ hn ih =>
    have hsnoc := Spans.snoc c ih hn
    rw [List.append_assoc] at hsnoc
    rwa [List.cons_append, List.append_assoc, List.cons_append]

/-- A procedure that came back made calls that came back, one after the other. -/
theorem gives_of_came {p : Proc α} {a : α} (hc : p.Came h a h' tr) :
    ∃ cs, p.Gives h cs a h' ∧ Spans cs tr ∧ ∀ c ∈ cs, c.Came := by
  induction p generalizing h tr with
  | done b =>
    obtain ⟨rfl, rfl, rfl⟩ := came_done.mp hc
    exact ⟨[], ⟨rfl, rfl, rfl⟩, .nil, List.forall_mem_nil _⟩
  | get k ih => exact ih h hc
  | set h₁ k ih => exact ih hc
  | call t k ih =>
    obtain ⟨r, h₁, tr₁, tr₂, ht, hk, rfl⟩ := came_call.mp hc
    obtain ⟨cs, hg, hs, hcs⟩ := ih r hk
    obtain ⟨inner, hn, rfl⟩ := ht.closes
    have hfirst : Spans [⟨t, h, r, h₁⟩] (.ends t r h₁ :: (inner ++ [.begins t h])) := .snoc ⟨t, h, r, h₁⟩ .nil hn
    exact ⟨⟨t, h, r, h₁⟩ :: cs, ⟨r, h₁, cs, rfl, hg⟩, hfirst.append hs, List.forall_mem_cons.mpr ⟨⟨_, ht⟩, hcs⟩⟩

/-- Calls that came back in a session do so by themselves. -/
theorem Spans.came {inner before : History} (hs : Spans cs inner) (hw : Whole (inner ++ before)) : ∀ c ∈ cs, c.Came := by
  induction hs with
  | nil => exact List.forall_mem_nil _
  | @snoc cs before' inner c _ hn ih =>
    have hwhole : Whole ([.ends c.task c.result c.after] ++ inner ++ [.begins c.task c.before] ++ (before' ++ before)) := by
      simpa using hw
    refine List.forall_mem_append.mpr ⟨ih hwhole.drop, List.forall_mem_singleton.mpr ?_⟩
    obtain ⟨h, during, after, he, hcame⟩ := hw _ c.task c.result c.after [] ((inner ++ _ :: before') ++ before) rfl
    -- The beginning that closes the call is the one that the calls have for it.
    obtain ⟨during', hn', hd⟩ := hcame.closes
    obtain rfl : during = during' := List.append_cancel_right (List.cons.inj hd).2
    rw [List.append_assoc, List.cons_append] at he
    obtain rfl := hn.unique hn' he
    injection (List.cons.inj (List.append_cancel_left he)).1 with _ _ hh
    exact ⟨_, hh ▸ hcame⟩

/-- Run again, a procedure makes the calls that it made before, with what they come back
    with, and then the same call. -/
theorem Proc.Makes.follows {p : Proc α} {cs' : List Call} {a : α} (hm : p.Makes h cs t h₁) (hcs : ∀ c ∈ cs, c.Came)
    (hg : p.Gives h cs' a h') (hcs' : ∀ c ∈ cs', c.Came) : ∃ r h₂ rest, cs' = cs ++ ⟨t, h₁, r, h₂⟩ :: rest := by
  induction p generalizing h cs cs' with
  | done b =>
    obtain ⟨r⟩ : Nonempty κ.Carrier := inferInstance
    obtain ⟨rest, a', h₂, he, -, -⟩ := hm r h
    simp at he
  | get k ih => exact ih h hm hcs hg hcs'
  | set h₃ k ih => exact ih hm hcs hg hcs'
  | call t' k ih =>
    obtain ⟨r', h₃, rest', rfl, hg⟩ := hg
    cases cs with
    | nil =>
      obtain ⟨r⟩ : Nonempty κ.Carrier := inferInstance
      obtain ⟨rest, a', h₂, r₁, h₄, rest₁, he, -⟩ := hm r h
      cases he
      exact ⟨r', h₃, rest', rfl⟩
    | cons c cs =>
      obtain ⟨r⟩ : Nonempty κ.Carrier := inferInstance
      obtain ⟨rest, a', h₂, r₁, h₄, rest₁, he, -⟩ := hm r h
      obtain ⟨rfl, -⟩ := List.cons.inj he
      obtain ⟨⟨_, hc⟩, hcs⟩ := List.forall_mem_cons.mp hcs
      obtain ⟨⟨_, hc'⟩, hrest'⟩ := List.forall_mem_cons.mp hcs'
      obtain ⟨rfl, rfl, -⟩ := hc.unique hc'
      have hrest : (k r₁).Makes h₄ cs t h₁ := by
        intro r h₂
        obtain ⟨rest, a', h₂, r₂, h₅, rest₂, he, hg⟩ := hm r h₂
        cases he
        exact ⟨rest, a', h₂, hg⟩
      obtain ⟨r, h₂, rest, rfl⟩ := ih r₁ hrest hcs hg hrest'
      exact ⟨r, h₂, rest, rfl⟩

/-- Run by itself, a task of a session does to the page and to events what it may. -/
theorem tended_of_came {r : κ.Carrier} (ht : Tended (.begins t h :: earlier)) (hc : t.Came h r h' tr) : Tended tr := by
  obtain ⟨hdue, hkempt, -⟩ := ht
  obtain ⟨depth, hd⟩ := hc
  have halone : t.Due h [] := by
    cases t with
    | listen l e =>
      obtain ⟨h₀, target, hcalled⟩ := hdue
      exact ⟨h₀, target, hcalled.stands, hcalled.sound, hcalled.host, List.forall_mem_nil _⟩
    | _ => trivial
  exact (record_returned tending_holds hd ⟨⟨⟨hkempt.tree, hkempt.listeners, List.forall_mem_nil _⟩, trivial⟩, halone⟩
    fun _ _ => trivial).1

/-! ## Prevented for good -/

section

variable {cs : List Hearing} {target : Target}

theorem Turns.prevented {ls : List (Listener Reaction)} (ht : Turns ls e h cs e' h')
    (hk : ∀ c ∈ cs, c.event.Handled c.back) (hp : e.prevented = true ∨ ∃ c ∈ cs, c.back.prevented = true) :
    e'.prevented = true := by
  induction ht with
  | nil => exact hp.resolve_right fun ⟨_, hc, _⟩ => List.not_mem_nil hc
  | passed _ _ ih => exact ih hk hp
  | called _ _ _ ih =>
    obtain ⟨hback, hk⟩ := List.forall_mem_cons.mp hk
    rcases hp with hp | ⟨c, hc, hp⟩
    · exact ih hk (.inl (hback.prevented hp))
    · rcases List.mem_cons.mp hc with rfl | hc
      · exact ih hk (.inl hp)
      · exact ih hk (.inr ⟨c, hc, hp⟩)
  | stopped =>
    rcases hp with hp | ⟨c, hc, hp⟩
    · exact (List.forall_mem_singleton.mp hk).prevented hp
    · rw [List.mem_singleton.mp hc] at hp
      exact hp

theorem Rounds.prevented {rs : List Round} (hr : Rounds rs e h cs e' h') (hk : ∀ c ∈ cs, c.event.Handled c.back)
    (hp : e.prevented = true ∨ ∃ c ∈ cs, c.back.prevented = true) : e'.prevented = true := by
  induction hr with
  | nil => exact hp.resolve_right fun ⟨_, hc, _⟩ => List.not_mem_nil hc
  | stopped ht _ => exact ht.prevented hk hp
  | next ht _ _ ih =>
    obtain ⟨hk, hk'⟩ := List.forall_mem_append.mp hk
    rcases hp with hp | ⟨c, hc, hp⟩
    · exact ih hk' (.inl (ht.prevented hk (.inl hp)))
    · rcases List.mem_append.mp hc with hc | hc
      · exact ih hk' (.inl (ht.prevented hk (.inr ⟨c, hc, hp⟩)))
      · exact ih hk' (.inr ⟨c, hc, hp⟩)

/-- What one listener prevents comes back prevented. -/
theorem Delivers.prevented (hd : Delivers target e h cs e' h') (hk : ∀ c ∈ cs, c.event.Handled c.back) {c : Hearing}
    (hc : c ∈ cs) (hp : c.back.prevented = true) : e'.prevented = true := by
  cases hd with
  | down hr _ => exact hr.prevented hk (.inr ⟨c, hc, hp⟩)
  | up hr _ hr' =>
    obtain ⟨hk, hk'⟩ := List.forall_mem_append.mp hk
    rcases List.mem_append.mp hc with hc | hc
    · exact hr'.prevented hk' (.inl (hr.prevented hk (.inr ⟨c, hc, hp⟩)))
    · exact hr'.prevented hk' (.inr ⟨c, hc, hp⟩)

end

/-- What one entry prevents comes back prevented. -/
theorem Walk.prevented {k : Nat} {ws : List (Entry Waiter)} {vs : List Visit} (hw : Walk k ws e h vs e' h')
    (hk : ∀ v ∈ vs, v.event.Handled v.back) {v : Visit} (hv : v ∈ vs) (hp : v.back.prevented = true) :
    e'.prevented = true := by
  induction hw with
  | nil => cases hv
  | passed _ _ ih => exact ih hk hv
  | called _ hw ih =>
    obtain ⟨-, hk⟩ := List.forall_mem_cons.mp hk
    rcases List.mem_cons.mp hv with rfl | hv
    · exact (hw.kept hk).prevented hp
    · exact ih hk hv

/-! ## Dispatches -/

/-- In the dispatch of an action that began in `h₀` the task is called: by the action, or by
    a tracker's listener that is called by it. -/
inductive Dispatched (a : Action) (h₀ : Host) : Task .event → Host → History → Prop
  | heard {t : Task .event} {h : Host} {tr : History} : CalledBy (.act a) h₀ t h tr → Dispatched a h₀ t h tr
  | walked {l : Listener Reaction} {k : Nat} {e e₁ : Event} {w : Entry Waiter} {h h₁ : Host} {vs : List Call}
    {inner before : History} : l.action = .tracker k → CalledBy (.act a) h₀ (.listen l e) h₁ before → Spans vs inner →
    (Task.listen l e).body.Makes h₁ vs (.outside w e₁) h →
    Dispatched a h₀ (.outside w e₁) h (inner ++ .begins (.listen l e) h₁ :: before)

/-- Events reach bindings in dispatches. -/
theorem dispatched_of_fires {t : Task .event} {id : Nat} (hf : (Moment.begins t h).Fires rt id e)
    (hp : (Moment.begins t h).Placed tr) (hplaced : Placed tr) :
    ∃ a target h₀, a.target? = some target ∧ Dispatched a h₀ t h tr := by
  cases t with
  | listen l e₀ =>
    obtain ⟨a, target, h₀, ha, hc⟩ := called_of_listen hp
    exact ⟨a, target, h₀, ha, .heard hc⟩
  | outside w e₀ =>
    obtain ⟨l, e, h₁, k, hl, vs, inner, before, rfl, hs, hmakes⟩ := called_of_outside hp
    obtain ⟨a, target, h₀, ha, hc⟩ := called_of_listen hplaced.drop.1
    exact ⟨a, target, h₀, ha, .walked hl hc hs hmakes⟩

variable {a : Action} {t : Task .event}

/-- The task comes back with an event that was prevented, if it does. -/
def Task.Prevents (t : Task .event) (h : Host) : Prop := ∀ e' h' tr, t.Came h e' h' tr → e'.prevented = true

theorem prevents_of_walk {l : Listener Reaction} {k : Nat} {w : Entry Waiter} {inner before : History}
    (hl : l.action = .tracker k) (hs : Spans cs inner) (hmakes : (Task.listen l e).body.Makes h₁ cs (.outside w e₁) h)
    (ht : Tended (inner ++ .begins (.listen l e) h₁ :: before)) (hw : Whole (inner ++ .begins (.listen l e) h₁ :: before))
    (hprevents : (Task.outside w e₁).Prevents h) : (Task.listen l e).Prevents h₁ := by
  intro e' h' tr hcame
  have htended := tended_of_came ht.drop hcame
  obtain ⟨during, hbody, rfl⟩ := came_iff.mp hcame
  obtain ⟨cs', hg, hspans, hcs'⟩ := gives_of_came hbody
  obtain ⟨r, h₂, rest, rfl⟩ := hmakes.follows (hs.came hw) hg hcs'
  obtain ⟨vs, h₃, hvs, -, hwalk⟩ := walk_of_listen hl hg
  obtain ⟨vs₁, v, vs₂, rfl, rfl, hv⟩ := split_visits hvs.symm
  obtain rfl : v = ⟨w, e₁, h, r, h₂⟩ := Visit.call_injective hv
  refine hwalk.prevented (fun v hv => ?_) (List.mem_append_right _ List.mem_cons_self) ?_
  · rw [hvs] at hspans
    exact htended.handed (t := .outside v.entry v.event)
      (List.mem_cons_of_mem _ (List.mem_append_left _ (hspans.mem (List.mem_map_of_mem hv)).2))
  · obtain ⟨_, hv⟩ := hcs' _ (List.mem_append_right _ List.mem_cons_self)
    exact hprevents _ _ _ hv

theorem prevented_of_called {target : Target} {r : Answer} (ha : a.target? = some target)
    (hc : CalledBy (.act a) h₀ t h tr) (ht : Tended tr) (hw : Whole tr) (hprevents : t.Prevents h) {tr' : History}
    (hcame : (Task.act a).Came h₀ r h' tr') : ∃ e', r = .event e' ∧ e'.prevented = true := by
  obtain ⟨cs, inner, before, rfl, hs, hmakes⟩ := hc
  have htended := tended_of_came ht.drop hcame
  obtain ⟨during, hbody, rfl⟩ := came_iff.mp hcame
  obtain ⟨cs', hg, hspans, hcs'⟩ := gives_of_came hbody
  obtain ⟨e₁, h₂, rest, rfl⟩ := hmakes.follows (hs.came hw) hg hcs'
  rcases delivers_of_dispatch ha hg with hnil | ⟨e, h₁, cs₀, e', h₃, -, -, hcs₀, rfl, hd⟩
  · simp at hnil
  · refine ⟨e', rfl, ?_⟩
    obtain ⟨cs₁, c, cs₂, rfl, rfl, hcall⟩ := split_calls hcs₀.symm
    refine hd.prevented (fun c hc => ?_) (List.mem_append_right _ List.mem_cons_self) (c := c) ?_
    · rw [hcs₀] at hspans
      exact htended.handed (t := .listen c.listener c.event)
        (List.mem_cons_of_mem _ (List.mem_append_left _ (hspans.mem (List.mem_map_of_mem hc)).2))
    · obtain ⟨_, hc⟩ := hcs' _ (List.mem_append_right _ List.mem_cons_self)
      cases c
      cases hcall
      exact hprevents _ _ _ hc

theorem prevented_of_dispatched {target : Target} {r : Answer} (ha : a.target? = some target) (hd : Dispatched a h₀ t h tr)
    (ht : Tended tr) (hw : Whole tr) (hprevents : t.Prevents h) {tr' : History} (hcame : (Task.act a).Came h₀ r h' tr') :
    ∃ e', r = .event e' ∧ e'.prevented = true := by
  cases hd with
  | heard hc => exact prevented_of_called ha hc ht hw hprevents hcame
  | @walked l k e _ _ _ h₁ _ inner before hl hc hs hmakes =>
    have hlisten := prevents_of_walk hl hs hmakes ht hw hprevents
    rw [List.append_cons] at hw
    exact prevented_of_called ha hc ht.drop.2.2 hw.drop hlisten hcame

/-! ## What a binding comes back with -/

theorem id_of_live {id : Nat} {r : Runtime Script} (hlive : live? h rt id = some (r, b)) : b.id = id := by
  obtain ⟨_, -, hb⟩ := Option.bind_eq_some_iff.mp hlive
  obtain ⟨b', hb', he⟩ := Option.map_eq_some_iff.mp hb
  cases he
  unfold Runtime.reachable? at hb'
  exact beq_iff_eq.mp (List.find?_some hb' :)

theorem evaluated_of_complete {id : Nat} {out : Outcome} (hg : (complete rt id e).Gives h cs e' h')
    (hc : ⟨.effect rt b e₁, h₁, out, h₂⟩ ∈ cs) : ∃ r, live? h rt id = some (r, b) ∧ e' = answered e₁ out := by
  cases hlive : live? h rt id with
  | none =>
    unfold complete at hg
    rw [gives_get, hlive] at hg
    rw [hg.1] at hc
    cases hc
  | some found =>
    obtain ⟨r, b'⟩ := found
    obtain rfl := id_of_live hlive
    cases hfresh : b'.plan.isOnce && b'.fired with
    | true =>
      unfold complete at hg
      rw [gives_get, hlive] at hg
      simp only [hfresh] at hg
      rw [hg.1] at hc
      cases hc
    | false =>
      obtain ⟨out', h₃, reports, rfl, hr, rfl⟩ := gives_complete hlive hfresh hg
      rcases List.mem_cons.mp hc with hc | hc
      · cases hc
        exact ⟨r, rfl, rfl⟩
      · obtain ⟨_, _, _, _, he⟩ := hr _ hc
        cases he

theorem evaluated_of_passGuards {b' : Bound} {gs : List Guard} {out : Outcome}
    (hg : (passGuards rt b' e gs).Gives h cs e' h') (hc : ⟨.effect rt b e₁, h₁, out, h₂⟩ ∈ cs) :
    ∃ r, live? h rt b'.id = some (r, b) ∧ e' = answered e₁ out := by
  have hback : ∀ {e : Event}, (pure e : Proc Event).Gives h cs e' h' → False := by
    rintro e ⟨rfl, -, -⟩
    cases hc
  induction gs generalizing e with
  | nil => exact evaluated_of_complete hg hc
  | cons g rest ih =>
    cases g with
    | key f =>
      unfold passGuards at hg
      split at hg
      · exact ih hg
      · exact (hback hg).elim
    | stop => exact ih (e := e.stop) hg
    | prevent => exact ih (e := e.prevent) hg
    | outside =>
      unfold passGuards at hg
      rw [gives_get] at hg
      split at hg
      · exact ih hg
      · exact (hback hg).elim
    | debounce wait =>
      obtain ⟨rfl, -⟩ := hg
      cases hc
    | once => exact ih (e := e) hg

/-- If a binding evaluates its expression for an event, the event comes back as the outcome
    leaves it. -/
theorem evaluated_of_fire {id : Nat} {out : Outcome} (hg : (fire rt id e).Gives h cs e' h')
    (hc : ⟨.effect rt b e₁, h₁, out, h₂⟩ ∈ cs) : ∃ r, live? h rt id = some (r, b) ∧ e' = answered e₁ out := by
  unfold fire at hg
  rw [gives_get] at hg
  split at hg
  · rw [hg.1] at hc
    cases hc
  · rename_i b' hlive
    split at hg
    · rw [hg.1] at hc
      cases hc
    · rw [← id_of_live hlive]
      exact evaluated_of_passGuards hg hc

/-- The evaluation is what the task begins with. -/
theorem makes_of_fires {m : Moment} {id : Nat} {e₀ : Event} (hf : m.Fires rt id e₀)
    (hp : (Moment.begins t₀ h₁).Placed (m :: tr)) (hn : ¬t₀.IsAct) :
    ∃ (t : Task .event) (h : Host), m = .begins t h ∧ t.body.Makes h [] t₀ h₁ := by
  obtain ⟨κ, t, h, cs, inner, before, he, hs, hmakes⟩ := hp.resolve_left hn
  -- Nothing came back since the event reached the binding.
  cases hs with
  | snoc =>
    cases he
    exact hf.elim
  | nil =>
    cases he
    cases t with
    | listen | outside => exact ⟨_, h, rfl, hmakes⟩
    | _ => exact hf.elim

theorem answered_of_came {h₃ : Host} {id : Nat} {e₀ : Event} {out : Outcome} {tr' : History}
    (hf : (Moment.begins t h).Fires rt id e₀) (hmakes : t.body.Makes h [] (.effect rt b e) h₁)
    (hout : (Task.effect rt b e).Came h₁ out h₂ tr) (hcame : t.Came h e' h₃ tr') : e' = answered e out := by
  obtain ⟨during, hbody, rfl⟩ := came_iff.mp hcame
  obtain ⟨cs, hg, -, hcs⟩ := gives_of_came hbody
  obtain ⟨out', h₄, rest, rfl⟩ := hmakes.follows (List.forall_mem_nil _) hg hcs
  obtain ⟨_, hout'⟩ := hcs _ List.mem_cons_self
  obtain ⟨rfl, -, -⟩ := hout.unique hout'
  obtain ⟨_, -, he⟩ := evaluated_of_fire (gives_of_fires hf hg) List.mem_cons_self
  exact he

theorem live_of_makes {id : Nat} {e₀ : Event} (hf : (Moment.begins t h).Fires rt id e₀)
    (hmakes : t.body.Makes h [] (.effect rt b e) h₁) : ∃ r, live? h rt id = some (r, b) := by
  obtain ⟨rest, e', h', hg⟩ := hmakes (.ok .undefined) h
  obtain ⟨r, hlive, -⟩ := evaluated_of_fire (gives_of_fires hf hg) List.mem_cons_self
  exact ⟨r, hlive⟩

/-! ## Passive listeners -/

/-- An event is passive at a binding that has a listener of its own, if that is. -/
theorem passive_at_binding {F : Nat → Prop} {m : Moment} {r : Runtime Script} (htold : Told F (m :: earlier))
    (htended : Tended earlier) (hplaced : Placed (m :: earlier)) (hf : m.Fires rt b.id e)
    (hlive : live? m.host rt b.id = some (r, b)) : e.passive = (b.plan.options.passive && !b.plan.isOutside) := by
  cases m with
  | ends t r h => exact hf.elim
  | begins t h =>
    cases t with
    | listen l e₀ =>
      obtain ⟨ha, rfl⟩ := hf
      obtain ⟨he, t, hfits⟩ := fits_of_listen htold htended hplaced.1 ha hlive
      rw [he, hfits.inside, Bool.not_false, Bool.and_true]
    | outside w e₀ =>
      obtain ⟨ha, rfl⟩ := hf
      obtain ⟨l, e₁, h₀, k, vs, inner, before, rfl, -, -, -, -, hwalk⟩ := walk_of_outside hplaced.1 htended
      obtain ⟨rest, e', h', hw⟩ := hwalk e₀ h
      have hmem := hw.sublist.subset
        (List.mem_map_of_mem (List.mem_append_right vs (List.mem_cons_self (a := ⟨w, e₀, h, e₀, h⟩) (l := rest))))
      rw [select_beginWalk] at hmem
      obtain ⟨b₀, hbound, -, hout, hb₀⟩ :=
        htold.2.2.2.split.1.1.1.books.entries.backed (List.mem_filter.mp hmem).1 ha
      have hid : b₀.id = b.id := by
        have := congrArg Entry.action hb₀
        rw [ha] at this
        injection this with _ hid
        exact hid.symm
      have hsame := same_of_bound htold htold.1.1.books (List.mem_append_right _ List.mem_cons_self) hbound hlive hid
      rw [unpassive_of_outside htold.2.2.2 htended hplaced.2 hplaced.1, hsame.plan, hout, Bool.not_true, Bool.and_false]
    | _ => exact hf.elim

theorem unheeding_iff {c : Config} (hbuilt : Plan.build c b.directive = .ok b.plan) :
    Unheeding c b.directive ↔ (b.plan.options.passive && !b.plan.isOutside) = true := by
  rw [Bool.and_eq_true, Bool.not_eq_true', ← Bool.not_eq_true, Plan.passive_iff hbuilt, Plan.isOutside_iff hbuilt]
  simp only [Unheeding, and_assoc]

theorem same_heard (e : Event) (gs : List Guard) :
    (heard e gs).cancelable = e.cancelable ∧ (heard e gs).passive = e.passive ∧
      (e.passive = true → (heard e gs).prevented = e.prevented) := by
  induction gs generalizing e with
  | nil => exact ⟨rfl, rfl, fun _ => rfl⟩
  | cons g rest ih =>
    cases g with
    | stop => exact ih e.stop
    | prevent =>
      obtain ⟨hc, hp, hprevented⟩ := ih e.prevent
      have hsame : e.prevent.cancelable = e.cancelable ∧ e.prevent.passive = e.passive := by
        unfold Event.prevent
        split <;> exact ⟨rfl, rfl⟩
      refine ⟨hc.trans hsame.1, hp.trans hsame.2, fun he => (hprevented (hsame.2.trans he)).trans ?_⟩
      unfold Event.prevent
      rw [he, Bool.not_true, Bool.and_false]
      rfl
    | _ => exact ih e

/-! ## In a session -/

/-- Take any evaluation of a session of an expression without a wait. It was begun for an
    event that reached the binding in the dispatch of some action. Suppose that it answers
    `false`. If the event can be prevented, what the action comes back with, if it does, is
    an event that was prevented, whatever listeners do before and after; except where the
    binding's listener is passive. There the event comes back as it was. -/
theorem session_answered (depth : Nat) (as : List Action) (url : String) (globals : Globals) (scopes : List Value)
    (later earlier : History) (rt : Nat) (b : Bound) (e : Event) (h₁ : Host)
    (hs : (play depth as (.new url globals scopes) []).2 = later ++ .begins (.effect rt b e) h₁ :: earlier)
    (hwait : ∀ wait, .debounce wait ∉ b.directive.modifiers) :
    ∃ (t : Task .event) (h : Host) (before : History) (e₀ : Event) (r : Runtime Script) (a : Action) (target : Target)
      (h₀ : Host), earlier = .begins t h :: before ∧ (Moment.begins t h).Fires rt b.id e₀ ∧ e = heard e₀ b.plan.guards ∧
      live? h rt b.id = some (r, b) ∧ a.target? = some target ∧ Dispatched a h₀ t h before ∧
      ∀ n h₂, Task.run n .outcome (.effect rt b e) h₁ = some (.ok (.boolean false), h₂) →
        (¬Unheeding r.config b.directive → e₀.cancelable = true →
          ∀ n answer h', Task.run n .answer (.act a) h₀ = some (answer, h') →
            ∃ e', answer = .event e' ∧ e'.prevented = true) ∧
        (Unheeding r.config b.directive →
          ∀ n e' h', Task.run n .event t h = some (e', h') → e' = e ∧ e'.prevented = e₀.prevented) := by
  have htold := session_told (F := fun _ => False) depth as url globals scopes fun m _ => fair_nobody m
  have htended := session_tended depth as url globals scopes
  have hplaced := session_placed depth as (.new url globals scopes)
  have hwhole := session_whole depth as (.new url globals scopes)
  rw [hs] at htold htended hplaced hwhole
  have heffect := htold.split.1
  obtain ⟨m, before, e₀, rfl, ⟨hfires, -⟩, he⟩ := triggered_of_evaluated heffect.1 hwait
  obtain ⟨t, h, rfl, hmakes⟩ := makes_of_fires hfires hplaced.drop.1 id
  obtain ⟨r, hlive⟩ := live_of_makes hfires hmakes
  have hmoment := heffect.2.2.2
  have htended : Tended before := htended.drop.2.2.2.2
  have hplaced : Placed (.begins t h :: before) := hplaced.drop.2
  have hwhole : Whole before := by
    rw [List.append_cons, List.append_cons] at hwhole
    exact hwhole.drop
  obtain ⟨a, target, h₀, ha, hd⟩ := dispatched_of_fires hfires hplaced.1 hplaced.2
  refine ⟨t, h, before, e₀, r, a, target, h₀, rfl, hfires, he, hlive, ha, hd, fun n h₂ hout => ?_⟩
  obtain ⟨_, hout⟩ := came_of_task hout
  obtain ⟨hc, hp, hprevented⟩ := same_heard e₀ b.plan.guards
  rw [← he] at hc hp hprevented
  have hbooks := books_of_fires hmoment.1 hfires
  obtain ⟨hr, -, hreach, -⟩ := (live?_eq_some hbooks.runtimes).mp hlive
  have hunheeding : Unheeding r.config b.directive ↔ e.passive = true := by
    rw [unheeding_iff ((hbooks.runtimes hr).built hreach), hp, passive_at_binding hmoment htended hplaced hfires hlive]
  refine ⟨fun hheeds hcancelable n answer h' hrun => ?_, fun hignores n e' h' hrun => ?_⟩
  · obtain ⟨_, hrun⟩ := came_of_task hrun
    have hprevents : t.Prevents h := by
      intro e' h₃ tr hcame
      rw [answered_of_came hfires hmakes hout hcame]
      show e.prevent.prevented = true
      unfold Event.prevent
      rw [hc, hcancelable, (Bool.not_eq_true _).mp (mt hunheeding.mpr hheeds)]
      rfl
    exact prevented_of_dispatched ha hd htended hwhole hprevents hrun
  · obtain ⟨_, hrun⟩ := came_of_task hrun
    have hpassive := hunheeding.mp hignores
    have hback : e' = e := by
      rw [answered_of_came hfires hmakes hout hrun]
      show e.prevent = e
      unfold Event.prevent
      rw [hpassive, Bool.not_true, Bool.and_false]
      rfl
    exact ⟨hback, hback ▸ hprevented (hp ▸ hpassive)⟩

/-- A `div` whose binding answers `false`, and the wheel that turns over a node. -/
def wheels (modifiers : List Modifier) (n : NodeId) : List Action :=
  [.appendElement 3 "div", .setSize 4 100 20,
    .newRuntime ⟨none, false, none, .custom fun _ _ => .done (.ok (.boolean false))⟩,
    .bindDirective 0 4 ⟨"x-on:wheel", "wheel", modifiers, "false"⟩ 0,
    .dispatch (.node n) (.event (.new "wheel" .plain))]

/-- Over the `div` the wheel is not prevented: the listener is passive. -/
theorem wheels_unheeded : ∃ l b e r h₀ h h₁ h₂ h₃ e' h' earlier, (play 3 (wheels [] 4) (.new "" .browser []) []).2 =
    .ends (.act (.dispatch (.node 4) (.event (.new "wheel" .plain)))) (.event e') h' :: .ends (.listen l e) r h₃ ::
      .ends (.effect 0 b e) (.ok (.boolean false)) h₂ :: .begins (.effect 0 b e) h₁ :: .begins (.listen l e) h ::
      .begins (.act (.dispatch (.node 4) (.event (.new "wheel" .plain)))) h₀ :: earlier ∧
    b.directive.modifiers = [] ∧ e.cancelable = true ∧ e'.prevented = false :=
  ⟨_, _, _, _, _, _, _, _, _, _, _, _, rfl, rfl, rfl, rfl⟩

/-- Beside a `div` that waits for events outside of it, it is. -/
theorem wheelsBeside_answered : ∃ b e h₁ later earlier,
    (play 4 (wheels [.outside] 3) (.new "" .browser []) []).2 = later ++ .begins (.effect 0 b e) h₁ :: earlier ∧
      (∀ wait, .debounce wait ∉ b.directive.modifiers) ∧
      (∃ n h₂, Task.run n .outcome (.effect 0 b e) h₁ = some (.ok (.boolean false), h₂)) ∧
      (∃ (t : Task .event) (h : Host) (before : History) (a : Action) (h₀ : Host), earlier = .begins t h :: before ∧
        Dispatched a h₀ t h before ∧ ∀ n answer h', Task.run n .answer (.act a) h₀ = some (answer, h') →
          ∃ e', answer = .event e' ∧ e'.prevented = true) ∧
      ∃ e' h', .ends (.act (.dispatch (.node 3) (.event (.new "wheel" .plain)))) (.event e') h' ∈ later ∧
        e'.prevented = true := by
  have hwait : ∀ wait, Modifier.debounce wait ∉ [Modifier.outside] := fun wait hm => by simp at hm
  obtain ⟨t, h, before, e₀, r, a, _, h₀, he, -, hheard, -, -, hd, hfalse⟩ :=
    session_answered 4 (wheels [.outside] 3) "" .browser [] _ _ 0 _ _ _ (List.take_append_drop 4 _).symm hwait
  refine ⟨_, _, _, _, _, (List.take_append_drop 4 _).symm, hwait, ⟨1, _, rfl⟩, ⟨t, h, before, a, h₀, he, hd, ?_⟩, _, _,
    List.mem_of_getElem? (i := 0) rfl, rfl⟩
  refine (hfalse 1 _ rfl).1 (fun hu => hu.2.2.2 List.mem_cons_self) ?_
  rw [← (same_heard e₀ _).1, ← hheard]
  rfl

end Eventful.Host
