import Eventful.Proofs.Host.Doings
import Eventful.Proofs.Host.Subscribers
import Eventful.Proofs.Host.Watching

/-
  Eventful.Proofs.Host.Standing — who is called in a round.

  A round calls those who stood when it began, one after the other (`Turn`). Whoever stood
  there stood at every moment before, from the one at which it got its id. So nobody is
  called by a round that began after it was cancelled. But a round looks at the list that it
  began with: whoever is cancelled while it goes on is called all the same.

  - `session_called`: the rounds in which subscribers and removal observers are called;
  - `cancelled_in_round`: a subscriber and an observer that are called after they were
    cancelled.
-/

namespace Eventful.Host

open Page Binding

variable {α σ τ : Type} {κ : Kind} {R : Host → Host → Prop} {C : Call → Prop} {start h h₁ h' : Host}
  {tr before earlier : History} {c : Call} {cs cs₁ cs₂ : List Call} {i id k sub : Nat}

/-! ## From moment to moment -/

/-- From every moment to the next, the host changes as `R` says. -/
def Moves (R : Host → Host → Prop) (start : Host) : History → Prop
  | [] => True
  | m :: tr => R (reached start tr) m.host ∧ Moves R start tr

/-- Changes that add up. -/
structure Lasting (R : Host → Host → Prop) : Prop where
  refl : ∀ h, R h h
  trans : ∀ {h h₁ h'}, R h h₁ → R h₁ h' → R h h'

theorem Moves.drop {later : History} (hm : Moves R start (later ++ tr)) : Moves R start tr := by
  induction later with
  | nil => exact hm
  | cons m later ih => exact ih hm.2

theorem Moves.since (hm : Moves R start tr) (hR : Lasting R) : ∀ m ∈ tr, R m.host (reached start tr) := by
  induction tr with
  | nil => exact List.forall_mem_nil _
  | cons m tr ih => exact List.forall_mem_cons.mpr ⟨hR.refl _, fun m' hm' => hR.trans (ih hm.2 m' hm') hm.1⟩

theorem Moves.reached (hm : Moves R start tr) (hR : Lasting R) : R start (reached start tr) := by
  induction tr with
  | nil => exact hR.refl _
  | cons m tr ih => exact hR.trans (ih hm.2) hm.1

theorem Moves.host (hm : Moves R start tr) (hR : Lasting R) : ∀ m ∈ tr, R start m.host := by
  intro m hmem
  obtain ⟨later, earlier, rfl⟩ := List.append_of_mem hmem
  exact hm.drop.reached hR

/-- What the procedures do between their calls happens between moments. -/
def moving (R : Host → Host → Prop) (start : Host) : Contract where
  fair _ := True
  pre _ h tr := R (reached start tr) h ∧ Moves R start tr
  post t _ _ r h' tr' := ∃ tr'', tr' = .ends t r h' :: tr'' ∧ Moves R start tr'
  kept := Moves R start
  kept_begins hp := hp
  kept_ends hp _ := by
    obtain ⟨tr'', -, hm⟩ := hp
    exact hm

theorem meets_moving (p : Proc α) (hr : reached start tr = h₁) (hm : Moves R start tr)
    (hp : ∀ cs a h', p.Gives h cs a h' → Between R h₁ cs h') :
    p.Meets (moving R start) h tr fun _ h' tr' => R (Host.reached start tr') h' ∧ Moves R start tr' := by
  induction p generalizing h h₁ tr with
  | done a =>
    subst hr
    exact ⟨hp [] a h ⟨rfl, rfl, rfl⟩, hm⟩
  | get k ih => exact ih h hr hm hp
  | set h₂ k ih => exact ih hr hm hp
  | @call κ t k ih =>
    have hcall : R h₁ h := by
      obtain ⟨r⟩ : Nonempty κ.Carrier := inferInstance
      obtain ⟨cs, a, h', hg⟩ := gives_something (k r) h
      exact (hp _ a h' ⟨r, h, cs, rfl, hg⟩).1
    subst hr
    refine ⟨⟨hcall, hm⟩, fun r h₂ tr₂ hpost _ _ => ?_⟩
    obtain ⟨tr'', rfl, hm'⟩ := hpost
    exact ih r rfl hm' fun cs a h' hg => (hp _ a h' ⟨r, h₂, cs, rfl, hg⟩).2

/-- What all bodies keep to between their calls, a session keeps to from moment to moment. -/
theorem session_moves (hR : Lasting R) (hlog : ∀ h, R h { h with log := [] })
    (hbody : ∀ {κ : Kind} (t : Task κ) h cs r h', t.body.Gives h cs r h' → Between R h cs h') (depth : Nat)
    (as : List Action) (start : Host) : Moves R start (play depth as start []).2 := by
  have hholds : (moving R start).Holds := by
    intro κ t h tr hm _
    have hbegun : Moves R start (.begins t h :: tr) := hm
    exact (meets_moving t.body rfl hbegun (hbody t h)).mono fun r h' tr' hm' => ⟨tr', rfl, hm'⟩
  refine play_kept hholds (fun h tr => R (reached start tr) h ∧ Moves R start tr) ?_ ?_ depth as start [] trivial
    ⟨hR.refl _, trivial⟩ fun _ _ => trivial
  · intro h tr hready a
    exact ⟨hR.trans hready.1 (hlog h), hready.2⟩
  · intro a h tr r h' tr' hpost _
    obtain ⟨tr'', rfl, hm⟩ := hpost
    exact ⟨hR.refl _, hm⟩

/-! ## Scopes and observers as time goes by -/

theorem lasting_scopesLater : Lasting ScopesLater := ⟨.rfl, .trans⟩

theorem Between.edit (hR : Lasting R) (hr : R h h₁) (hb : Between R h₁ cs h') : Between R h cs h' := by
  cases cs with
  | nil => exact hR.trans hr hb
  | cons c cs => exact ⟨hR.trans hr hb.1, hb.2⟩

theorem Between.append (hR : Lasting R) (hb : Between R h cs₁ h₁) (hb' : Between R h₁ cs₂ h') :
    Between R h (cs₁ ++ cs₂) h' := by
  induction cs₁ generalizing h with
  | nil => exact hb'.edit hR hb
  | cons c cs ih => exact ⟨hb.1, ih hb.2⟩

theorem Between.mono {R' : Host → Host → Prop} (hR : ∀ h h', R h h' → R' h h') (hb : Between R h cs h') :
    Between R' h cs h' := by
  induction cs generalizing h with
  | nil => exact hR _ _ hb
  | cons c cs ih => exact ⟨hR _ _ hb.1, ih hb.2⟩

theorem Between.until (hb : Between R h (cs₁ ++ c :: cs₂) h') : Between R h cs₁ c.before := by
  induction cs₁ generalizing h with
  | nil => exact hb.1
  | cons c' cs ih => exact ⟨hb.1, ih hb.2⟩

theorem InTurn.between (hR : Lasting R) (ht : InTurn h cs h') : Between R h cs h' := by
  refine Between.mono (fun h h' e => ?_) ht
  cases e
  exact hR.refl h

theorem Informs.inTurn {ns : List NodeId} {os : List (Nat × Observer)} (hi : Informs ns os h cs h') : InTurn h cs h' := by
  induction hi with
  | nil => exact rfl
  | cons _ ih => exact ⟨rfl, ih⟩

theorem Doings.between (hd : Doings C h cs h') : Between ScopesLater h cs h' := by
  induction hd with
  | done h => exact .rfl h
  | edit hl _ ih => exact ih.edit lasting_scopesLater hl
  | call _ _ ih => exact ⟨.rfl _, ih⟩
  | @write i path v s _ h _ _ _ _ hw ht _ ih =>
    obtain ⟨-, -, hsubscribers, hnext⟩ := Scope.write_cases hw
    have hstored : ScopesLater h (h.setScope i s) := later_setScope fun hn => hn.later_same hsubscribers hnext
    exact ((ht.inTurn.between lasting_scopesLater).edit lasting_scopesLater hstored).append lasting_scopesLater ih
  | inform hi _ ih => exact (hi.inTurn.between lasting_scopesLater).append lasting_scopesLater ih

/-- From moment to moment of a session, ids of scopes are given once. -/
theorem session_scopes (depth : Nat) (as : List Action) (start : Host) :
    Moves ScopesLater start (play depth as start []).2 := by
  refine session_moves lasting_scopesLater (fun h => later_of_scopes rfl) (fun t h cs r h' hg => ?_) depth as start
  have hdoes : Does (fun _ => True) t.body := does_body t (fun _ _ => trivial) fun _ _ _ => trivial
  exact (hdoes h cs r h' hg).between

/-- The ids of the observers. -/
def observing (h : Host) : List Nat := h.page.observers.map (·.1)

/-- Whoever observes the page and is not new observed it before. -/
def ObserversLater (h h' : Host) : Prop :=
  h.page.lastObserver ≤ h'.page.lastObserver ∧ ∀ id ∈ h'.observing, id ≤ h.page.lastObserver → id ∈ h.observing

theorem ObserversLater.rfl (h : Host) : ObserversLater h h := ⟨Nat.le_refl _, fun _ hid _ => hid⟩

theorem ObserversLater.trans (hl : ObserversLater h h₁) (hl' : ObserversLater h₁ h') : ObserversLater h h' :=
  ⟨Nat.le_trans hl.1 hl'.1, fun id hid hle => hl.2 id (hl'.2 id hid (Nat.le_trans hle hl.1)) hle⟩

theorem observersLater_same (observers : h'.page.observers = h.page.observers)
    (lastObserver : h'.page.lastObserver = h.page.lastObserver) : ObserversLater h h' := by
  refine ⟨Nat.le_of_eq lastObserver.symm, fun id hid _ => ?_⟩
  rwa [observing, observers] at hid

/-- A new observer goes by a new id. -/
theorem observersLater_observe (o : Observer) (observers : h'.page.observers = (h.page.observe o).2.observers)
    (lastObserver : h'.page.lastObserver = (h.page.observe o).2.lastObserver) : ObserversLater h h' := by
  refine ⟨Nat.le_trans (Nat.le_succ _) (Nat.le_of_eq lastObserver.symm), fun id hid hle => ?_⟩
  rw [observing, observers, Page.observe, List.map_append, List.mem_append] at hid
  rcases hid with hid | hid
  · exact hid
  · cases List.mem_singleton.mp hid
    exact absurd hle (Nat.not_succ_le_self _)

theorem observersLater_disconnect (observers : h'.page.observers = (h.page.disconnect id).2.observers)
    (lastObserver : h'.page.lastObserver = h.page.lastObserver) : ObserversLater h h' := by
  refine ⟨Nat.le_of_eq lastObserver.symm, fun id' hid _ => ?_⟩
  rw [observing, observers] at hid
  exact List.map_subset _ (List.filter_subset_self _) hid

theorem observersLater_stroke (hs : Stroke h h') : ObserversLater h h' := by
  cases hs with
  | aside ha => exact observersLater_same ha.observers ha.lastObserver
  | start | cancel | clock | runtime => exact observersLater_same rfl rfl
  | observe s => exact observersLater_observe (.script s) rfl rfl
  | disconnect hid => exact observersLater_disconnect rfl rfl
  | enrol => exact observersLater_observe _ rfl rfl
  | conclude => exact observersLater_disconnect rfl rfl

theorem lasting_observersLater : Lasting ObserversLater := ⟨.rfl, .trans⟩

theorem lasts_observersLater (h : Host) (tr : History) : Lasts (ObserversLater h) tr where
  stroke hs hl := hl.trans (observersLater_stroke hs)
  ring _ hl := hl.trans (observersLater_same rfl rfl)
  pass _ _ hl := hl.trans (observersLater_same rfl rfl)

theorem Chained.moves (hc : Chained start tr) : Moves ObserversLater start tr := by
  induction tr with
  | nil => trivial
  | cons m tr ih => exact ⟨(lasts_observersLater _ tr).leads hc.1 (.rfl _), ih hc.2⟩

/-! ## Turns -/

/-- The observer that is called, and what it is told of. -/
def Call.informed? : Call → Option (Observer × List NodeId)
  | ⟨.observe o ns, _, _, _⟩ => some (o, ns)
  | _ => none

/-- A round calls all who stand in a list, one after the other, and this is the turn of `x`:
    the round began in `h₁`, which `before` led to, and those who stand before `x` have
    come back. -/
def Turn (who : List σ) (call? : Call → Option τ) (say : σ → τ) (x : σ) (h₁ : Host) (before : History) (h : Host)
    (earlier : History) : Prop :=
  ∃ inner round told rest, earlier = inner ++ before ∧ Spans round inner ∧ InTurn h₁ round h ∧
    who = told ++ x :: rest ∧ round.map call? = told.map fun x => some (say x)

theorem Spans.split (hs : Spans cs tr) (hc : cs = cs₁ ++ cs₂) :
    ∃ inner earlier, tr = inner ++ earlier ∧ Spans cs₂ inner ∧ Spans cs₁ earlier := by
  induction hs generalizing cs₂ with
  | nil =>
    obtain ⟨rfl, rfl⟩ := List.append_eq_nil_iff.mp hc.symm
    exact ⟨[], [], rfl, .nil, .nil⟩
  | @snoc cs _ _ c hs hn ih =>
    rcases List.eq_nil_or_concat cs₂ with rfl | ⟨cs', c', rfl⟩
    · rw [List.append_nil] at hc
      exact ⟨[], _, rfl, .nil, hc ▸ .snoc c hs hn⟩
    · rw [List.concat_eq_append, ← List.append_assoc] at hc
      obtain ⟨rfl, hlast⟩ := List.append_inj' hc rfl
      cases hlast
      obtain ⟨inner, earlier, rfl, hinner, hearlier⟩ := ih rfl
      have hmore := Spans.snoc c hinner hn
      rw [← List.concat_eq_append] at hmore
      exact ⟨_, earlier, by simp, hmore, hearlier⟩

/-- The calls of a round, or else the one whose turn it is, begin where the round does. -/
theorem Spans.starts {t : Task κ} {round : List Call} {inner : History} (hs : Spans round inner) (ht : InTurn h₁ round h) :
    ∃ (later : History) (κ' : Kind) (t' : Task κ'), .begins t h :: inner = later ++ [.begins t' h₁] := by
  induction hs generalizing κ t h with
  | nil =>
    cases ht
    exact ⟨[], κ, t, rfl⟩
  | @snoc cs earlier inner c _ _ ih =>
    obtain ⟨later, κ', t', e⟩ := ih (t := c.task) ht.until
    refine ⟨.begins t h :: .ends c.task c.result c.after :: (inner ++ later), κ', t', ?_⟩
    rw [e]
    simp

/-- The call is part of a round, after other calls of it. -/
inductive InRound (round : List Call) (c : Call) : Prop
  | write {i : Nat} {path : List String} {v : Value} {s : Scope Watcher} {change : Option Change} {h h' : Host}
    {rest : List Call} : (h.scope i).write path v = .ok (s, change) → Announced i s change h (round ++ c :: rest) h' →
    InRound round c
  | inform {ns : List NodeId} {h h' : Host} {rest : List Call} :
    Informs ns h.page.observers h (round ++ c :: rest) h' → InRound round c

theorem Doings.round (hd : Doings C h cs h') (hC : ∀ c, C c → ¬c.task.Rounded) (he : cs = cs₁ ++ c :: cs₂)
    (hc : c.task.Rounded) : ∃ others round, cs₁ = others ++ round ∧ InRound round c := by
  induction hd generalizing cs₁ with
  | done => simp at he
  | edit _ _ ih => exact ih he
  | @call c' cs _ hc' _ ih =>
    rcases List.cons_eq_append_iff.mp he with ⟨-, heq⟩ | ⟨cs₃, rfl, heq⟩
    · cases heq
      exact absurd hc (hC _ hc')
    · obtain ⟨others, round, rfl, hr⟩ := ih heq
      exact ⟨c' :: others, round, rfl, hr⟩
  | write hw ht _ ih =>
    rcases split_append he with ⟨cs₃, rfl⟩ | ⟨cs₃, rfl, heq⟩
    · exact ⟨[], cs₁, rfl, .write hw ht⟩
    · obtain ⟨others, round, rfl, hr⟩ := ih heq
      exact ⟨_ ++ others, round, (List.append_assoc _ _ _).symm, hr⟩
  | inform hi _ ih =>
    rcases split_append he with ⟨cs₃, rfl⟩ | ⟨cs₃, rfl, heq⟩
    · exact ⟨[], cs₁, rfl, .inform hi⟩
    · obtain ⟨others, round, rfl, hr⟩ := ih heq
      exact ⟨_ ++ others, round, (List.append_assoc _ _ _).symm, hr⟩

/-- Subscribers and observers are called in rounds only. -/
theorem does_rounds (t : Task κ) : Does (fun c => ¬c.task.Rounded) t.body := by
  refine does_body t ?_ fun _ _ => id
  rintro ⟨t, _, _, _⟩
  cases t <;> exact fun hs hr => by first | exact hs | exact hr

/-- Where the history has the rounds of those that are called in rounds. -/
theorem inRound_of_placed {t : Task κ} (hp : (Moment.begins t h).Placed tr) (ht : t.Rounded) (r : κ.Carrier) :
    ∃ inner before round, tr = inner ++ before ∧ Spans round inner ∧ InRound round ⟨t, h, r, h⟩ := by
  have hno : ¬t.IsAct := by
    cases t with
    | act => exact fun _ => ht
    | _ => exact id
  obtain ⟨κ₀, t₀, h₀, cs, inner, before, rfl, hs, hmakes⟩ := hp.resolve_left hno
  obtain ⟨rest, a, h', hg⟩ := hmakes r h
  obtain ⟨others, round, rfl, hr⟩ := (does_rounds t₀ _ _ _ _ hg).round (fun _ => id) rfl ht
  obtain ⟨inner, earlier, rfl, hinner, -⟩ := hs.split rfl
  exact ⟨inner, earlier ++ .begins t₀ h₀ :: before, round, List.append_assoc _ _ _, hinner, hr⟩

/-- Those who stand before the one whose turn it is were called before it. -/
theorem split_polled (call? : Call → Option τ) (say : σ → τ) {who : List σ} {round rest : List Call}
    (hmap : (round ++ c :: rest).map call? = who.map fun x => some (say x)) :
    ∃ told x others, who = told ++ x :: others ∧ call? c = some (say x) ∧
      round.map call? = told.map fun x => some (say x) := by
  rw [List.map_append, List.map_cons] at hmap
  obtain ⟨told, others, rfl, htold, hothers⟩ := List.map_eq_append_iff.mp hmap.symm
  obtain ⟨x, others, rfl, hx, -⟩ := List.map_eq_cons_iff.mp hothers
  exact ⟨told, x, others, rfl, hx.symm, htold.symm⟩

/-- Only a scope that there is has subscribers. -/
theorem lt_of_subscriber {x : Nat × Watcher} (hx : x ∈ (h.scope i).subscribers) : i < h.scopes.length := by
  by_contra hge
  rw [scope, List.getElem?_eq_none (Nat.le_of_not_lt hge)] at hx
  cases hx

theorem Announced.turn {s : Scope Watcher} {change : Option Change} {round rest : List Call}
    (ha : Announced i s change h (round ++ c :: rest) h') (hs : s.subscribers = (h.scope i).subscribers) :
    ∃ ch told x others, c.told? = some (x.2, ch) ∧ ((h.setScope i s).scope i).subscribers = told ++ x :: others ∧
      round.map Call.told? = told.map fun x => some (x.2, ch) := by
  have htold := ha.told
  cases change with
  | none => simp at htold
  | some ch =>
    rw [Option.toList_some, List.flatMap_singleton] at htold
    obtain ⟨told, x, others, hwho, hx, hround⟩ := split_polled Call.told? (fun x : Nat × Watcher => (x.2, ch)) htold
    have hi : i < h.scopes.length := lt_of_subscriber (hwho ▸ List.mem_append_right _ List.mem_cons_self)
    refine ⟨ch, told, x, others, hx, ?_, hround⟩
    rw [scope_setScope hi, hs, hwho]

theorem Informs.each {ns : List NodeId} {os : List (Nat × Observer)} (hi : Informs ns os h cs h') :
    cs.map Call.informed? = os.map fun x => some (x.2, ns) := by
  induction hi with
  | nil => rfl
  | cons _ ih => exact congrArg (some _ :: ·) ih

theorem turn_of_watch {w : Watcher} {change : Change} (hp : (Moment.begins (.watch w change) h).Placed tr) :
    ∃ i id h₁ before, Turn (h₁.scope i).subscribers Call.told? (fun x => (x.2, change)) (id, w) h₁ before h tr := by
  obtain ⟨inner, before, round, htr, hs, hr⟩ := inRound_of_placed hp trivial ()
  cases hr with
  | @write i _ _ s _ h₀ _ _ hw ha =>
    obtain ⟨-, -, hsubscribers, -⟩ := Scope.write_cases hw
    obtain ⟨ch, told, ⟨id, w'⟩, others, hx, hwho, hround⟩ := ha.turn hsubscribers
    cases hx
    exact ⟨i, id, h₀.setScope i s, before, inner, round, told, others, htr, hs, ha.inTurn.until, hwho, hround⟩
  | inform hi =>
    obtain ⟨_, _, _, -, hx, -⟩ := split_polled Call.informed? _ hi.each
    cases hx

theorem turn_of_observe {o : Observer} {ns : List NodeId} (hp : (Moment.begins (.observe o ns) h).Placed tr) :
    ∃ id h₁ before, Turn h₁.page.observers Call.informed? (fun x => (x.2, ns)) (id, o) h₁ before h tr := by
  obtain ⟨inner, before, round, htr, hs, hr⟩ := inRound_of_placed hp trivial ()
  cases hr with
  | write hw ha =>
    obtain ⟨-, -, hsubscribers, -⟩ := Scope.write_cases hw
    obtain ⟨_, _, _, _, hx, -⟩ := ha.turn hsubscribers
    cases hx
  | @inform _ h₁ _ _ hi =>
    obtain ⟨told, ⟨id, o'⟩, others, hwho, hx, hround⟩ := split_polled Call.informed? _ hi.each
    cases hx
    exact ⟨id, h₁, before, inner, round, told, others, htr, hs, hi.inTurn.until, hwho, hround⟩

theorem Turn.stands {who : List σ} {call? : Call → Option τ} {say : σ → τ} {x : σ}
    (ht : Turn who call? say x h₁ before h earlier) : x ∈ who := by
  obtain ⟨_, _, told, rest, -, -, -, rfl, -⟩ := ht
  exact List.mem_append_right _ List.mem_cons_self

theorem Turn.suffix {who : List σ} {call? : Call → Option τ} {say : σ → τ} {x : σ}
    (ht : Turn who call? say x h₁ before h earlier) : before <:+ earlier := by
  obtain ⟨inner, _, _, _, rfl, -⟩ := ht
  exact List.suffix_append inner before

/-- What has changed since the moments before a round, when it begins. -/
theorem Turn.since {who : List σ} {call? : Call → Option τ} {say : σ → τ} {x : σ} {t : Task κ} {later : History}
    (ht : Turn who call? say x h₁ before h earlier) (hR : Lasting R)
    (hm : Moves R start (later ++ .begins t h :: earlier)) : ∀ m ∈ before, R m.host h₁ := by
  obtain ⟨inner, round, -, -, rfl, hs, hturn, -, -⟩ := ht
  obtain ⟨later', κ', t', e⟩ := hs.starts (t := t) hturn
  have hbegun : Moves R start (.begins t' h₁ :: before) := by
    have hdrop := hm.drop
    rw [← List.cons_append, e, List.append_assoc] at hdrop
    exact hdrop.drop
  exact fun m hmem => hR.trans (hbegun.2.since hR m hmem) hbegun.1

/-! ## Cancellations -/

theorem gone_of_filter {xs : List (Nat × σ)} : id ∉ (xs.filter (·.1 != id)).map (·.1) := by
  intro hid
  obtain ⟨x, hx, e⟩ := List.mem_map.mp hid
  exact bne_iff_ne.mp (List.mem_filter.mp hx).2 e

theorem Placed.at {m : Moment} (hp : Placed tr) (hm : m ∈ tr) : ∃ tr', m.Placed tr' ∧ tr' ⊆ tr := by
  obtain ⟨later, tr', rfl⟩ := List.append_of_mem hm
  exact ⟨tr', hp.drop.1, fun _ hm' => List.mem_append_right _ (List.mem_cons_of_mem _ hm')⟩

theorem unsubscribed_of_placed (hp : (Moment.ends (.act (.unsubscribe sub)) (.flag true) h).Placed tr)
    (hsub : h.subscriptions[sub]? = some (i, id)) :
    ∃ h₀, .begins (.act (.unsubscribe sub)) h₀ ∈ tr ∧ id ∈ (h₀.scope i).ids ∧ id ∉ (h.scope i).ids ∧
      (h.scope i).nextId = (h₀.scope i).nextId := by
  obtain ⟨h₀, cs, inner, before, rfl, -, -, hflag, hh⟩ := hp
  refine ⟨h₀, List.mem_append_right _ List.mem_cons_self, ?_⟩
  cases hsub₀ : h₀.subscriptions[sub]? with
  | none =>
    rw [hsub₀] at hflag
    cases hflag
  | some x =>
    rw [hsub₀] at hflag hh
    subst hh
    obtain rfl : x = (i, id) := Option.some.inj (hsub₀.symm.trans hsub)
    obtain ⟨y, hy, hid⟩ := List.any_eq_true.mp (Answer.flag.inj hflag).symm
    obtain rfl : y.1 = id := eq_of_beq hid
    rw [scope_setScope (lt_of_subscriber hy)]
    exact ⟨List.mem_map_of_mem hy, gone_of_filter, rfl⟩

theorem disconnected_of_placed (hp : (Moment.ends (.act (.disconnect k)) (.flag true) h).Placed tr)
    (hk : h.observers[k]? = some id) :
    ∃ h₀, .begins (.act (.disconnect k)) h₀ ∈ tr ∧ id ∈ h₀.observing ∧ id ∉ h.observing ∧
      h.page.lastObserver = h₀.page.lastObserver := by
  obtain ⟨h₀, cs, inner, before, rfl, -, -, hflag, hh⟩ := hp
  refine ⟨h₀, List.mem_append_right _ List.mem_cons_self, ?_⟩
  cases hk₀ : h₀.observers[k]? with
  | none =>
    rw [hk₀] at hflag
    cases hflag
  | some x =>
    rw [hk₀] at hflag hh
    subst hh
    obtain rfl : x = id := Option.some.inj (hk₀.symm.trans hk)
    obtain ⟨y, hy, hid⟩ := List.any_eq_true.mp (Answer.flag.inj hflag).symm
    obtain rfl : y.1 = x := eq_of_beq hid
    exact ⟨List.mem_map_of_mem hy, gone_of_filter, rfl⟩

/-- Whoever stood in a scope's list at every moment since it got its id was not unsubscribed. -/
theorem not_unsubscribed (hp : Placed before) (hn : ∀ m ∈ before, (m.host.scope i).Numbered)
    (hstood : ∀ m ∈ before, id < (m.host.scope i).nextId → id ∈ (m.host.scope i).ids)
    (hend : .ends (.act (.unsubscribe sub)) (.flag true) h ∈ before) : h.subscriptions[sub]? ≠ some (i, id) := by
  intro hsub
  obtain ⟨tr, hplaced, hsubset⟩ := hp.at hend
  obtain ⟨h₀, hbegan, hin, hout, hnext⟩ := unsubscribed_of_placed hplaced hsub
  have hissued : id < (h₀.scope i).nextId := (hn _ (hsubset hbegan)).issued id hin
  exact hout (hstood _ hend (hnext ▸ hissued))

/-- Whoever observed the page at every moment since it got its id was not disconnected. -/
theorem not_disconnected (hp : Placed before) (hw : ∀ m ∈ before, Watched m.host)
    (hstood : ∀ m ∈ before, id ≤ m.host.page.lastObserver → id ∈ m.host.observing)
    (hend : .ends (.act (.disconnect k)) (.flag true) h ∈ before) : h.observers[k]? ≠ some id := by
  intro hk
  obtain ⟨tr, hplaced, hsubset⟩ := hp.at hend
  obtain ⟨h₀, hbegan, hin, hout, hlast⟩ := disconnected_of_placed hplaced hk
  obtain ⟨x, hx, rfl⟩ := List.mem_map.mp hin
  have hissued : x.1 ≤ h₀.page.lastObserver := (hw _ (hsubset hbegan)).issued x hx
  exact hout (hstood _ hend (hlast ▸ hissued))

/-! ## Sessions -/

/-- Whoever is called in a session, subscriber or removal observer, is called in a round. The
    round calls those who stood in the list when it began, in order. Whoever is called stood
    there at every moment before the round, from the one at which it got its id. So it was
    not cancelled before; but it may have been while the round went on. For a task that has
    come back has called all who stood when its rounds began, whatever they did meanwhile. -/
theorem session_called (depth : Nat) (as : List Action) (url : String) (globals : Globals) (scopes : List Value) :
    (∀ later earlier w change h,
      (play depth as (.new url globals scopes) []).2 = later ++ .begins (.watch w change) h :: earlier →
      ∃ i id h₁ before, Turn (h₁.scope i).subscribers Call.told? (fun x => (x.2, change)) (id, w) h₁ before h earlier ∧
        (∀ m ∈ before, id < (m.host.scope i).nextId → id ∈ (m.host.scope i).ids) ∧
        ∀ sub h₀, .ends (.act (.unsubscribe sub)) (.flag true) h₀ ∈ before → h₀.subscriptions[sub]? ≠ some (i, id)) ∧
    (∀ later earlier o ns h,
      (play depth as (.new url globals scopes) []).2 = later ++ .begins (.observe o ns) h :: earlier →
      ∃ id h₁ before, Turn h₁.page.observers Call.informed? (fun x => (x.2, ns)) (id, o) h₁ before h earlier ∧
        (∀ m ∈ before, id ≤ m.host.page.lastObserver → id ∈ m.host.observing) ∧
        ∀ k h₀, .ends (.act (.disconnect k)) (.flag true) h₀ ∈ before → h₀.observers[k]? ≠ some id) ∧
    ∀ later earlier (κ : Kind) (t : Task κ) r h',
      (play depth as (.new url globals scopes) []).2 = later ++ .ends t r h' :: earlier →
      ∃ h cs inner before, earlier = inner ++ .begins t h :: before ∧ Spans cs inner ∧
        Doings (fun c => ¬c.task.Rounded) h cs h' := by
  have hplaced := session_placed depth as (.new url globals scopes)
  refine ⟨?_, ?_, ?_⟩
  · intro later earlier w change h e
    have hmoves := session_scopes depth as (.new url globals scopes)
    rw [e] at hplaced hmoves
    obtain ⟨i, id, h₁, before, ht⟩ := turn_of_watch hplaced.drop.1
    obtain ⟨inner, rfl⟩ := ht.suffix
    have hnumbered : ∀ m ∈ before, (m.host.scope i).Numbered := fun m hm =>
      (hmoves.host lasting_scopesLater m (by simp [hm]) i (numbered_new url globals scopes i)).numbered
    have hstood : ∀ m ∈ before, id < (m.host.scope i).nextId → id ∈ (m.host.scope i).ids := fun m hm =>
      (ht.since lasting_scopesLater hmoves m hm i (hnumbered m hm)).stood id (List.mem_map_of_mem ht.stands)
    exact ⟨i, id, h₁, before, ht, hstood, fun _ _ hend => not_unsubscribed hplaced.drop.2.drop hnumbered hstood hend⟩
  · intro later earlier o ns h e
    have hmoves := (session_chained depth as (.new url globals scopes)).moves
    have hwatched := session_watched depth as url globals scopes
    rw [e] at hplaced hmoves hwatched
    obtain ⟨id, h₁, before, ht⟩ := turn_of_observe hplaced.drop.1
    obtain ⟨inner, rfl⟩ := ht.suffix
    have hstood : ∀ m ∈ before, id ≤ m.host.page.lastObserver → id ∈ m.host.observing := fun m hm =>
      (ht.since lasting_observersLater hmoves m hm).2 id (List.mem_map_of_mem ht.stands)
    have hwatched' : ∀ m ∈ before, Watched m.host := fun m hm => hwatched m (by simp [hm])
    exact ⟨id, h₁, before, ht, hstood, fun _ _ hend => not_disconnected hplaced.drop.2.drop hwatched' hstood hend⟩
  · intro later earlier κ t r h' e
    rw [e] at hplaced
    obtain ⟨h, cs, inner, before, heq, hs, hg⟩ := hplaced.drop.1
    exact ⟨h, cs, inner, before, heq, hs, does_rounds t h cs r h' hg⟩

/-- Two subscribers and two removal observers, of which the first cancels the second. -/
def rivalry : List Action :=
  [.subscribe 0 none (.mk "first" [.unsubscribe 1]), .subscribe 0 none (.mk "second" []),
    .observe (.mk "first" [.disconnect 1]), .observe (.mk "second" [])]

/-- The host that they stand in. -/
def rivals : Host :=
  let start := Host.new "" .browser [.object [("a", .text "x")]]
  (play 1 rivalry start []).1.getD start

def Moment.isWatch : Moment → Bool
  | .begins (.watch ..) _ => true
  | _ => false

/-- A write calls subscribers in their turns. -/
theorem rivals_called : ∃ later w change h earlier i id h₁ before,
    (play 4 (rivalry ++ [.set 0 "a" (.text "y")]) (.new "" .browser [.object [("a", .text "x")]]) []).2 =
      later ++ .begins (.watch w change) h :: earlier ∧
    Turn (h₁.scope i).subscribers Call.told? (fun x => (x.2, change)) (id, w) h₁ before h earlier := by
  have hany : (play 4 (rivalry ++ [.set 0 "a" (.text "y")]) (.new "" .browser [.object [("a", .text "x")]]) []).2.any
      Moment.isWatch = true := by decide +kernel
  obtain ⟨m, hm, hwatch⟩ := List.any_eq_true.mp hany
  obtain ⟨later, earlier, e⟩ := List.append_of_mem hm
  unfold Moment.isWatch at hwatch
  split at hwatch
  · rename_i w change h
    obtain ⟨i, id, h₁, before, ht, -⟩ := (session_called _ _ _ _ _).1 later earlier w change h e
    exact ⟨later, w, change, h, earlier, i, id, h₁, before, e, ht⟩
  · cases hwatch

/-- The second of each is called after it was cancelled. -/
theorem cancelled_in_round :
    (∃ h' change, (perform (.set 0 "a" (.text "y"))).run 4 rivals = some (.count 1, h') ∧
      h'.log.reverse = [.change "first" change, .did (.unsubscribe 1) (.flag true), .change "second" change]) ∧
    ∃ h' ns, (perform (.removeNode 3)).run 4 rivals = some (.done, h') ∧
      h'.log.reverse = [.removed "first" ns, .did (.disconnect 1) (.flag true), .removed "second" ns] :=
  ⟨⟨_, _, rfl, rfl⟩, _, _, rfl, rfl⟩

end Eventful.Host
