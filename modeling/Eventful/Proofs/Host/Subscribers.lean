import Eventful.Proofs.Host.Notices

/-
  Eventful.Proofs.Host.Subscribers — what the subscribers of a scope see of it.

  The writes of a cascade are what became of the data of its scope (`Unfolds.applied`). So
  the last change that a subscriber was told of a path is what the scope holds there, if
  no keys were written later that the path leads to or on from, and if it was not
  overtaken: if nobody who stands before the subscriber wrote to the path again while it
  was told of that very change.

  - `session_notices`: what a subscriber is told in a session, in which order, and what
    the scope holds then;
  - `write_back_overtakes`: a subscriber that is told last of a value that the scope does not
    hold any more.
-/

namespace Eventful.Host

open Page Binding

variable {α : Type} {i k : Nat} {h h' : Host} {c : Cascade} {w x y : Written} {ws ws' : List Written}
  {d d' : Fields} {ch : Change}

/-! ## What the scope holds -/

/-- The writes make the one data of the other, one after the other. -/
def Applied : List Written → Fields → Fields → Prop
  | [], d, d' => d' = d
  | w :: ws, d, d' =>
    ∃ s s' : Scope Watcher, s.data = d ∧ s.write w.keys w.value = .ok (s', w.change) ∧ Applied ws s'.data d'

theorem applied_append : Applied (ws ++ ws') d d' ↔ ∃ d₁, Applied ws d d₁ ∧ Applied ws' d₁ d' := by
  induction ws generalizing d with
  | nil =>
    constructor
    · intro ha
      exact ⟨d, rfl, ha⟩
    · rintro ⟨_, rfl, ha⟩
      exact ha
  | cons w ws ih =>
    constructor
    · rintro ⟨s, s', hs, hw, ha⟩
      obtain ⟨d₁, ha₁, ha₂⟩ := ih.mp ha
      exact ⟨d₁, ⟨s, s', hs, hw, ha₁⟩, ha₂⟩
    · rintro ⟨d₁, ⟨s, s', hs, hw, ha₁⟩, ha₂⟩
      exact ⟨s, s', hs, hw, ih.mpr ⟨d₁, ha₁, ha₂⟩⟩

theorem Unfolds.applied {j : Job α} {a : α} (hu : Unfolds i j h a h' c) (hi : i < h.scopes.length) :
    Applied c.written (h.scope i).data (h'.scope i).data := by
  induction hu with
  | set hs => exact (hs.amends hi).data.1
  | bind hu _ ih ih' =>
    rw [Cascade.written_append]
    exact applied_append.mpr ⟨_, ih hi, ih' (Nat.lt_of_lt_of_le hi hu.length_le)⟩
  | call _ ih => exact ih hi
  | @write _ _ s _ h _ c hw _ ih =>
    rw [scope_setScope hi] at ih
    simp only [Cascade.written, List.append_nil]
    exact ⟨h.scope i, s, rfl, hw, ih (Nat.lt_of_lt_of_eq hi length_setScope.symm)⟩
  | tell _ hu _ ih ih' => exact applied_append.mpr ⟨_, ih hi, ih' (Nat.lt_of_lt_of_le hi hu.length_le)⟩
  | act hu _ ih ih' =>
    rw [Cascade.written_append]
    exact applied_append.mpr ⟨_, ih hi, ih' (Nat.lt_of_lt_of_le hi hu.length_le)⟩
  | _ => exact rfl

/-- A change is told under the dotted path of its keys. -/
theorem Applied.told (ha : Applied ws d d') (hw : w ∈ ws) (hch : w.change = some ch) :
    ch.path = ".".intercalate w.keys := by
  induction ws generalizing d with
  | nil => cases hw
  | cons x ws ih =>
    obtain ⟨s, s', -, hx, ha⟩ := ha
    rcases List.mem_cons.mp hw with rfl | hw
    · rw [hch] at hx
      exact (Scope.change_of_write hx).1
    · exact ih ha hw

/-- What lies behind keys agrees with what lay there, if other writes go to keys apart. -/
theorem Applied.agrees {p : List String} (ha : Applied ws d d')
    (hp : ∀ x ∈ ws, x.keys = p ∧ x.change = none ∨ Scope.Apart p x.keys) :
    (Scope.follow p (.object d)).Agrees (Scope.follow p (.object d')) := by
  induction ws generalizing d with
  | nil =>
    cases ha
    exact .inl rfl
  | cons x ws ih =>
    obtain ⟨s, s', rfl, hx, ha⟩ := ha
    obtain ⟨hfirst, hrest⟩ := List.forall_mem_cons.mp hp
    exact (Scope.agrees_of_write hx hfirst).trans (ih ha hrest)

/-- The last change behind keys is what lies there. -/
theorem Applied.holds (ha : Applied (w :: ws) d d') (hch : w.change = some ch)
    (hp : ∀ x ∈ ws, x.keys = w.keys ∧ x.change = none ∨ Scope.Apart w.keys x.keys) :
    ch.new.Agrees (Scope.follow w.keys (.object d')) := by
  obtain ⟨s, s', -, hw, ha⟩ := ha
  rw [hch] at hw
  obtain ⟨-, hnew, hnow⟩ := Scope.change_of_write hw
  rw [hnew, ← hnow]
  exact ha.agrees hp

/-! ## Who is told in order -/

/-- The write changed something under the dotted path. -/
def Written.changes (w : Written) (path : String) : Bool := w.change.any (·.path == path)

theorem Cascade.Orderly.applied_in_order {lo hi : Nat} {due : List (Nat × Written)} (ho : c.Orderly lo hi due k) :
    c.changes.Pairwise (·.version < ·.version) := by
  have hv := List.pairwise_lt_range' (s := lo + 1) (n := hi - lo) 1
  rw [← ho.numbers, List.pairwise_map] at hv
  exact hv

/-- If nobody who stands before it writes, a subscriber is told of the changes as they are applied. -/
theorem Cascade.Orderly.received_eq {lo hi : Nat} (ho : c.Orderly lo hi [] k) (hp : (c.received k).Perm c.changes)
    (hnone : ∀ id < k, ∀ s t, ¬c.Within id s t) : c.received k = c.changes := by
  have hsorted : (c.received k).Pairwise (·.version < ·.version) := by
    refine ho.ordered.imp ?_
    rintro x y (⟨id, hid, hin⟩ | ⟨hlt, -⟩)
    · exact absurd hin (hnone id hid y x)
    · exact hlt
  refine hp.eq_of_pairwise ?_ hsorted ho.applied_in_order
  intro x y _ _ hlt hgt
  exact absurd hlt (Nat.lt_asymm hgt)

/-- The last change that a subscriber was told of a path is the last one of that path, if
    it was not overtaken. -/
theorem Cascade.Orderly.last_told {lo hi : Nat} {earlier later : List Written} (ho : c.Orderly lo hi [] k)
    (hp : (c.received k).Perm c.changes) (hch : w.change = some ch)
    (hlast : ((c.received k).filter (·.changes ch.path)).getLast? = some w)
    (hnot : ∀ x ∈ c.changes, x.changes ch.path = true → ¬c.Overtakes k x w) (hsplit : c.written = earlier ++ w :: later) :
    ∀ x ∈ later, x.changes ch.path = false := by
  intro x hx
  by_contra hpath
  replace hpath : x.changes ch.path = true := Bool.not_eq_false _ ▸ hpath
  have hsome : x.change.isSome = true := by
    cases hc : x.change with
    | none => simp [Written.changes, hc] at hpath
    | some _ => rfl
  have hmem : x ∈ c.changes := List.mem_filter.mpr ⟨by rw [hsplit]; simp [hx], hsome⟩
  have hlt : w.version < x.version := by
    have hv := ho.applied_in_order
    rw [Cascade.changes, hsplit, List.filter_append, List.filter_cons_of_pos (by rw [hch]; rfl)] at hv
    exact (List.pairwise_cons.mp (List.pairwise_append.mp hv).2.1).1 x (List.mem_filter.mpr ⟨hx, hsome⟩)
  -- It was told of `x` as well, and of `w` after that.
  obtain ⟨before, hbefore⟩ := List.getLast?_eq_some_iff.mp hlast
  have hreceived : x ∈ before ++ [w] := by
    rw [← hbefore]
    exact List.mem_filter.mpr ⟨hp.mem_iff.mpr hmem, hpath⟩
  have hordered := ho.ordered.filter (·.changes ch.path)
  rw [hbefore, List.pairwise_append] at hordered
  rcases List.mem_append.mp hreceived with hx | hx
  · rcases hordered.2.2 x hx w List.mem_cons_self with hover | ⟨hgt, -⟩
    · exact hnot x hmem hpath hover
    · omega
  · rw [List.mem_singleton.mp hx] at hlt
    exact absurd hlt (Nat.lt_irrefl _)

/-! ## Subscribers that write

  How the cascade of a given run is put together: a script that sets a name of a scope
  unfolds as its writes do.
-/

theorem unfolds_set {name : String} {v : Value} {r : Except Blocked Unit}
    (hu : Unfolds i (.proc (write i [name] v)) h r h' c) :
    Unfolds i (.proc (Task.act (.set i name v)).body) h (.count (h'.scope i).version) h' c := by
  have hanswer : Unfolds i (.proc (answer fun h => .count (h.scope i).version)) h' _ h' .idle := unfolds_get (.pure _ h')
  have hboth := hu.bind (f := fun _ => answer fun h => .count (h.scope i).version) hanswer
  rwa [Cascade.append_idle] at hboth

/-- A script of one action that a subscriber does when it is told. -/
theorem unfolds_watch {l : String} {a : Action} {r : Answer}
    (hu : Unfolds i (.proc (Task.act a).body) (h.note (.change l ch)) r h' c) :
    Unfolds i (.proc (Task.watch ⟨none, .mk l [a]⟩ ch).body) h () (h'.note (.did a r)) c := by
  have hlast : Unfolds i (.proc (do modify (·.note (.did a r)); runActions none [])) h' none (h'.note (.did a r)) .idle :=
    unfolds_modify (unwritten_of_scopes rfl) (.pure none _)
  have hanswer := hu.call.bind (f := fun r => pure (none, r)) (.pure ((none : Option Event), r) h')
  have hactions := hanswer.bind (f := fun (x : Option Event × Answer) => do modify (·.note (.did a x.2)); runActions x.1 []) hlast
  have hscript := hactions.bind (f := fun _ => pure ()) (.pure () _)
  simp only [Cascade.append_idle] at hscript
  exact unfolds_modify (k := fun _ => runScript (.mk l [a])) (unwritten_of_scopes rfl) hscript

/-- The subscribers: one that answers every change by setting the name, and one that only
    notes what it is told. -/
def echo (name : String) : Watcher := ⟨none, .mk "echo" [.set 0 name (.text "z")]⟩

def listener : Watcher := ⟨none, .mk "show" []⟩

/-- A session in which they subscribe. -/
def echoing (name : String) : List Action := [.subscribe 0 none (echo name).script, .subscribe 0 none listener.script]

/-- The host it comes back in. -/
def echoed (name : String) : Host :=
  (play 1 (echoing name) (.new "" .browser [.object [("a", .text "x"), ("b", .text "x")]]) []).1.getD (.new "" .browser [])

/-- The scope of it after a few versions. -/
def echoedScope (name a b : String) (version : Nat) : Scope Watcher :=
  ⟨[("a", .text a), ("b", .text b)], version, [(1, echo name), (2, listener)], 3⟩

/-- A round of theirs: the listener is told after all that the other one's write set off. -/
theorem unfolds_echo {name : String} (hch : w.change = some ch)
    (hu : Unfolds 0 (.proc (write 0 [name] (.text "z"))) (h.note (.change "echo" ch)) (.ok ()) h' c) :
    Unfolds 0 (.round w [(1, echo name), (2, listener)]) h ()
      ((h'.note (.did (.set 0 name (.text "z")) (.count (h'.scope 0).version))).note (.change "show" ch))
      (.tell 1 w c (.tell 2 w .idle .idle)) := by
  have hlistener : ∀ h₁ : Host, Unfolds 0 (.proc (Task.watch listener ch).body) h₁ () (h₁.note (.change "show" ch)) .idle :=
    fun h₁ => unfolds_modify (k := fun _ => runScript (.mk "show" [])) (unwritten_of_scopes rfl)
      ((Unfolds.pure none _).bind (f := fun _ => pure ()) (.pure _ _))
  exact .tell hch (unfolds_watch (unfolds_set hu)) (.tell hch (hlistener _) (.told w _))

/-- The write that sets the cascade off, and what the other one makes of it. -/
def firstWrite : Written := ⟨["a"], .text "y", some ⟨"a", .text "x", .text "y"⟩, 1⟩

def answerWrite (name old : String) : Written := ⟨[name], .text "z", some ⟨name, .text old, .text "z"⟩, 2⟩

/-- The other one answers the write, and its own answer, which changes nothing any more. -/
def echoes (name old : String) : Cascade :=
  .write firstWrite
    (.tell 1 firstWrite
      (.write (answerWrite name old)
        (.tell 1 (answerWrite name old) (.write ⟨[name], .text "z", none, 2⟩ .idle .idle)
          (.tell 2 (answerWrite name old) .idle .idle))
        .idle)
      (.tell 2 firstWrite .idle .idle))
    .idle

/-! ## In a session -/

theorem Unfolds.numbered {j : Job α} {a : α} (hu : Unfolds i j h a h' c) (hn : ∀ n, (h.scope n).Numbered) :
    ∀ n, (h'.scope n).Numbered := by
  induction hu with
  | set hs => exact fun n => hs.numbered n (hn n)
  | bind _ _ ih ih' => exact ih' (ih hn)
  | call _ ih => exact ih hn
  | write hw _ ih =>
    obtain ⟨-, -, hsubscribers, hnext⟩ := Scope.write_cases hw
    exact ih fun n => numbered_setScope (fun hn => (hn.later_same hsubscribers hnext).numbered) (hn n)
  | tell _ _ _ ih ih' => exact ih' (ih hn)
  | act _ _ ih ih' => exact ih' (ih hn)
  | _ => exact hn

theorem numbered_new (url : String) (globals : Globals) (scopes : List Value) (n : Nat) :
    ((new url globals scopes).scope n).Numbered := by
  simp only [scope, new, List.getElem?_map]
  cases scopes[n]? <;> exact Scope.numbered_ofValue _

theorem session_numbered {depth : Nat} {as : List Action} {url : String} {globals : Globals} {scopes : List Value}
    (e : (play depth as (.new url globals scopes) []).1 = some h) (n : Nat) : (h.scope n).Numbered := by
  obtain ⟨c, hc⟩ := session_unfolds 0 e
  exact hc.numbered (numbered_new url globals scopes) n

/-- A session that goes on from where another one came back. A subscriber of a scope that
    stands from its beginning to its end is told of every change once. It is told of them in
    the order in which they were applied, but of a change that was made while somebody who
    stands before it was told of another, before that other one; so in order, if nobody
    before it writes. The last change that it was told of a path is what the scope holds
    there, if that change was not overtaken by another one of the path, and if later writes
    went to the same keys or to keys apart from them. -/
theorem session_notices (depth depth' : Nat) (before as : List Action) (url : String) (globals : Globals)
    (scopes : List Value) (h h' : Host) (tr : History) (i k : Nat)
    (hbefore : (play depth before (.new url globals scopes) []).1 = some h) (has : (play depth' as h tr).1 = some h')
    (hi : i < h.scopes.length) (hk : k ∈ (h.scope i).ids) (hk' : k ∈ (h'.scope i).ids) :
    (∃ c, Unfolds i (.session as) h () h' c) ∧
    ∀ c, Unfolds i (.session as) h () h' c →
      c.changes.map (·.version) =
        List.range' ((h.scope i).version + 1) ((h'.scope i).version - (h.scope i).version) ∧
      (c.received k).Perm c.changes ∧ (c.received k).Pairwise (c.Precedes k) ∧
      ((∀ id < k, ∀ s t, ¬c.Within id s t) → c.received k = c.changes) ∧
      ∀ (w : Written) (ch : Change) (earlier later : List Written), w.change = some ch →
        ((c.received k).filter (·.changes ch.path)).getLast? = some w →
        (∀ x ∈ c.changes, x.changes ch.path = true → ¬c.Overtakes k x w) →
        c.written = earlier ++ w :: later → (∀ x ∈ later, x.keys = w.keys ∨ Scope.Apart w.keys x.keys) →
        ch.path = ".".intercalate w.keys ∧ ch.new.Agrees (Scope.follow w.keys (h'.scope i).snapshot) := by
  refine ⟨session_unfolds i has, fun c hu => ?_⟩
  have hn := session_numbered hbefore i
  have ho := hu.orderly hi hn trivial k
  have hp := hu.received_perm hi hn (hn.issued k hk) hk'
  refine ⟨ho.numbers, hp, ho.ordered, ho.received_eq hp, ?_⟩
  intro w ch earlier later hch hlast hnot hsplit hapart
  have ha := hu.applied hi
  rw [hsplit] at ha
  have hpath : ch.path = ".".intercalate w.keys := ha.told (by simp) hch
  obtain ⟨d, -, ha'⟩ := applied_append.mp ha
  refine ⟨hpath, ha'.holds hch fun x hx => ?_⟩
  rcases hapart x hx with hkeys | hx'
  · -- A change of the same keys would be one of the path.
    refine .inl ⟨hkeys, ?_⟩
    cases hc : x.change with
    | none => rfl
    | some ch' =>
      have hfalse := ho.last_told hp hch hlast hnot hsplit x hx
      have hpath' : ch'.path = ch.path := by rw [ha.told (by simp [hx]) hc, hkeys, hpath]
      simp [Written.changes, hc, hpath'] at hfalse
  · exact .inr hx'

/-- The other subscriber sets another name: the listener is told of that before it is told
    of the change that it answers, and the last change it was told of either is what the scope
    holds. -/
theorem session_notices_answer : ∃ h', (play 9 [.set 0 "a" (.text "y")] (echoed "b") []).1 = some h' ∧
    ((echoes "b" "x").received 2).Perm (echoes "b" "x").changes ∧
    ((echoes "b" "x").received 2).Pairwise ((echoes "b" "x").Precedes 2) ∧
    (Value.text "y").Agrees (Scope.follow ["a"] (h'.scope 0).snapshot) := by
  have hround : Unfolds 0 (.proc (write 0 ["a"] (.text "y"))) { echoed "b" with log := [] } (.ok ()) _ (echoes "b" "x") :=
    .write (s := echoedScope "b" "y" "x" 1) rfl (unfolds_echo rfl
      (.write (s := echoedScope "b" "y" "z" 2) rfl (unfolds_echo rfl (.write (s := echoedScope "b" "y" "z" 2) rfl (.told _ _)))))
  have hsession := (session_notices 1 9 (echoing "b") [.set 0 "a" (.text "y")] "" .browser
    [.object [("a", .text "x"), ("b", .text "x")]] (echoed "b") _ [] 0 2 rfl rfl (by decide) (by decide) (by decide)).2 _
    ((unfolds_set hround).act (.done _))
  obtain ⟨-, hperm, hordered, -, hlast⟩ := hsession
  have hnot : ∀ x ∈ (echoes "b" "x").changes, x.changes "a" = true → ¬(echoes "b" "x").Overtakes 2 x firstWrite := by
    rintro x hx hpath ⟨id, -, hin⟩
    have hx' : x = firstWrite ∨ x = answerWrite "b" "x" := by
      simpa [echoes, Cascade.changes_write, Cascade.changes_tell, firstWrite, answerWrite] using hx
    rcases hx' with rfl | rfl
    · simp [echoes, Cascade.Within, Cascade.changes_write, Cascade.changes_tell, firstWrite, answerWrite] at hin
    · simp [answerWrite, Written.changes] at hpath
  have hapart : ∀ x ∈ [answerWrite "b" "x", ⟨["b"], .text "z", none, 2⟩], x.keys = ["a"] ∨ Scope.Apart ["a"] x.keys := by
    simp [answerWrite, Scope.Apart]
  exact ⟨_, rfl, hperm, hordered, (hlast firstWrite _ [] _ rfl rfl hnot rfl hapart).2⟩

/-- The listener is told last of a change that was overtaken, and the scope holds another value. -/
theorem write_back_overtakes : ∃ h', (play 9 [.set 0 "a" (.text "y")] (echoed "a") []).1 = some h' ∧
    Unfolds 0 (.session [.set 0 "a" (.text "y")]) (echoed "a") () h' (echoes "a" "y") ∧
    (echoes "a" "y").changes.map (·.change) = [some ⟨"a", .text "x", .text "y"⟩, some ⟨"a", .text "y", .text "z"⟩] ∧
    ((echoes "a" "y").received 2).map (·.change) = [some ⟨"a", .text "y", .text "z"⟩, some ⟨"a", .text "x", .text "y"⟩] ∧
    Scope.follow ["a"] (h'.scope 0).snapshot = .text "z" := by
  refine ⟨_, rfl, ?_, rfl, rfl, rfl⟩
  have hround : Unfolds 0 (.proc (write 0 ["a"] (.text "y"))) { echoed "a" with log := [] } (.ok ()) _ (echoes "a" "y") :=
    .write (s := echoedScope "a" "y" "x" 1) rfl (unfolds_echo rfl
      (.write (s := echoedScope "a" "z" "x" 2) rfl (unfolds_echo rfl (.write (s := echoedScope "a" "z" "x" 2) rfl (.told _ _)))))
  exact (unfolds_set hround).act (.done _)

end Eventful.Host
