import Eventful.Proofs.Binding.Evaluators
import Eventful.Proofs.Host.Idle
import Eventful.Proofs.Host.Replaying

/-
  Eventful.Proofs.Host.Caching — nothing is seen of a cache but its size.

  A session has interpreters: its own, and one for each runtime that evaluates scripts.
  Each keeps the programs of the sources that it is given (`sources`). However evaluations
  nest, a cache holds exactly those of its sources that parse (`Reckoned`), so it gives out
  what a fresh interpreter finds. A session in which every single evaluation is left to a
  fresh interpreter is the same session, moment by moment (`caching_unseen`).
-/

namespace Eventful.Binding

def Evaluator.cache? : Evaluator → Option Expr.Cache
  | .script cache => some cache
  | .custom _ => none

def Evaluator.isUnread : Evaluator → Bool
  | .script cache => cache.programs.isEmpty
  | .custom _ => true

/-- Blank expressions are not given to the interpreter. -/
theorem evaluateScript_snd (c : Expr.Cache) (expression : String) (event : Value) :
    (evaluateScript c expression event).2 =
      if Text.isBlankText expression then c else (c.compile expression).2 := by
  unfold evaluateScript
  split
  · rfl
  · exact Expr.evaluate_snd c expression _

theorem evaluateScript_fresh {c : Expr.Cache} {sources : List String} (hc : c.Of sources) (expression : String)
    (event : Value) : (evaluateScript c expression event).1 = (evaluateScript .empty expression event).1 := by
  unfold evaluateScript
  split
  · rfl
  · exact Expr.evaluate_congr (hc.compile_fresh expression) _

end Eventful.Binding

namespace Eventful.Host

open Page Binding

inductive Interpreter where
  /-- The session's own. -/
  | session
  | runtime (rt : Nat)
  deriving DecidableEq

variable {κ : Kind} {h h' : Host} {tr : History} {i : Interpreter}

/-- The cache of an interpreter; none if there is no such interpreter. -/
def cacheOf? (h : Host) : Interpreter → Option Expr.Cache
  | .session => some h.cache
  | .runtime rt => (h.runtime? rt).bind (·.evaluator.cache?)

theorem cacheOf?_runtime {rt : Nat} {cache : Expr.Cache} (hc : h.cacheOf? (.runtime rt) = some cache) :
    ∃ r, h.runtime? rt = some r ∧ r.evaluator = .script cache := by
  obtain ⟨r, hr, hev⟩ := Option.bind_eq_some_iff.mp hc
  refine ⟨r, hr, ?_⟩
  cases h : r.evaluator with
  | script c =>
    rw [h] at hev
    exact congrArg _ (Option.some.inj hev)
  | custom rule =>
    rw [h] at hev
    cases hev

/-! ## Sources -/

/-- The source that a task gives an interpreter, and which one. -/
def Task.source? : Task κ → Option (Interpreter × String)
  | .act (.eval _ source _ false) => some (.session, source)
  | .act (.compile source) => some (.session, source)
  | .effect rt b _ =>
    if Text.isBlankText b.directive.expression then none else some (.runtime rt, b.directive.expression)
  | _ => none

/-- The source that an interpreter is given when the task begins. -/
def Moment.source? (i : Interpreter) : Moment → Option String
  | .begins t h =>
    t.source?.bind fun (j, source) => if i = j ∧ (h.cacheOf? i).isSome then some source else none
  | .ends .. => none

/-- The sources that an interpreter was given, last first. -/
def sources (i : Interpreter) (tr : History) : List String := tr.filterMap (·.source? i)

/-- A cache and the sources that it was given; without an interpreter there are none. -/
def Reckons (sources : List String) : Option Expr.Cache → Prop
  | some c => c.Of sources
  | none => sources = []

/-- Every cache holds what its interpreter was given. -/
def Reckoned (h : Host) (tr : History) : Prop := ∀ i, Reckons (sources i tr) (h.cacheOf? i)

theorem source?_plain {t : Task κ} (ht : t.isPlain = true) : t.source? = none := by
  cases t with
  | effect => cases ht
  | act a =>
    cases a with
    | eval i source locals fresh =>
      cases fresh with
      | true => rfl
      | false => cases ht
    | compile => cases ht
    | _ => rfl
  | _ => rfl

theorem Reckoned.caches (hr : Reckoned h tr) (hc : ∀ i, h'.cacheOf? i = h.cacheOf? i) : Reckoned h' tr :=
  fun i => hc i ▸ hr i

/-- The task gives no source to an interpreter. -/
theorem Reckoned.passed (hr : Reckoned h tr) {t : Task κ} (ht : t.source? = none) : Reckoned h (.begins t h :: tr) := by
  intro i
  have hsame : sources i (.begins t h :: tr) = sources i tr :=
    List.filterMap_cons_none (by simp [Moment.source?, ht])
  rw [hsame]
  exact hr i

theorem Reckoned.ended (hr : Reckoned h tr) {t : Task κ} {r : κ.Carrier} {h₀ : Host} :
    Reckoned h (.ends t r h₀ :: tr) := hr

/-- The task gives a source to an interpreter, which compiles it. -/
theorem Reckoned.given (hr : Reckoned h tr) {t : Task κ} {j : Interpreter} {source : String}
    (ht : t.source? = some (j, source)) (hj : h'.cacheOf? j = (h.cacheOf? j).map fun c => (c.compile source).2)
    (hother : ∀ i, i ≠ j → h'.cacheOf? i = h.cacheOf? i) : Reckoned h' (.begins t h :: tr) := by
  intro i
  have hi := hr i
  by_cases e : i = j
  · subst e
    rw [hj]
    cases hc : h.cacheOf? i with
    | none =>
      have hsame : sources i (.begins t h :: tr) = sources i tr :=
        List.filterMap_cons_none (by simp [Moment.source?, ht, hc])
      rw [hsame]
      rwa [hc] at hi
    | some c =>
      have hmore : sources i (.begins t h :: tr) = source :: sources i tr :=
        List.filterMap_cons_some (by simp [Moment.source?, ht, hc])
      rw [hmore]
      rw [hc] at hi
      exact hi.compile source
  · have hsame : sources i (.begins t h :: tr) = sources i tr :=
      List.filterMap_cons_none (by simp [Moment.source?, ht, e])
    rw [hsame, hother i e]
    exact hi

/-- At every moment. -/
def AllReckoned : History → Prop
  | [] => True
  | m :: tr => Reckoned m.host tr ∧ AllReckoned tr

theorem AllReckoned.at {m : Moment} {earlier : History} (ha : AllReckoned tr) (hs : m :: earlier <:+ tr) :
    Reckoned m.host earlier := by
  obtain ⟨later, rfl⟩ := hs
  induction later with
  | nil => exact ha.1
  | cons m' later ih => exact ih ha.2

/-! ## Edits that keep the caches -/

theorem cacheOf?_quiet (hq : Quiet h h') (i : Interpreter) : h'.cacheOf? i = h.cacheOf? i := by
  cases i with
  | session => exact congrArg some hq.cache
  | runtime rt =>
    show (h'.runtimes[rt]?).bind _ = (h.runtimes[rt]?).bind _
    cases hr' : h'.runtimes[rt]? with
    | some r' =>
      obtain ⟨r, hr, hrow⟩ := hq.rows hr'
      rw [hr]
      exact congrArg Evaluator.cache? hrow.evaluator
    | none =>
      have : h.runtimes[rt]? = none := by
        rw [List.getElem?_eq_none_iff] at hr' ⊢
        exact hq.count ▸ hr'
      rw [this]

theorem cacheOf?_row {rt : Nat} {f : Runtime Script → Runtime Script} (cache : h'.cache = h.cache)
    (rows : h'.runtimes = h.runtimes.modify rt f) (hf : ∀ r, (f r).evaluator = r.evaluator) (i : Interpreter) :
    h'.cacheOf? i = h.cacheOf? i := by
  cases i with
  | session => exact congrArg some cache
  | runtime rt' =>
    show (h'.runtimes[rt']?).bind _ = (h.runtimes[rt']?).bind _
    rw [rows, List.getElem?_modify]
    cases h.runtimes[rt']? with
    | none => rfl
    | some r =>
      show Evaluator.cache? (if rt = rt' then f r else r).evaluator = _
      split
      · exact congrArg Evaluator.cache? (hf r)
      · rfl

theorem cacheOf?_evaluator {rt : Nat} {r : Runtime Script} (hr : h.runtime? rt = some r) (c : Expr.Cache) :
    (h.editRuntime rt fun r => { r with evaluator := .script c }).cacheOf? i =
      if i = .runtime rt then some c else h.cacheOf? i := by
  cases i with
  | session => rfl
  | runtime rt' =>
    show ((h.runtimes.modify rt fun r => { r with evaluator := .script c })[rt']?).bind _ = _
    by_cases e : rt = rt'
    · subst e
      rw [List.getElem?_modify_eq, show h.runtimes[rt]? = some r from hr]
      simp [Evaluator.cache?]
    · rw [List.getElem?_modify_ne _ _ e, if_neg fun h => e (Interpreter.runtime.inj h).symm]
      rfl

/-- A new runtime has an interpreter that was given nothing yet, or none. -/
theorem Reckoned.addRuntime (hr : Reckoned h tr) (config : Directive.Config) {s : Setup}
    (hs : s.evaluator.isUnread = true) : Reckoned (h.addRuntime config s).2 tr := by
  obtain ⟨hcache, r, hrows, hev, -⟩ := addRuntime_row h config s
  intro i
  cases i with
  | session =>
    show Reckons _ (some (h.addRuntime config s).2.cache)
    rw [hcache]
    exact hr .session
  | runtime rt =>
    have hold := hr (.runtime rt)
    change Reckons _ ((h.runtimes[rt]?).bind _) at hold
    show Reckons _ (((h.addRuntime config s).2.runtimes[rt]?).bind _)
    rw [hrows]
    cases hrt : h.runtimes[rt]? with
    | some r₀ =>
      rw [hrt] at hold
      rw [append_eq_some.mpr (.inl hrt)]
      exact hold
    | none =>
      rw [hrt] at hold
      -- No task gave a source to it before it was made.
      have hnone : sources (.runtime rt) tr = [] := hold
      rw [hnone]
      cases hnew : (h.runtimes ++ [r])[rt]? with
      | none => rfl
      | some r' =>
        rcases append_eq_some.mp hnew with hr' | ⟨-, rfl⟩
        · rw [hrt] at hr'
          cases hr'
        · show Reckons [] r'.evaluator.cache?
          rw [hev]
          cases h : s.evaluator with
          | custom rule => rfl
          | script c =>
            rw [h] at hs
            obtain ⟨programs⟩ := c
            obtain rfl : programs = [] := List.isEmpty_iff.mp hs
            exact Expr.Cache.of_empty

/-! ## The contract -/

/-- If a runtime is made, its interpreter was given nothing yet. -/
def Moment.isUnread : Moment → Bool
  | .begins (.act (.newRuntime s)) _ => s.evaluator.isUnread
  | _ => true

def reckoning : Contract where
  fair m := m.isUnread = true
  pre t h tr := AllReckoned (.begins t h :: tr)
  post t _ _ r h' tr' := ∃ tr'', tr' = .ends t r h' :: tr'' ∧ AllReckoned tr'
  kept := AllReckoned
  kept_begins hp := hp
  kept_ends hp _ := by
    obtain ⟨tr'', -, ha⟩ := hp
    exact ha

/-- Every cache is in order, and was at every moment so far. -/
structure InOrder (h : Host) (tr : History) : Prop where
  now : Reckoned h tr
  before : AllReckoned tr

theorem InOrder.caches (hi : InOrder h tr) (hc : ∀ i, h'.cacheOf? i = h.cacheOf? i) : InOrder h' tr :=
  ⟨hi.now.caches hc, hi.before⟩

theorem inOrder_of_post {t : Task κ} {r : κ.Carrier} {tr' : History} (hp : reckoning.post t h tr r h' tr') :
    InOrder h' tr' := by
  obtain ⟨tr'', rfl, ha⟩ := hp
  exact ⟨ha.1.ended, ha⟩

theorem carried_reckoning : Carried reckoning InOrder where
  edit hq hi := hi.caches (cacheOf?_quiet hq)
  call hi := ⟨⟨hi.now, hi.before⟩, fun _ _ _ hp _ => inOrder_of_post hp⟩

theorem carries_reckoning_complete (rt id : Nat) (e : Event) : Carries reckoning InOrder (complete rt id e) := by
  refine carries_complete carried_reckoning rt id e (fun once hi => hi.caches (cacheOf?_row rfl rfl fun _ => rfl))
    fun {h} _ hi => hi.caches ?_
  obtain ⟨hcache, hrows⟩ := endIfIdle_row (h.endEvaluation rt id) rt
  obtain ⟨hcache', hrows'⟩ := endEvaluation_row h rt id
  refine cacheOf?_row (hcache.trans hcache') (hrows.trans (hrows'.symm ▸ List.modify_modify_eq ..)) fun r => ?_
  exact (r.finished id).quiet_settled.evaluator.trans (r.evaluator_finished id)

/-- An effect evaluates with the cache of its runtime, if there is one. -/
theorem Reckoned.effect {rt : Nat} {b : Bound} {e : Event} (hr : Reckoned h tr)
    (hrt : h'.cacheOf? (.runtime rt) = (h.cacheOf? (.runtime rt)).map fun c =>
      (evaluateScript c b.directive.expression (.ofEvent e)).2)
    (hother : ∀ i, i ≠ .runtime rt → h'.cacheOf? i = h.cacheOf? i) :
    Reckoned h' (.begins (.effect rt b e) h :: tr) := by
  by_cases hblank : Text.isBlankText b.directive.expression = true
  · have hnone : (Task.effect rt b e).source? = none := if_pos hblank
    refine (hr.passed hnone).caches fun i => ?_
    by_cases hi : i = .runtime rt
    · simp only [hi, hrt, evaluateScript_snd, hblank, if_true, Option.map_id']
    · exact hother i hi
  · have hsome : (Task.effect rt b e).source? = some (.runtime rt, b.directive.expression) := if_neg hblank
    refine hr.given hsome ?_ hother
    rw [hrt]
    simp only [evaluateScript_snd, hblank, Bool.false_eq_true, if_false]

theorem carries_effect {rt : Nat} {b : Bound} {e : Event} (hr : Reckoned h tr)
    (hp : AllReckoned (.begins (.effect rt b e) h :: tr)) :
    (Task.effect rt b e).body.Meets reckoning h (.begins (.effect rt b e) h :: tr) fun _ h' tr' => InOrder h' tr' := by
  have hI := carried_reckoning
  have hbegun (hnone : h.cacheOf? (.runtime rt) = none) : InOrder h (.begins (.effect rt b e) h :: tr) :=
    ⟨hr.effect (by rw [hnone]; rfl) fun _ _ => rfl, hp⟩
  unfold Task.body
  rw [meets_bind, meets_get]
  cases hrt : h.runtime? rt with
  | none => exact hbegun (by simp [cacheOf?, hrt])
  | some r =>
    dsimp only
    cases hev : r.evaluator with
    | custom rule =>
      exact carries_note hI _ (carries_converse hI _ _) h _ (hbegun (by simp [cacheOf?, hrt, hev, Evaluator.cache?]))
    | script cache =>
      have hcache : h.cacheOf? (.runtime rt) = some cache := by simp [cacheOf?, hrt, hev, Evaluator.cache?]
      refine carries_converse hI _ _ _ _ ⟨hr.effect ?_ fun i hi => ?_, hp⟩
      · rw [hcache, cacheOf?_evaluator hrt, if_pos rfl]
        rfl
      · rw [cacheOf?_evaluator hrt, if_neg hi]

theorem reckoning_holds : reckoning.Holds := by
  intro κ t h tr hp hfair
  have hdone : ∀ {p : Proc κ.Carrier} {h' tr'}, p.Meets reckoning h' tr' (fun _ h'' tr'' => InOrder h'' tr'') →
      p.Meets reckoning h' tr' fun r h'' tr'' => reckoning.post t h tr r h'' (.ends t r h'' :: tr'') :=
    fun hp => hp.mono fun _ _ _ hi => ⟨_, rfl, hi.now, hi.before⟩
  refine hdone ?_
  have hI := carried_reckoning
  by_cases hplain : t.isPlain = true
  · exact carries_body hI carries_reckoning_complete t hplain h _ ⟨hp.1.passed (source?_plain hplain), hp⟩
  · cases t with
    | effect rt b e =>
      exact carries_effect hp.1 hp
    | act a =>
      cases a with
      | eval i source locals fresh =>
        cases fresh with
        | true => exact absurd rfl hplain
        | false =>
          have hgiven : Reckoned { h with cache := (h.cache.evaluate source (Expr.Locals.ofList locals)).2 }
              (.begins (.act (.eval i source locals false)) h :: tr) := by
            refine hp.1.given rfl ?_ fun j hj => ?_
            · exact congrArg some (Expr.evaluate_snd ..)
            · cases j with
              | session => exact absurd rfl hj
              | runtime rt => rfl
          exact meets_bind.mpr (carries_converse hI _ _ _ _ ⟨hgiven, hp⟩)
      | compile source =>
        refine ⟨hp.1.given rfl rfl fun j hj => ?_, hp⟩
        cases j with
        | session => exact absurd rfl hj
        | runtime rt => rfl
      | newRuntime s =>
        have hbegun : Reckoned h (.begins (.act (.newRuntime s)) h :: tr) := hp.1.passed rfl
        unfold Task.body perform
        dsimp only
        split
        · exact ⟨hbegun, hp⟩
        · exact ⟨hbegun.addRuntime _ hfair, hp⟩
      | _ => exact absurd rfl hplain
    | _ => exact absurd rfl hplain

/-! ## Fresh interpreters -/

/-- What a task does if every single evaluation has an interpreter of its own, that was
    given nothing before. The caches are written as ever, but no answer comes from them. -/
def Task.afresh : Bodies
  | _, .act (.eval scope source locals false) => do
    let locals := Expr.Locals.ofList locals
    modify fun h => { h with cache := (h.cache.evaluate source locals).2 }
    return .outcome (← converse scope (Expr.Cache.empty.evaluate source locals).1)
  | _, .act (.compile source) => do
    modify fun h => { h with cache := (h.cache.compile source).2 }
    return match (Expr.Cache.empty.compile source).1 with
      | .ok p => .program p.count
      | .error f => .outcome (.error f)
  | _, .effect rt b e => do
    match (← get).cacheOf? (.runtime rt) with
    | none => (Task.effect rt b e).body
    | some cache =>
      let expression := b.directive.expression
      let event := Value.ofEvent e
      modify (·.editRuntime rt fun r => { r with evaluator := .script (evaluateScript cache expression event).2 })
      converse b.scope (evaluateScript .empty expression event).1
  | _, t => t.body

theorem afresh_follows : Task.afresh.Follows reckoning := by
  intro κ t h tr hp task
  have hr : Reckoned h tr := hp.1
  cases t with
  | effect rt b e =>
    have hof := hr (.runtime rt)
    unfold Task.afresh
    dsimp only
    rw [recordWith_get]
    cases hc : h.cacheOf? (.runtime rt) with
    | none => rfl
    | some cache =>
      obtain ⟨r, hrt, hev⟩ := cacheOf?_runtime hc
      have hfresh := evaluateScript_fresh (hc ▸ hof) b.directive.expression (.ofEvent e)
      unfold Task.body
      dsimp only
      rw [recordWith_get, recordWith_modify, hrt]
      dsimp only
      rw [hev]
      dsimp only
      rw [recordWith_modify, hfresh]
  | act a =>
    cases a with
    | eval i source locals fresh =>
      cases fresh with
      | true => rfl
      | false =>
        have hfresh := Expr.evaluate_congr ((hr .session).compile_fresh source) (Expr.Locals.ofList locals)
        unfold Task.afresh Task.body perform
        dsimp only
        rw [recordWith_modify, ← hfresh]
        rfl
    | compile source =>
      have hfresh := (hr .session).compile_fresh source
      show (some (_, { h with cache := (h.cache.compile source).2 }), _) =
        (some (_, { h with cache := (h.cache.compile source).2 }), _)
      rw [← hfresh]
      rfl
    | _ => rfl
  | _ => rfl

/-- Every single evaluation may have a fresh interpreter: results, writes, notifications
    and all else that happens stay the same. And at every moment an interpreter has cached
    as many programs as it was given distinct sources that parse. -/
theorem caching_unseen (depth : Nat) (as : List Action) (url : String) (globals : Globals) (scopes : List Value)
    (hunread : ∀ m ∈ (play depth as (Host.new url globals scopes) []).2, m.isUnread = true) :
    playBy Task.afresh depth as (Host.new url globals scopes) [] = play depth as (Host.new url globals scopes) [] ∧
      ∀ m earlier, m :: earlier <:+ (play depth as (Host.new url globals scopes) []).2 →
        ∀ i c, m.host.cacheOf? i = some c → c.size = ((sources i earlier).dedup.filter Expr.parses).length := by
  have hstart : InOrder (Host.new url globals scopes) [] := by
    refine ⟨fun i => ?_, trivial⟩
    cases i with
    | session => exact Expr.Cache.of_empty
    | runtime rt => rfl
  have hbegins : ∀ {h tr}, InOrder h tr → ∀ a : Action, reckoning.pre (.act a) { h with log := [] } tr :=
    fun hi a => ⟨hi.now.caches fun i => cacheOf?_quiet (quiet_aside rfl rfl) i, hi.before⟩
  refine ⟨play_by reckoning_holds afresh_follows InOrder hbegins (fun hp _ => inOrder_of_post hp) depth as _ [] hstart
    hunread, fun m earlier hs i c hc => ?_⟩
  have hkept := play_kept reckoning_holds InOrder hbegins (fun hp _ => inOrder_of_post hp) depth as _ [] trivial hstart
    hunread
  have hof := AllReckoned.at hkept hs i
  rw [hc] at hof
  exact hof.size

/-- An assignment that a subscriber evaluates the target of, the target again, and a source
    that does not parse. -/
def repeats : List Action :=
  [.newRuntime ⟨none, false, none, .script .empty⟩, .subscribe 0 none (.mk "changed" [.eval 0 "open" [] false]),
    .eval 0 "open = true" [] false, .eval 0 "open" [] false, .eval 0 "open =" [] false, .compile "open"]

/-- The history of that session, on a scope without fields. -/
def repeated : History := (play 4 repeats (Host.new "" .browser [.object []]) []).2

theorem repeats_unseen :
    (∀ m ∈ repeated, m.isUnread = true) ∧
      (playBy Task.afresh 4 repeats (Host.new "" .browser [.object []]) []).2 = repeated ∧
      ∃ m earlier, m :: earlier <:+ repeated ∧
        sources .session earlier = ["open", "open =", "open", "open", "open = true"] ∧ m.host.cache.size = 2 := by
  have hunread : ∀ m ∈ repeated, m.isUnread = true := List.all_eq_true.mp (by decide +kernel)
  obtain ⟨hsame, hsize⟩ := caching_unseen 4 repeats "" .browser [.object []] hunread
  have hsources : sources .session repeated.tail = ["open", "open =", "open", "open", "open = true"] := by decide +kernel
  obtain ⟨m, earlier, hlast⟩ : ∃ m earlier, repeated = m :: earlier :=
    List.exists_cons_of_length_pos (by decide +kernel)
  have hs : m :: earlier <:+ repeated := hlast ▸ List.suffix_refl _
  rw [hlast] at hsources
  refine ⟨hunread, congrArg Prod.snd hsame, m, earlier, hs, hsources, ?_⟩
  rw [hsize m earlier hs .session m.host.cache rfl]
  show ((sources .session earlier).dedup.filter Expr.parses).length = 2
  rw [show sources .session earlier = _ from hsources]
  decide +kernel

end Eventful.Host
