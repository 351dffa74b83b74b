import Eventful.Proofs.Clock
import Eventful.Proofs.Host.Tables
import Eventful.Proofs.Page.Listeners

/-
  Eventful.Proofs.Host.Books — what a host's tables say of each other.

  A binding is entered in up to three places beside its runtime: the listener store, a
  tracker, a clock. The books say that these agree. What stands in such a place for a
  binding belongs to a bound one (`backed`), and an id that a binding holds leads to
  nobody else's (`mine`); this is so for every runtime, whatever is done. That nothing a
  binding needs is missing (`filed`, `entered`, `armed`) is said of the runtimes in `F`,
  those whose registrations nobody else touches.
-/

namespace Eventful.Host

open Page Binding

/-- How a tracker listens. -/
def capturing : Options := ⟨true, false, false⟩

/-- The listener that a binding waits as. -/
structure Fits (rt : Nat) (b : Bound) (t : Target) (l : Listener Reaction) : Prop where
  inside : b.plan.isOutside = false
  target : t = b.plan.place.target b.element
  listener : b.listener = some l.id
  event : l.event = b.plan.event
  options : l.options = b.plan.options
  action : l.action = .binding rt b.id

theorem Fits.congr {rt : Nat} {b b' : Bound} {t : Target} {l : Listener Reaction} (h : Fits rt b t l) (e : Same b b') :
    Fits rt b' t l where
  inside := e.plan ▸ h.inside
  target := by rw [e.plan, e.element]; exact h.target
  listener := e.listener.trans h.listener
  event := e.plan ▸ h.event
  options := e.plan ▸ h.options
  action := e.id ▸ h.action

/-- The entry that an outside binding waits as. -/
def entryOf (rt : Nat) (b : Bound) : Entry Waiter := ⟨b.id, b.element, b.plan.event, .binding rt b.id⟩

theorem entryOf_congr {rt : Nat} {b b' : Bound} (e : Same b b') : entryOf rt b' = entryOf rt b := by
  unfold entryOf
  rw [e.id, e.element, e.plan]

variable (F : Nat → Prop)

structure ListenerBooks (rs : Runtimes) (ts : List (Tracker Waiter)) (g : Globals) (ls : Listeners Reaction) :
    Prop where
  sound : ls.Sound
  backed : ∀ {t l rt id}, ls.Stands t l → l.action = .binding rt id → ∃ b, Binds rs rt b ∧ Fits rt b t l
  mine : ∀ {rt b id}, Binds rs rt b → b.listener = some id →
    id ≤ ls.lastId ∧ ∀ {t l}, ls.Stands t l → l.id = id → l.action = .binding rt b.id
  filed : ∀ {rt b}, F rt → Binds rs rt b → b.plan.isOutside = false → ∃ t l, ls.Stands t l ∧ Fits rt b t l
  present : ∀ {rt b}, Binds rs rt b → g.has (b.plan.place.target b.element) = true
  serves : ∀ {t l k}, ls.Stands t l → l.action = .tracker k →
    t = .document ∧ l.options = capturing ∧ (l.event, l.id) ∈ (trackerAt ts k).installed
  theirs : ∀ {k name id}, (name, id) ∈ (trackerAt ts k).installed →
    id ≤ ls.lastId ∧ ∀ {t l}, ls.Stands t l → l.id = id → l.action = .tracker k
  standing : ∀ {rt k name id}, F rt → Owns rs rt k → (name, id) ∈ (trackerAt ts k).installed →
    ls.Stands .document ⟨id, name, capturing, .tracker k⟩

/-- What a tracker has for the one runtime that owns it. -/
structure OwnEntries (rs : Runtimes) (rt : Nat) (t : Tracker Waiter) : Prop where
  entered : ∀ {b}, Binds rs rt b → b.plan.isOutside = true → entryOf rt b ∈ t.entries
  mine : ∀ {w}, w ∈ t.entries → ∃ id, w.action = .binding rt id
  distinct : (t.entries.map (·.binding)).Nodup
  served : ∀ {w}, w ∈ t.entries → t.isInstalled w.event = true
  names : (t.installed.map (·.1)).Nodup

/-- Which of the `n` trackers are whose. -/
structure Places (rs : Runtimes) (n : Nat) (shared : List Nat) : Prop where
  place : ∀ {rt k}, Uses rs rt k → k < n
  alone : ∀ {rt rt' k}, Owns rs rt k → Uses rs rt' k → rt' = rt
  apart : ∀ {rt k}, Owns rs rt k → k ∉ shared
  shared : ∀ {k}, k ∈ shared → k < n

structure EntryBooks (rs : Runtimes) (ts : List (Tracker Waiter)) (shared : List Nat) : Prop where
  backed : ∀ {k w rt id}, w ∈ (trackerAt ts k).entries → w.action = .binding rt id →
    ∃ b, Binds rs rt b ∧ Uses rs rt k ∧ b.plan.isOutside = true ∧ w = entryOf rt b
  own : ∀ {rt k}, F rt → Owns rs rt k → OwnEntries rs rt (trackerAt ts k)
  held : ∀ {rt k}, Needs rs rt k → (trackerAt ts k).held = true
  places : Places rs ts.length shared

structure TimerBooks (rs : Runtimes) (cs : List (Clock Alarm)) (ds : List Debouncer) : Prop where
  sound : ∀ c, (clockAt cs c).Sound
  backed : ∀ {c t rt id e}, t ∈ (clockAt cs c).timers → t.action = .binding rt id e →
    ∃ b, Keeps rs rt b ∧ Ticks rs rt c ∧ b.id = id ∧ b.waiting = some t.id
  mine : ∀ {rt c b i}, Keeps rs rt b → Ticks rs rt c → b.waiting = some i →
    i ≤ (clockAt cs c).lastId ∧
      ∀ {t}, t ∈ (clockAt cs c).timers → t.id = i → ∃ e, t.action = .binding rt b.id e
  debounced : ∀ {rt b i}, Keeps rs rt b → b.waiting = some i → ∃ wait, .debounce wait ∈ b.plan.guards
  armed : ∀ {rt c b i}, F rt → Binds rs rt b → Ticks rs rt c → b.waiting = some i →
    ∃ t ∈ (clockAt cs c).timers, t.id = i
  left : ∀ {rt k b}, F rt → Owns rs rt k → Leaves rs rt b → b.waiting = none
  theirs : ∀ {d : Nat} {k : Debouncer} {i : Nat}, ds[d]? = some k → k.waiting = some i →
    i ≤ (clockAt cs 0).lastId ∧ ∀ {t}, t ∈ (clockAt cs 0).timers → t.id = i → ∃ d e s, t.action = .debouncer d e s
  place : ∀ {rt c}, Ticks rs rt c → c < cs.length
  session : 0 < cs.length

structure Books (h : Host) : Prop where
  runtimes : ∀ {rt : Nat} {r : Runtime Script}, h.runtimes[rt]? = some r → r.Sound
  listeners : ListenerBooks F h.runtimes h.trackers h.page.globals h.page.listeners
  entries : EntryBooks F h.runtimes h.trackers h.sharedTrackers
  timers : TimerBooks F h.runtimes h.clocks h.debouncers

variable {F}

/-- A host of the same tables has the same books. -/
theorem Books.frame {h h' : Host} (hb : Books F h) (runtimes : h'.runtimes = h.runtimes)
    (trackers : h'.trackers = h.trackers) (shared : h'.sharedTrackers = h.sharedTrackers)
    (globals : h'.page.globals = h.page.globals) (listeners : h'.page.listeners = h.page.listeners)
    (clocks : h'.clocks = h.clocks) (debouncers : h'.debouncers = h.debouncers) : Books F h' := by
  obtain ⟨h₁, h₂, h₃, h₄⟩ := hb
  refine ⟨?_, ?_, ?_, ?_⟩
  · rw [runtimes]; exact h₁
  · rw [runtimes, trackers, globals, listeners]; exact h₂
  · rw [runtimes, trackers, shared]; exact h₃
  · rw [runtimes, clocks, debouncers]; exact h₄

/-- A new host has clean books. -/
theorem books_new (url : String) (globals : Globals) (scopes : List Value) :
    Books F (Host.new url globals scopes) := by
  have hr : ∀ (rt : Nat) (P : Runtime Script → Prop), ¬∃ r, ([] : Runtimes)[rt]? = some r ∧ P r := by
    rintro rt P ⟨r, hr, -⟩
    simp at hr
  have ht : ∀ k, trackerAt [] k = .empty := fun k => rfl
  have hc : ∀ c, clockAt [Clock.new] c = .new := fun c => clockAt_append [] c
  refine ⟨fun h => ?_, ?_, ?_, ?_⟩
  · simp [Host.new] at h
  · show ListenerBooks F [] [] globals .empty
    exact {
      sound := Listeners.sound_empty
      backed := fun h => by cases h
      mine := fun h => (hr _ _ h).elim
      filed := fun _ h => (hr _ _ h).elim
      present := fun h => (hr _ _ h).elim
      serves := fun h => by cases h
      theirs := fun h => by rw [ht] at h; cases h
      standing := fun _ h => (hr _ _ h).elim }
  · show EntryBooks F [] [] []
    exact {
      backed := fun h => by rw [ht] at h; cases h
      own := fun _ h => (hr _ _ h).elim
      held := fun h => (hr _ _ h).elim
      places := {
        place := fun h => (hr _ _ h).elim
        alone := fun h => (hr _ _ h).elim
        apart := fun h => (hr _ _ h).elim
        shared := fun h => by cases h } }
  · show TimerBooks F [] [.new] []
    exact {
      sound := fun c => by rw [hc]; exact Clock.sound_new
      backed := fun h => by rw [hc] at h; cases h
      mine := fun h => (hr _ _ h).elim
      debounced := fun h => (hr _ _ h).elim
      armed := fun _ h => (hr _ _ h).elim
      left := fun _ h => (hr _ _ h).elim
      theirs := fun h => by simp at h
      place := fun h => (hr _ _ h).elim
      session := Nat.zero_lt_one }

end Eventful.Host
