import Eventful.Binding.Basic
import Eventful.Proofs.Expr.Caching
import Eventful.Value.OfEvent

/-
  Eventful.Proofs.Binding.Evaluators — evaluators that differ in their faults.

  Two evaluations agree (`AgreesFrom`) if they make the same writes, one after the other
  and whatever a scope holds as they go on, and come back with the same value; a fault
  counts as `undefined`. What they read, and how often, is their own affair. Evaluators
  agree if all their evaluations do; that is an equivalence (`agrees_trans`), and what a
  script evaluator keeps in its cache makes no difference to it (`asks_caching`).
-/

namespace Eventful.Binding

open Page Eventful.Expr

/-- The outcome with faults out of sight. -/
def settled : Outcome → Outcome
  | .ok v => .ok v
  | .error _ => .ok .undefined

/-- How an expression is evaluated for an event. -/
def Evaluator.asks : Evaluator → String → Event → Dialogue Outcome
  | .script cache, expression, e => (evaluateScript cache expression (.ofEvent e)).1
  | .custom rule, expression, e => rule expression e

/-! ## Evaluations that agree -/

/-- What a scope that holds `data` says to a write. -/
def response (data : Fields) (path : List String) (v : Value) : Except Blocked Unit :=
  match (Scope.write ⟨data, 0, [], 0⟩ path v : Except Blocked (Scope Unit × Option Change)) with
  | .error b => .error b
  | .ok _ => .ok ()

theorem response_write {σ : Type} (s : Scope σ) (path : List String) (v : Value) :
    response s.data path v = (s.write path v).map fun _ => () := by
  unfold response Scope.write
  cases path with
  | nil => rfl
  | cons key rest =>
    dsimp only
    cases Fields.write v key rest s.data with
    | error b => rfl
    | ok w =>
      cases w with
      | none => rfl
      | some w => by_cases hsame : w.2.same v = true <;> simp [hsame, Except.map]

/-- With `data` in the scope the dialogues end alike, or make the same write; and then
    they do so with whatever is in the scope after that. -/
inductive AgreesFrom : Fields → Dialogue Outcome → Dialogue Outcome → Prop
  | done {data : Fields} {o o' : Outcome} : settled o = settled o' → AgreesFrom data (.done o) (.done o')
  | asks {data : Fields} {name : String} {k : Option Value → Dialogue Outcome} {d : Dialogue Outcome} :
    AgreesFrom data (k (data.get? name)) d → AgreesFrom data (.ask name k) d
  | asked {data : Fields} {name : String} {k : Option Value → Dialogue Outcome} {d : Dialogue Outcome} :
    AgreesFrom data d (k (data.get? name)) → AgreesFrom data d (.ask name k)
  | tell {data : Fields} {path : List String} {v : Value} {k k' : Except Blocked Unit → Dialogue Outcome} :
    (∀ data', AgreesFrom data' (k (response data path v)) (k' (response data path v))) →
    AgreesFrom data (.tell path v k) (.tell path v k')

variable {data : Fields} {d d' d'' : Dialogue Outcome} {ev ev' ev'' : Evaluator}

theorem agreesFrom_rfl (d : Dialogue Outcome) (data : Fields) : AgreesFrom data d d := by
  induction d generalizing data with
  | done o => exact .done rfl
  | ask name k ih => exact .asks (.asked (ih _ data))
  | tell path v k ih => exact .tell fun data' => ih _ data'

theorem AgreesFrom.symm (h : AgreesFrom data d d') : AgreesFrom data d' d := by
  induction h with
  | done e => exact .done e.symm
  | asks _ ih => exact .asked ih
  | asked _ ih => exact .asks ih
  | tell _ ih => exact .tell ih

theorem agreesFrom_ask {name : String} {k : Option Value → Dialogue Outcome} (h : AgreesFrom data (.ask name k) d') :
    AgreesFrom data (k (data.get? name)) d' := by
  generalize hd : Dialogue.ask name k = d at h
  induction h with
  | done => cases hd
  | asks h =>
    cases hd
    exact h
  | asked _ ih => exact .asked (ih hd)
  | tell => cases hd

theorem AgreesFrom.trans (h : AgreesFrom data d d') (h' : AgreesFrom data d' d'') : AgreesFrom data d d'' := by
  induction h generalizing d'' with
  | @done data o o' e =>
    generalize hd : Dialogue.done o' = d at h'
    induction h' with
    | done e' =>
      cases hd
      exact .done (e.trans e')
    | asks => cases hd
    | asked _ ih => exact .asked (ih hd)
    | tell => cases hd
  | asks _ ih => exact .asks (ih h')
  | asked _ ih => exact ih (agreesFrom_ask h')
  | @tell data path v k k' hk ih =>
    generalize hd : Dialogue.tell path v k' = d at h'
    induction h' with
    | done => cases hd
    | asks => cases hd
    | asked _ ih' => exact .asked (ih' hk ih hd)
    | tell h' =>
      cases hd
      exact .tell fun data' => ih data' (h' data')

/-! ## Evaluators that agree -/

def Evaluator.Agrees (ev ev' : Evaluator) : Prop :=
  ∀ expression e data, AgreesFrom data (ev.asks expression e) (ev'.asks expression e)

theorem agrees_rfl (ev : Evaluator) : ev.Agrees ev := fun _ _ data => agreesFrom_rfl _ data

theorem Evaluator.Agrees.symm (h : ev.Agrees ev') : ev'.Agrees ev := fun x e data => (h x e data).symm

theorem agrees_trans (h : ev.Agrees ev') (h' : ev'.Agrees ev'') : ev.Agrees ev'' :=
  fun x e data => (h x e data).trans (h' x e data)

theorem asks_caching (c : Cache) (source : String) (event : Value) :
    (Evaluator.script (evaluateScript c source event).2).Agrees (.script c) := by
  intro expression e data
  have hsame : (Evaluator.script (evaluateScript c source event).2).asks expression e = (Evaluator.script c).asks expression e := by
    unfold Evaluator.asks evaluateScript
    dsimp only
    split
    · rfl
    · split
      · rfl
      · exact evaluate_caching c source expression _ _
  rw [hsame]
  exact agreesFrom_rfl _ data

end Eventful.Binding
