import Eventful.Proofs.Host.Carrying

/-
  Eventful.Proofs.Host.Idle — between the actions of a session nothing is under way.

  A task leaves no more evaluations of a binding under way than it found, and no procedure
  puts off what is due: what an unbinding left for its evaluations is forgotten with the
  last of them, and a runtime without its handle ends as soon as it is idle (`Idles`). So
  after a session that comes back no expression is being evaluated, nothing is leaving, and
  a runtime whose handle is gone has ended (`session_idle`).
-/

namespace Eventful.Binding.Runtime

variable {κ : Type} {r r' : Runtime κ} {id : Nat} {c : Nat → Nat}

/-- Nothing is put off, and no binding has more evaluations under way than `c` says. -/
structure Idles (c : Nat → Nat) (r : Runtime κ) : Prop where
  leaving : ∀ b ∈ r.leaving, 0 < b.running
  due : ¬r.Due
  within : ∀ b, r.Reaches b → b.running ≤ c b.id

theorem Idles.quiet (hi : r.Idles c) (hq : Quiet r r') : r'.Idles c where
  leaving := hq.leaving hi.leaving
  due hd := hi.due (hq.due hd)
  within b hb := by
    rcases hq.running hb with hz | ⟨b₀, h₀, hid, hrun⟩
    · omega
    · rw [← hid, ← hrun]
      exact hi.within b₀ h₀

theorem reaches_edit {f : Bound → Bound} {b : Bound} (hb : (r.edit id f).Reaches b) :
    ∃ b₀, r.Reaches b₀ ∧ b = if b₀.id == id then f b₀ else b₀ := by
  rcases hb with hb | hb
  · obtain ⟨b₀, h₀, e⟩ := List.mem_map.mp hb
    exact ⟨b₀, .inl h₀, e.symm⟩
  · obtain ⟨b₀, h₀, e⟩ := List.mem_map.mp hb
    exact ⟨b₀, .inr h₀, e.symm⟩

/-- An evaluation of a binding begins. -/
def started (r : Runtime κ) (id : Nat) (once : Bool) : Runtime κ :=
  r.edit id fun b => { b with fired := once, running := b.running + 1 }

theorem Idles.started (hi : r.Idles c) (id : Nat) (once : Bool) :
    (r.started id once).Idles (Function.update c id (c id + 1)) := by
  refine ⟨fun b hb => ?_, fun ⟨hs, hidle⟩ => hi.due ⟨hs, ?_⟩, fun b hb => ?_⟩
  · obtain ⟨b₀, h₀, rfl⟩ := List.mem_map.mp hb
    split
    · exact Nat.succ_pos _
    · exact hi.leaving b₀ h₀
  · obtain ⟨hl, hall⟩ := isIdle_iff.mp hidle
    refine isIdle_iff.mpr ⟨List.map_eq_nil_iff.mp hl, fun b hb => ?_⟩
    have hb := hall _ (List.mem_map_of_mem hb)
    split at hb
    · exact absurd hb (Nat.succ_ne_zero _)
    · exact hb
  · obtain ⟨b₀, h₀, rfl⟩ := reaches_edit hb
    have := hi.within b₀ h₀
    by_cases e : b₀.id = id
    · subst e
      simpa using this
    · simpa [e] using this

/-- An evaluation of a binding ends; the last one takes with it what is left of an unbinding. -/
def finished (r : Runtime κ) (id : Nat) : Runtime κ :=
  let r := r.edit id fun b => { b with running := b.running - 1 }
  if (r.gone? id).isSome then r.forget id else r

theorem evaluator_finished (r : Runtime κ) (id : Nat) : (r.finished id).evaluator = r.evaluator := by
  unfold finished
  dsimp only
  split <;> rfl

theorem leaving_finished (hl : ∀ b ∈ r.leaving, 0 < b.running) : ∀ b ∈ (r.finished id).leaving, 0 < b.running := by
  intro b hb
  unfold finished at hb
  dsimp only at hb
  have hother : b ∈ (r.edit id fun b => { b with running := b.running - 1 }).leaving → b.id ≠ id → 0 < b.running := by
    intro hb hne
    obtain ⟨b₀, h₀, rfl⟩ := List.mem_map.mp hb
    by_cases e : b₀.id = id
    · simp [e] at hne
    · simpa [e] using hl b₀ h₀
  split at hb
  · obtain ⟨hb, hne⟩ := List.mem_filter.mp hb
    exact hother hb (by simpa using hne)
  · rename_i hgone
    by_cases hne : b.id = id
    · have := List.find?_eq_none.mp (Option.not_isSome_iff_eq_none.mp hgone) b hb
      simp only [hne, beq_self_eq_true, Bool.true_and, beq_iff_eq] at this
      omega
    · exact hother hb hne

theorem Idles.finished (hi : r.Idles (Function.update c id (c id + 1))) : (r.finished id).settled.Idles c := by
  have hwithin : ∀ b, (r.finished id).Reaches b → b.running ≤ c b.id := by
    intro b hb
    have hb : (r.edit id fun b => { b with running := b.running - 1 }).Reaches b := by
      unfold Runtime.finished at hb
      dsimp only at hb
      split at hb
      · exact reaches_forget hb
      · exact hb
    obtain ⟨b₀, h₀, rfl⟩ := reaches_edit hb
    have := hi.within b₀ h₀
    by_cases e : b₀.id = id
    · subst e
      simp only [Function.update_self] at this
      simp only [beq_self_eq_true, if_true]
      omega
    · simpa [e] using this
  have hset := (r.finished id).quiet_settled
  refine ⟨hset.leaving (leaving_finished hi.leaving), (r.finished id).not_due_settled, fun b hb => ?_⟩
  rcases hset.running hb with hz | ⟨b₀, h₀, hid, hrun⟩
  · omega
  · rw [← hid, ← hrun]
    exact hwithin b₀ h₀

end Eventful.Binding.Runtime

namespace Eventful.Host

open Page Binding

variable {κ : Kind} {h h' : Host} {tr : History} {c c' : Nat → Nat → Nat} {rt id : Nat}

def Idling (c : Nat → Nat → Nat) (h : Host) : Prop :=
  ∀ (rt : Nat) (r : Runtime Script), h.runtimes[rt]? = some r → r.Idles (c rt)

theorem Idling.quiet (hi : Idling c h) (hq : Quiet h h') : Idling c h' := by
  intro rt r' hr'
  obtain ⟨r, hr, hq⟩ := hq.rows hr'
  exact (hi rt r hr).quiet hq

/-- One row changes. -/
theorem Idling.row {f : Runtime Script → Runtime Script} (hi : Idling c h)
    (hrows : h'.runtimes = h.runtimes.modify rt f) (hother : ∀ rt', rt' ≠ rt → c' rt' = c rt')
    (hf : ∀ r, r.Idles (c rt) → (f r).Idles (c' rt)) : Idling c' h' := by
  intro rt' r' hr'
  rw [hrows] at hr'
  obtain ⟨r, hr, rfl⟩ := modify_eq_some.mp hr'
  by_cases e : rt = rt'
  · subst e
    rw [if_pos rfl]
    exact hf r (hi rt r hr)
  · rw [if_neg e, hother rt' (Ne.symm e)]
    exact hi rt' r hr

/-- A binding has one more evaluation. -/
def oneMore (c : Nat → Nat → Nat) (rt id : Nat) : Nat → Nat → Nat :=
  Function.update c rt (Function.update (c rt) id (c rt id + 1))

theorem Idling.started (hi : Idling c h) (rt id : Nat) (once : Bool) :
    Idling (oneMore c rt id) (h.editRuntime rt (·.started id once)) := by
  refine hi.row rfl (fun rt' e => Function.update_of_ne e _ _) fun r hr => ?_
  rw [oneMore, Function.update_self]
  exact hr.started id once

theorem endEvaluation_row (h : Host) (rt id : Nat) :
    (h.endEvaluation rt id).cache = h.cache ∧
      (h.endEvaluation rt id).runtimes = h.runtimes.modify rt (·.finished id) := by
  unfold endEvaluation runtime?
  cases hr : h.runtimes[rt]? with
  | none =>
    have hnone : ∀ f : Runtime Script → Runtime Script, h.runtimes.modify rt f = h.runtimes := fun f =>
      List.modify_eq_self (List.getElem?_eq_none_iff.mp hr)
    simp [editRuntime, hnone, hr]
  | some r =>
    have hedited : (h.editRuntime rt (·.edit id fun b => { b with running := b.running - 1 })).runtimes[rt]? =
        some (r.edit id fun b => { b with running := b.running - 1 }) :=
      modify_eq_some.mpr ⟨r, hr, (if_pos rfl).symm⟩
    simp only [hedited, Option.bind_some]
    cases hgone : (r.edit id fun b => { b with running := b.running - 1 }).gone? id with
    | none => exact ⟨rfl, modify_congr hr (by simp [Runtime.finished, hgone])⟩
    | some b =>
      have hkept : ∀ (h : Host) (k : Nat) (w : Option Nat),
          (h.cancelWaiting k w).2.cache = h.cache ∧ (h.cancelWaiting k w).2.runtimes = h.runtimes := by
        intro h k w
        cases w <;> exact ⟨rfl, rfl⟩
      refine ⟨(hkept _ _ _).1, ?_⟩
      show ((Host.cancelWaiting _ _ _).2.runtimes).modify rt _ = _
      rw [(hkept _ _ _).2]
      exact (List.modify_modify_eq ..).trans (modify_congr hr (by simp [Runtime.finished, hgone]))

theorem Idling.finished (hi : Idling (oneMore c rt id) h) : Idling c ((h.endEvaluation rt id).endIfIdle rt) := by
  have hrows : ((h.endEvaluation rt id).endIfIdle rt).runtimes =
      h.runtimes.modify rt (Runtime.settled ∘ (·.finished id)) := by
    rw [(endIfIdle_row _ rt).2, (endEvaluation_row h rt id).2, List.modify_modify_eq]
  refine hi.row hrows (fun rt' e => (Function.update_of_ne e _ _).symm) fun r hr => ?_
  rw [oneMore, Function.update_self] at hr
  exact hr.finished

theorem Idling.addRuntime (hi : Idling c h) (config : Directive.Config) (s : Setup) :
    Idling c (h.addRuntime config s).2 := by
  intro rt r hr
  obtain ⟨-, r₀, hrows, -, hb, hl, hs⟩ := addRuntime_row h config s
  rw [hrows] at hr
  rcases append_eq_some.mp hr with hr | ⟨-, rfl⟩
  · exact hi rt r hr
  · refine ⟨by simp [hl], fun hd => ?_, fun b hb' => ?_⟩
    · exact absurd (hs.symm.trans hd.1) (by decide)
    · rcases hb' with hb' | hb'
      · exact absurd hb' (by simp [hb])
      · exact absurd hb' (by simp [hl])

/-! ## The contract -/

def idling : Contract where
  fair _ := True
  pre _ h _ := ∃ c, Idling c h
  post _ h _ _ h' _ := ∀ c, Idling c h → Idling c h'
  kept _ := True
  kept_begins _ := trivial
  kept_ends _ _ := trivial

theorem carried_idling (c : Nat → Nat → Nat) : Carried idling fun h _ => Idling c h where
  edit hq hi := hi.quiet hq
  call hi := ⟨⟨c, hi⟩, fun _ _ _ hp _ => hp c hi⟩

theorem carries_idling_complete (c : Nat → Nat → Nat) (rt id : Nat) (e : Event) :
    Carries idling (fun h _ => Idling c h) (complete rt id e) :=
  carries_complete (carried_idling (oneMore c rt id)) rt id e (fun once hi => hi.started rt id once) Idling.finished

theorem idling_body (c : Nat → Nat → Nat) (t : Task κ) : Carries idling (fun h _ => Idling c h) t.body := by
  have hI := carried_idling c
  by_cases hplain : t.isPlain = true
  · exact carries_body hI (carries_idling_complete c) t hplain
  · cases t with
    | effect rt b e =>
      refine carries_get fun h => ?_
      split
      · exact carries_pure _
      · split
        · exact carries_note hI _ (carries_converse hI _ _)
        · intro h tr hi
          refine carries_converse hI _ _ _ _ (hi.row rfl (fun _ _ => rfl) fun r hr => ?_)
          exact ⟨hr.leaving, hr.due, hr.within⟩
    | act a =>
      cases a with
      | eval i source locals fresh =>
        cases fresh with
        | true => exact absurd rfl hplain
        | false => exact fun h tr hi => meets_bind.mpr (carries_converse hI _ _ _ _ hi)
      | compile source => exact fun h tr hi => hi
      | newRuntime s =>
        unfold Task.body perform
        dsimp only
        split
        · exact carries_pure _
        · exact fun h tr hi => hi.addRuntime _ s
      | _ => exact absurd rfl hplain
    | _ => exact absurd rfl hplain

theorem idling_holds : idling.Holds := by
  rintro κ t h tr ⟨c, hi⟩ -
  have : Nonempty { c // Idling c h } := ⟨c, hi⟩
  have hbody : t.body.Meets idling h (.begins t h :: tr) fun _ h' _ => ∀ c : { c // Idling c h }, Idling c.1 h' :=
    Proc.Meets.forall fun c => idling_body c.1 t h _ c.2
  exact hbody.mono fun _ h' _ hall c hi => hall ⟨c, hi⟩

/-- When a session comes back, no expression is being evaluated, nothing is leaving, and
    every runtime is held or has ended. -/
theorem session_idle {depth : Nat} {as : List Action} {url : String} {globals : Globals} {scopes : List Value}
    (e : (play depth as (Host.new url globals scopes) []).1 = some h) {r : Runtime Script}
    (hr : h.runtimes[rt]? = some r) :
    (∀ b ∈ r.bindings, b.running = 0) ∧ r.leaving = [] ∧ (r.status = .held ∨ r.status = .ended) := by
  have hstart : Idling (fun _ _ => 0) (Host.new url globals scopes) := fun rt r hr => nomatch hr
  have hi : Idling (fun _ _ => 0) h :=
    play_ready idling_holds (fun h _ => Idling (fun _ _ => 0) h) (fun hi _ => ⟨_, hi⟩) (fun hi hp _ => hp _ hi)
      depth as _ [] hstart (fun _ _ => trivial) e
  have hidle := hi rt r hr
  have hrunning : ∀ b, r.Reaches b → b.running = 0 := fun b hb => Nat.le_zero.mp (hidle.within b hb)
  have hleaving : r.leaving = [] := List.eq_nil_iff_forall_not_mem.mpr fun b hb => by
    have := hidle.leaving b hb
    have := hrunning b (.inr hb)
    omega
  refine ⟨fun b hb => hrunning b (.inl hb), hleaving, ?_⟩
  cases hs : r.status with
  | held => exact .inl rfl
  | ended => exact .inr rfl
  | released =>
    exact absurd ⟨hs, Runtime.isIdle_iff.mpr ⟨hleaving, fun b hb => hrunning b (.inl hb)⟩⟩ hidle.due

end Eventful.Host
