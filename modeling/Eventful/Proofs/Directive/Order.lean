import Eventful.Proofs.Directive.Keys
import Eventful.Proofs.Directive.Plan

/-
  Eventful.Proofs.Directive.Order — the order of modifiers does not matter.

  A summary has what is asked for anywhere in a chain, and a plan reads its directive
  through the summary alone. Two things are left that the order of a chain can change: in
  which order a key filter has its names, and which of several waits was given first.

  - `build_perm`: for permuted modifiers both plans fail alike or do the same, up to the
    wait if several are given.
-/

namespace Eventful.Directive

open Page

/-! ## What guards are for -/

/-- What a guard is for. -/
inductive Purpose where
  | key | stop | prevent | outside | debounce | once
  deriving Repr, DecidableEq

def Guard.purpose : Guard → Purpose
  | .key _ => .key
  | .stop => .stop
  | .prevent => .prevent
  | .outside => .outside
  | .debounce _ => .debounce
  | .once => .once

namespace Summary

/-- Two summaries ask for the same things. -/
def Agrees (s s' : Summary) : Prop := ∀ m, s.asks m = s'.asks m

theorem agrees_of_perm {ms ms' : List Modifier} (h : ms.Perm ms') : (ofModifiers ms).Agrees (ofModifiers ms') := by
  intro m
  rw [Bool.eq_iff_iff, asks_ofModifiers, asks_ofModifiers]
  exact exists_congr fun _ => and_congr_left' h.mem_iff

variable {s s' : Summary}

theorem Agrees.mem_keys (h : s.Agrees s') {name : String} : name ∈ s.keys ↔ name ∈ s'.keys := by
  rw [← List.contains_iff_mem, ← List.contains_iff_mem]
  exact Bool.eq_iff_iff.mp (h (.key name))

/-- Their filters pass the same events. -/
theorem Agrees.passes (h : s.Agrees s') (e : Event) :
    (KeyFilter.ofNames s.keys).passes e = (KeyFilter.ofNames s'.keys).passes e := by
  have hwants : ∀ {s s' : Summary}, s.Agrees s' → Wants s.keys e → Wants s'.keys e := fun h hw =>
    ⟨fun name hn => hw.held name (h.mem_keys.mpr hn), fun key he ⟨name, hn, ho⟩ =>
      let ⟨name', hn', ha⟩ := hw.key key he ⟨name, h.mem_keys.mpr hn, ho⟩
      ⟨name', h.mem_keys.mp hn', ha⟩⟩
  rw [Bool.eq_iff_iff, KeyFilter.passes_ofNames, KeyFilter.passes_ofNames]
  exact ⟨hwants h, hwants fun m => (h m).symm⟩

theorem Agrees.isEmpty (h : s.Agrees s') :
    (KeyFilter.ofNames s.keys).isEmpty = (KeyFilter.ofNames s'.keys).isEmpty := by
  rw [Bool.eq_iff_iff, KeyFilter.isEmpty_ofNames, KeyFilter.isEmpty_ofNames, List.eq_nil_iff_forall_not_mem,
    List.eq_nil_iff_forall_not_mem]
  exact forall_congr' fun _ => not_congr h.mem_keys

end Summary

namespace Plan

variable {c : Config} {d d' : Directive} {s s' : Summary}

theorem purposes_guardsOf : (guardsOf c s).map Guard.purpose =
    (if (KeyFilter.ofNames s.keys).isEmpty then [] else [.key])
      ++ (if s.stop && !s.outside then [.stop] else [])
      ++ (if s.prevent then [.prevent] else [])
      ++ (if s.outside then [.outside] else [])
      ++ (if s.debounce.isSome then [.debounce] else [])
      ++ (if s.once then [.once] else []) := by
  unfold guardsOf Summary.wait?
  simp only [List.map_append, apply_ite (List.map Guard.purpose)]
  cases s.debounce <;> rfl

theorem purposes_congr (h : s.Agrees s') :
    (guardsOf c s).map Guard.purpose = (guardsOf c s').map Guard.purpose := by
  have hdebounce : s.debounce.isSome = s'.debounce.isSome := h (.debounce none)
  have hstop : s.stop = s'.stop := h .stop
  have hprevent : s.prevent = s'.prevent := h .prevent
  have houtside : s.outside = s'.outside := h .outside
  have honce : s.once = s'.once := h .once
  rw [purposes_guardsOf, purposes_guardsOf, h.isEmpty, hstop, hprevent, houtside, hdebounce, honce]

/-- Where two directives listen that ask for the same, or that neither can listen. -/
theorem placeOf_congr (h : s.Agrees s') :
    (placeOf c d s = .error (.conflictingTargets d.attr) ∧ placeOf c d' s' = .error (.conflictingTargets d'.attr)) ∨
      ∃ place, placeOf c d s = .ok place ∧ placeOf c d' s' = .ok place := by
  have houtside : s.outside = s'.outside := h .outside
  have hwindow : s.window = s'.window := h .window
  have hdocument : s.document = s'.document := h .document
  unfold placeOf
  rw [houtside, hwindow, hdocument]
  cases s'.outside <;> cases s'.window <;> cases s'.document <;> cases c.targetConflict <;> simp

/-- The wait is the same whichever comes first, if all that are given are the same. -/
theorem wait?_congr {ms ms' : List Modifier} (hp : ms.Perm ms')
    (hw : ∀ w ∈ Modifier.waits ms, ∀ w' ∈ Modifier.waits ms, w = w') {default : Nat} :
    (Summary.ofModifiers ms).wait? default = (Summary.ofModifiers ms').wait? default := by
  have hwaits : (Modifier.waits ms).Perm (Modifier.waits ms') := hp.filterMap _
  have hhead : (Modifier.waits ms).head? = (Modifier.waits ms').head? := by
    match h : Modifier.waits ms, h' : Modifier.waits ms' with
    | [], [] => rfl
    | w :: _, [] => rw [h, h'] at hwaits; exact absurd hwaits.length_eq (by simp)
    | [], w :: _ => rw [h, h'] at hwaits; exact absurd hwaits.length_eq (by simp)
    | w :: _, w' :: _ =>
      refine congrArg some (hw w ?_ w' ?_)
      · rw [h]; exact List.mem_cons_self
      · rw [hwaits.mem_iff, h']; exact List.mem_cons_self
  refine Option.ext fun wait => ?_
  rw [Summary.wait?_ofModifiers, Summary.wait?_ofModifiers, hhead]
  exact and_congr_left' (exists_congr fun _ => hp.mem_iff)

/-- Directives for one event whose modifiers are permuted, with duplicates or without, have
    the same plan: both ask for targets that conflict, or they listen at the same place with
    the same options, and their guards are for the same purposes in the same order. Their key
    filters, if they have any, pass the same events; and so do their waits agree, if all the
    waits in the list do. -/
theorem build_perm (c : Config) (d d' : Directive) (he : d.event = d'.event) (hp : d.modifiers.Perm d'.modifiers) :
    (build c d = .error (.conflictingTargets d.attr) ∧ build c d' = .error (.conflictingTargets d'.attr)) ∨
      ∃ p p', build c d = .ok p ∧ build c d' = .ok p' ∧ p.event = p'.event ∧ p.place = p'.place ∧
        p.options = p'.options ∧ p.guards.map Guard.purpose = p'.guards.map Guard.purpose ∧
        (∀ e, p.filter?.map (·.passes e) = p'.filter?.map (·.passes e)) ∧
        ((∀ w ∈ Modifier.waits d.modifiers, ∀ w' ∈ Modifier.waits d.modifiers, w = w') → p.wait? = p'.wait?) := by
  have hs : d.summary.Agrees d'.summary := Summary.agrees_of_perm hp
  have hprevent : d.summary.prevent = d'.summary.prevent := hs .prevent
  unfold build
  dsimp only
  have hplace : (placeOf c d d.summary = .error (.conflictingTargets d.attr) ∧
      placeOf c d' d'.summary = .error (.conflictingTargets d'.attr)) ∨
      ∃ place, placeOf c d d.summary = .ok place ∧ placeOf c d' d'.summary = .ok place := placeOf_congr hs
  rcases hplace with ⟨h, h'⟩ | ⟨place, h, h'⟩
  · rw [h, h']
    exact .inl ⟨rfl, rfl⟩
  · rw [h, h']
    refine .inr ⟨_, _, rfl, rfl, he, rfl, ?_, purposes_congr hs, fun e => ?_, fun hw => ?_⟩
    · rw [hprevent, he]
    · rw [filter?_of_guards rfl, filter?_of_guards rfl, hs.isEmpty]
      split
      · rfl
      · exact congrArg some (hs.passes e)
    · rw [wait?_of_guards rfl, wait?_of_guards rfl]
      exact wait?_congr hp hw

/-- Two keys, a modifier key that is named twice, and a wait. -/
def savingKeys : Directive :=
  ⟨"@keydown.ctrl.s.debounce.100ms.enter.ctrl.stop", "keydown",
    [.key "ctrl", .key "s", .debounce (some 100), .key "enter", .key "ctrl", .stop], "save()"⟩

/-- The same in another order. -/
def keysSaving : Directive :=
  ⟨"@keydown.stop.enter.ctrl.debounce.100ms.s.ctrl", "keydown",
    [.stop, .key "enter", .key "ctrl", .debounce (some 100), .key "s", .key "ctrl"], "save()"⟩

theorem savingKeys_perm : savingKeys.modifiers.Perm keysSaving.modifiers ∧
    ∃ p p', build .default savingKeys = .ok p ∧ build .default keysSaving = .ok p' ∧
      p.filter? = some ⟨["s", "enter"], [.ctrl]⟩ ∧ p'.filter? = some ⟨["enter", "s"], [.ctrl]⟩ ∧
      (∀ e, p.filter?.map (·.passes e) = p'.filter?.map (·.passes e)) ∧
      p.guards.map Guard.purpose = [.key, .stop, .debounce] ∧ p'.guards.map Guard.purpose = [.key, .stop, .debounce] ∧
      p.wait? = p'.wait? := by
  have hp : savingKeys.modifiers.Perm keysSaving.modifiers := by decide
  have hw : ∀ w ∈ Modifier.waits savingKeys.modifiers, ∀ w' ∈ Modifier.waits savingKeys.modifiers, w = w' := by decide
  refine ⟨hp, ?_⟩
  rcases build_perm .default savingKeys keysSaving rfl hp with ⟨h, -⟩ | ⟨p, p', h, h', -, -, -, -, hf, hwait⟩
  · cases h
  · cases h
    cases h'
    exact ⟨_, _, rfl, rfl, rfl, rfl, hf, rfl, rfl, hwait hw⟩

end Plan
end Eventful.Directive
