import Eventful.Proofs.Host.Onward
import Eventful.Proofs.Host.TimerBooks

/-
  Eventful.Proofs.Host.Edits — what an edit of a host keeps.

  An edit `Goes` on if it keeps the books, lets no binding fire, starts and stops no
  binding's timer (`Still`). That a binding is unbound may cost it its timer, but nobody
  else. The two edits that are about the timers of bindings, a wait that begins and one
  that is over, are `Steps`.
-/

namespace Eventful.Host

open Page Binding

variable {F : Nat → Prop} {rs rs' rs'' : Runtimes} {cs cs' cs'' : List (Clock Alarm)} {ds ds' : List Debouncer}
  {h h' h'' : Host} {rt c : Nat}

/-! ## The timers of bindings -/

/-- No binding's timer starts; those of `F` stay as long as their bindings are bound. -/
structure Still (F : Nat → Prop) (rs rs' : Runtimes) (cs cs' : List (Clock Alarm)) : Prop where
  old : ∀ {c t rt id e}, t ∈ (clockAt cs' c).timers → t.action = .binding rt id e →
    t ∈ (clockAt cs c).timers ∧ (Gone rs' rt id → Gone rs rt id)
  kept : ∀ {c t rt id e}, F rt → t ∈ (clockAt cs c).timers → t.action = .binding rt id e →
    t ∈ (clockAt cs' c).timers ∨ Gone rs' rt id

theorem Still.rfl (rs : Runtimes) (cs : List (Clock Alarm)) : Still F rs rs cs cs :=
  ⟨fun ht _ => ⟨ht, id⟩, fun _ ht _ => .inl ht⟩

theorem Still.trans (h : Still F rs rs' cs cs') (h' : Still F rs' rs'' cs' cs'') (hl : RuntimesLater rs' rs'') :
    Still F rs rs'' cs cs'' where
  old ht ha := by
    obtain ⟨ht, hg'⟩ := h'.old ht ha
    obtain ⟨ht, hg⟩ := h.old ht ha
    exact ⟨ht, fun hgone => hg (hg' hgone)⟩
  kept hF ht ha := by
    rcases h.kept hF ht ha with ht | hgone
    · exact h'.kept hF ht ha
    · exact .inr (hgone.later hl)

/-- Bindings that wait as before have the same timers, if no timer starts. -/
theorem still_of_waits (hb : TimerBooks F rs cs ds) (hb' : TimerBooks F rs' cs' ds')
    (hs : ∀ {rt : Nat} {r : Runtime Script}, rs[rt]? = some r → r.Sound) (hl : RuntimesLater rs rs')
    (sub : ∀ {c t rt id e}, t ∈ (clockAt cs' c).timers → t.action = .binding rt id e → t ∈ (clockAt cs c).timers)
    (waits : ∀ {rt b b'}, Keeps rs rt b → Binds rs' rt b' → b'.id = b.id → b'.waiting = b.waiting)
    (leaves : ∀ {rt b'}, Leaves rs' rt b' → b'.waiting ≠ none → ∃ b, Leaves rs rt b ∧ b.id = b'.id) :
    Still F rs rs' cs cs' where
  old {c t rt id e} ht ha := by
    refine ⟨sub ht ha, fun hgone => ?_⟩
    obtain ⟨b', hkeeps, -, rfl, hw⟩ := hb'.backed ht ha
    rcases keeps_iff.mp hkeeps with hbinds | hleaves
    · exact absurd rfl (hgone.not_binds hbinds)
    · obtain ⟨b, hb, hid⟩ := leaves hleaves (by rw [hw]; exact Option.some_ne_none _)
      rw [← hid]
      refine gone_of_unbound hs hb.keeps fun ⟨r, hr, h₀⟩ => ?_
      obtain ⟨r', hr', h₁⟩ := hb
      cases hr.symm.trans hr'
      exact (hs hr).apart h₀ h₁ rfl
  kept {c t rt id e} hF ht ha := by
    obtain ⟨b, hkeeps, ⟨r, hr, hclock⟩, rfl, hw⟩ := hb.backed ht ha
    obtain ⟨r₀, hr₀, hreach⟩ := id hkeeps
    cases hr.symm.trans hr₀
    obtain ⟨r', hr', hlater⟩ := hl rt r hr
    by_cases hbound : ∃ b' ∈ r'.bindings, b'.id = b.id
    · -- The binding waits for the timer of the same id, which was there before.
      obtain ⟨b', h', hid⟩ := hbound
      have hticks : Ticks rs' rt c := ⟨r', hr', hlater.clock.trans hclock⟩
      have hbinds : Binds rs' rt b' := ⟨r', hr', h'⟩
      have hw' := (waits hkeeps hbinds hid).trans hw
      obtain ⟨u, hu, e'⟩ := hb'.armed hF hbinds hticks hw'
      obtain ⟨ev, ha'⟩ := (hb'.mine hbinds.keeps hticks hw').2 hu e'
      cases Clock.sound_unique (hb.sound c) (sub hu ha') ht e'
      exact .inl hu
    · refine .inr ⟨r', hr', Nat.le_trans ((hs hr).issued hreach) hlater.issued, fun b' h' hid => hbound ⟨b', h', hid⟩⟩

/-- Runtimes whose bindings wait as before. -/
theorem still_alike (hb : TimerBooks F rs cs ds) (hs : ∀ {rt : Nat} {r : Runtime Script}, rs[rt]? = some r → r.Sound)
    (ha : AlikeTables (Alike SameWait) rs rs') (hl : RuntimesLater rs rs') : Still F rs rs' cs cs := by
  refine still_of_waits hb (hb.alike ha) hs hl (fun ht _ => ht) (fun hk hbinds hid => ?_) fun hleaves _ => ?_
  · obtain ⟨b₀, h₀, e⟩ := keeps_of ha hbinds.keeps
    rw [e.2, keeps_unique hs h₀ hk (e.1.id.symm.trans hid)]
  · obtain ⟨b₀, h₀, e⟩ := leaves_of ha hleaves
    exact ⟨b₀, h₀, e.1.id.symm⟩

/-! ## Edits -/

structure Steps (F : Nat → Prop) (h h' : Host) : Prop where
  books : Books F h'
  onward : Onward h h'
  calm : RuntimesCalm h.runtimes h'.runtimes

structure Goes (F : Nat → Prop) (h h' : Host) : Prop extends Steps F h h' where
  still : Still F h.runtimes h'.runtimes h.clocks h'.clocks

theorem Goes.rfl (hb : Books F h) : Goes F h h := ⟨⟨hb, .rfl h, .rfl _⟩, .rfl _ _⟩

theorem Goes.trans (h₁ : Goes F h h') (h₂ : Goes F h' h'') : Goes F h h'' :=
  ⟨⟨h₂.books, h₁.onward.trans h₂.onward, h₁.calm.trans h₂.calm⟩, h₁.still.trans h₂.still h₂.onward.runtimes⟩

/-- An edit of what the books do not read. -/
theorem goes_frame (hb : Books F h) (runtimes : h'.runtimes = h.runtimes) (trackers : h'.trackers = h.trackers)
    (shared : h'.sharedTrackers = h.sharedTrackers) (globals : h'.page.globals = h.page.globals)
    (listeners : h'.page.listeners = h.page.listeners) (clocks : h'.clocks = h.clocks)
    (debouncers : h'.debouncers = h.debouncers) : Goes F h h' where
  books := hb.frame runtimes trackers shared globals listeners clocks debouncers
  onward := ⟨by rw [runtimes]; exact .rfl _, by rw [listeners]; exact .rfl _⟩
  calm := by rw [runtimes]; exact .rfl _
  still := by rw [runtimes, clocks]; exact .rfl _ _

end Eventful.Host
