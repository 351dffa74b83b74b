import Eventful.Proofs.Host.Books

/-
  Eventful.Proofs.Host.TimerBooks — the timers of bindings stay accounted for.

  Two edits cover most of what happens: clocks change while the runtimes stay (`clocks`),
  and waits end while no timer starts (`shrink`). Only a binding that starts to wait
  (`arm`) is a case of its own: its old timer goes, its new one has an id that no clock
  gave before.
-/

namespace Eventful.Host

open Page Binding

variable {F : Nat → Prop} {rs rs' : Runtimes} {cs cs' : List (Clock Alarm)} {ds ds' : List Debouncer} {rt c : Nat}

/-- What the bindings of a runtime are known to have together: ids of their own. -/
theorem keeps_unique (hs : ∀ {rt : Nat} {r : Runtime Script}, rs[rt]? = some r → r.Sound) {b b' : Bound}
    (h : Keeps rs rt b) (h' : Keeps rs rt b') (e : b.id = b'.id) : b = b' := by
  obtain ⟨r, hr, hb⟩ := h
  obtain ⟨r', hr', hb'⟩ := h'
  cases hr.symm.trans hr'
  exact (hs hr).unique hb hb' e

namespace TimerBooks

/-- Timers start that are not bindings', and timers go that no binding of `F` waits for. -/
theorem clocks (h : TimerBooks F rs cs ds) (length : cs'.length = cs.length)
    (sound : ∀ c, (clockAt cs' c).Sound) (issued : ∀ c, (clockAt cs c).lastId ≤ (clockAt cs' c).lastId)
    (sub : ∀ {c t}, t ∈ (clockAt cs' c).timers → t ∈ (clockAt cs c).timers ∨
      ((clockAt cs c).lastId < t.id ∧ ∀ rt id e, t.action ≠ .binding rt id e))
    (kept : ∀ {rt c t id e}, F rt → t ∈ (clockAt cs c).timers → t.action = .binding rt id e →
      t ∈ (clockAt cs' c).timers) : TimerBooks F rs cs' ds where
  sound := sound
  backed ht ha := by
    rcases sub ht with ht | ⟨-, hn⟩
    · exact h.backed ht ha
    · exact absurd ha (hn _ _ _)
  mine {rt c b i} hb hc hw := by
    obtain ⟨hle, hm⟩ := h.mine hb hc hw
    refine ⟨Nat.le_trans hle (issued c), fun {t} ht e => ?_⟩
    rcases sub ht with ht | ⟨hlt, -⟩
    · exact hm ht e
    · omega
  debounced := h.debounced
  armed hF hb hc hw := by
    obtain ⟨t, ht, e⟩ := h.armed hF hb hc hw
    obtain ⟨ev, ha⟩ := (h.mine hb.keeps hc hw).2 ht e
    exact ⟨t, kept hF ht ha, e⟩
  left := h.left
  theirs hd hk := by
    obtain ⟨hle, hm⟩ := h.theirs hd hk
    refine ⟨Nat.le_trans hle (issued 0), fun {t} ht e => ?_⟩
    rcases sub ht with ht | ⟨hlt, -⟩
    · exact hm ht e
    · omega
  place hc := by rw [length]; exact h.place hc
  session := by rw [length]; exact h.session

/-- Waits end, and the timers that they were for. -/
theorem shrink (h : TimerBooks F rs cs ds) (hp : AlikeTables SameParts rs rs')
    (keeps : ∀ {rt b' i}, Keeps rs' rt b' → b'.waiting = some i →
      ∃ b, Keeps rs rt b ∧ b.id = b'.id ∧ b.plan = b'.plan ∧ b.waiting = some i)
    (binds : ∀ {rt b' i}, Binds rs' rt b' → b'.waiting = some i →
      ∃ b, Binds rs rt b ∧ b.id = b'.id ∧ b.waiting = some i)
    (left : ∀ {rt k b}, F rt → Owns rs rt k → Leaves rs' rt b → b.waiting = none)
    (length : cs'.length = cs.length) (sound : ∀ c, (clockAt cs' c).Sound)
    (issued : ∀ c, (clockAt cs' c).lastId = (clockAt cs c).lastId)
    (sub : ∀ {c t}, t ∈ (clockAt cs' c).timers → t ∈ (clockAt cs c).timers)
    (backed : ∀ {c t rt b}, t ∈ (clockAt cs' c).timers → Keeps rs rt b → Ticks rs rt c → b.waiting = some t.id →
      ∃ b', Keeps rs' rt b' ∧ b'.id = b.id ∧ b'.waiting = some t.id)
    (kept : ∀ {rt c b t}, F rt → Binds rs' rt b → Ticks rs rt c → b.waiting = some t.id →
      t ∈ (clockAt cs c).timers → t ∈ (clockAt cs' c).timers) : TimerBooks F rs' cs' ds where
  sound := sound
  backed ht ha := by
    obtain ⟨b, hb, hc, rfl, hw⟩ := h.backed (sub ht) ha
    obtain ⟨b', hb', e, hw'⟩ := backed ht hb hc hw
    exact ⟨b', hb', (ticks_iff hp).mpr hc, e, hw'⟩
  mine {rt c b i} hb hc hw := by
    rw [issued]
    obtain ⟨b₀, h₀, e, -, hw₀⟩ := keeps hb hw
    obtain ⟨hle, hm⟩ := h.mine h₀ ((ticks_iff hp).mp hc) hw₀
    exact ⟨hle, fun ht et => e ▸ hm (sub ht) et⟩
  debounced hb hw := by
    obtain ⟨b₀, h₀, -, e, hw₀⟩ := keeps hb hw
    exact e ▸ h.debounced h₀ hw₀
  armed hF hb hc hw := by
    obtain ⟨b₀, h₀, e, hw₀⟩ := binds hb hw
    obtain ⟨t, ht, et⟩ := h.armed hF h₀ ((ticks_iff hp).mp hc) hw₀
    subst et
    exact ⟨t, kept hF hb ((ticks_iff hp).mp hc) hw ht, rfl⟩
  left hF ho hb := left hF ((owns_iff hp).mp ho) hb
  theirs hd hk := by
    rw [issued]
    obtain ⟨hle, hm⟩ := h.theirs hd hk
    exact ⟨hle, fun ht e => hm (sub ht) e⟩
  place hc := by rw [length]; exact h.place ((ticks_iff hp).mp hc)
  session := by rw [length]; exact h.session

/-- Of one clock some timers go; the bindings that waited for them go too, or end their wait. -/
theorem thin (h : TimerBooks F rs cs ds) {p : Timer Alarm → Bool} (hp : AlikeTables SameParts rs rs')
    (keeps : ∀ {rt b' i}, Keeps rs' rt b' → b'.waiting = some i →
      ∃ b, Keeps rs rt b ∧ b.id = b'.id ∧ b.plan = b'.plan ∧ b.waiting = some i)
    (binds : ∀ {rt b' i}, Binds rs' rt b' → b'.waiting = some i →
      ∃ b, Binds rs rt b ∧ b.id = b'.id ∧ b.waiting = some i)
    (left : ∀ {rt k b}, F rt → Owns rs rt k → Leaves rs' rt b → b.waiting = none)
    (length : cs'.length = cs.length) (same : ∀ {c'}, c' ≠ c → clockAt cs' c' = clockAt cs c')
    (sound : (clockAt cs' c).Sound) (issued : (clockAt cs' c).lastId = (clockAt cs c).lastId)
    (timers : (clockAt cs' c).timers = (clockAt cs c).timers.filter p)
    (backed : ∀ {c' t rt b}, (c' = c → p t = true) → Keeps rs rt b → Ticks rs rt c' → b.waiting = some t.id →
      ∃ b', Keeps rs' rt b' ∧ b'.id = b.id ∧ b'.waiting = some t.id)
    (kept : ∀ {rt b t}, F rt → Binds rs' rt b → Ticks rs rt c → b.waiting = some t.id →
      t ∈ (clockAt cs c).timers → p t ≠ false) : TimerBooks F rs' cs' ds := by
  have mem : ∀ {c' t}, t ∈ (clockAt cs' c').timers ↔
      t ∈ (clockAt cs c').timers ∧ (c' = c → p t = true) := by
    intro c' t
    by_cases e : c' = c
    · subst e
      rw [timers, List.mem_filter]
      exact and_congr_right fun _ => ⟨fun hpt _ => hpt, fun hpt => hpt rfl⟩
    · rw [same e]
      exact ⟨fun ht => ⟨ht, fun e' => absurd e' e⟩, And.left⟩
  refine h.shrink hp keeps binds left length ?_ ?_ (fun ht => (mem.mp ht).1) ?_ ?_
  · intro c'
    by_cases e : c' = c
    · exact e ▸ sound
    · rw [same e]; exact h.sound c'
  · intro c'
    by_cases e : c' = c
    · exact e ▸ issued
    · rw [same e]
  · exact fun ht => backed (mem.mp ht).2
  · intro rt c' b t hF hb hc hw ht
    refine mem.mpr ⟨ht, fun e => Bool.of_not_eq_false ?_⟩
    subst e
    exact kept hF hb hc hw ht

/-- A timer is the timer of one binding. -/
theorem waits_alone (h : TimerBooks F rs cs ds) {rt' : Nat} {b b' : Bound} {t : Timer Alarm}
    (ht : t ∈ (clockAt cs c).timers) (hb : Keeps rs rt b) (hc : Ticks rs rt c) (hw : b.waiting = some t.id)
    (hb' : Keeps rs rt' b') (hc' : Ticks rs rt' c) (hw' : b'.waiting = some t.id) : rt' = rt ∧ b'.id = b.id := by
  obtain ⟨e, ha⟩ := (h.mine hb hc hw).2 ht rfl
  obtain ⟨e', ha'⟩ := (h.mine hb' hc' hw').2 ht rfl
  rw [ha] at ha'
  simp only [Alarm.binding.injEq] at ha'
  exact ⟨ha'.1.symm, ha'.2.1.symm⟩

theorem alike (h : TimerBooks F rs cs ds) (ha : AlikeTables (Alike SameWait) rs rs') : TimerBooks F rs' cs ds := by
  refine h.shrink (ha.mono fun _ _ hq => alikeBound_parts hq.toAlikeBound) ?_ ?_ ?_ rfl h.sound (fun _ => rfl) id ?_
    (fun _ _ _ _ ht => ht)
  · intro rt b' i hb hw
    obtain ⟨b, h₀, e⟩ := keeps_of ha hb
    exact ⟨b, h₀, e.1.id.symm, e.1.plan.symm, e.2 ▸ hw⟩
  · intro rt b' i hb hw
    obtain ⟨b, h₀, e⟩ := binds_of (ha.mono fun _ _ hq => hq.toAlikeBound) hb
    exact ⟨b, h₀, e.1.id.symm, e.2 ▸ hw⟩
  · intro rt k b hF ho hb
    obtain ⟨b₀, h₀, e⟩ := leaves_of ha hb
    rw [e.2]
    exact h.left hF ho h₀
  · intro c t rt b _ hb _ hw
    obtain ⟨b', h', e⟩ := keeps_to ha hb
    exact ⟨b', h', e.1.id, e.2.trans hw⟩

theorem debouncers (h : TimerBooks F rs cs ds)
    (hd : ∀ {d : Nat} {k : Debouncer} {i : Nat}, ds'[d]? = some k → k.waiting = some i →
      (∃ (d₀ : Nat) (k₀ : Debouncer), ds[d₀]? = some k₀ ∧ k₀.waiting = some i) ∨
      (i ≤ (clockAt cs 0).lastId ∧
        ∀ {t}, t ∈ (clockAt cs 0).timers → t.id = i → ∃ d e s, t.action = .debouncer d e s)) :
    TimerBooks F rs cs ds' :=
  { h with
    theirs := fun hd' hk => by
      rcases hd hd' hk with ⟨d₀, k₀, h₀, hk₀⟩ | hnew
      · exact h.theirs h₀ hk₀
      · exact hnew }

theorem bind (h : TimerBooks F rs cs ds) {r : Runtime Script} (hr : rs[rt]? = some r) {b : Bound}
    (hw : b.waiting = none) : TimerBooks F (rs.modify rt (·.with1 b)) cs ds := by
  refine h.shrink (with1_parts rs rt b) ?_ ?_ ?_ rfl h.sound (fun _ => rfl) id ?_ (fun _ _ _ _ ht => ht)
  · intro rt' b' i hb hw'
    rcases keeps_iff.mp hb with hb | hb
    · rcases (binds_with1 hr).mp hb with hb | ⟨-, rfl⟩
      · exact ⟨b', hb.keeps, rfl, rfl, hw'⟩
      · rw [hw] at hw'; cases hw'
    · exact ⟨b', (leaves_with1.mp hb).keeps, rfl, rfl, hw'⟩
  · intro rt' b' i hb hw'
    rcases (binds_with1 hr).mp hb with hb | ⟨-, rfl⟩
    · exact ⟨b', hb, rfl, hw'⟩
    · rw [hw] at hw'; cases hw'
  · exact fun hF ho hb => h.left hF ho (leaves_with1.mp hb)
  · intro c t rt' b' _ hb _ hw'
    rcases keeps_iff.mp hb with hb | hb
    · exact ⟨b', ((binds_with1 hr).mpr (.inl hb)).keeps, rfl, hw'⟩
    · exact ⟨b', (leaves_with1.mpr hb).keeps, rfl, hw'⟩

/-- Bindings of one runtime go with their timers. -/
theorem unbind (h : TimerBooks F rs cs ds) (hs : ∀ {rt : Nat} {r : Runtime Script}, rs[rt]? = some r → r.Sound)
    (gone : Bound → Prop) {p : Timer Alarm → Bool} (hparts : AlikeTables SameParts rs rs') (hc : Ticks rs rt c)
    (binds : ∀ {rt' b}, Binds rs' rt' b ↔ Binds rs rt' b ∧ ¬(rt' = rt ∧ gone b))
    (leaves : ∀ {rt' b}, Leaves rs' rt' b → Leaves rs rt' b ∨ b.waiting = none)
    (leaves_of : ∀ {rt' b}, Leaves rs rt' b → Leaves rs' rt' b)
    (hgone : ∀ {t}, p t = false ↔ ∃ b, Binds rs rt b ∧ gone b ∧ b.waiting = some t.id)
    (length : cs'.length = cs.length) (same : ∀ {c'}, c' ≠ c → clockAt cs' c' = clockAt cs c')
    (one : clockAt cs' c = { clockAt cs c with timers := (clockAt cs c).timers.filter p }) :
    TimerBooks F rs' cs' ds := by
  have hof : ∀ {rt' b' i}, Keeps rs' rt' b' → b'.waiting = some i → Keeps rs rt' b' := by
    intro rt' b' i hb hw
    rcases keeps_iff.mp hb with hb | hb
    · exact (binds.mp hb).1.keeps
    · rcases leaves hb with hb | hn
      · exact hb.keeps
      · rw [hn] at hw; cases hw
  refine h.thin hparts (fun hb hw => ⟨_, hof hb hw, rfl, rfl, hw⟩) (fun hb hw => ⟨_, (binds.mp hb).1, rfl, hw⟩) ?_ length
    same (one ▸ (h.sound c).filter p) (by rw [one]) (by rw [one]) ?_ ?_
  · intro rt' k b hF ho hb
    rcases leaves hb with hb | hn
    · exact h.left hF ho hb
    · exact hn
  · intro c' t rt' b hpt hb hc' hw
    rcases keeps_iff.mp hb with hb | hb
    · refine ⟨b, (binds.mpr ⟨hb, fun hg => ?_⟩).keeps, rfl, hw⟩
      obtain ⟨rfl, hg⟩ := hg
      have hpt := hpt (hc'.unique hc)
      rw [hgone.mpr ⟨b, hb, hg, hw⟩] at hpt
      cases hpt
    · exact ⟨b, (leaves_of hb).keeps, rfl, hw⟩
  · intro rt' b t hF hb hc' hw ht hpt
    obtain ⟨b₀, h₀, hg, hw₀⟩ := hgone.mp hpt
    obtain ⟨hb, hng⟩ := binds.mp hb
    -- The timer is the gone binding's, so it is not the other's.
    obtain ⟨rfl, e⟩ := h.waits_alone ht h₀.keeps hc hw₀ hb.keeps hc' hw
    exact hng ⟨rfl, keeps_unique hs hb.keeps h₀.keeps e ▸ hg⟩

/-- The last evaluation of a leaving binding ends: what it may still wait for goes. -/
theorem forget (h : TimerBooks F rs cs ds) (hs : ∀ {rt : Nat} {r : Runtime Script}, rs[rt]? = some r → r.Sound)
    {b : Bound} (hb : Leaves rs rt b) {p : Timer Alarm → Bool} (hc : Ticks rs rt c)
    (hgone : ∀ {t}, p t = false ↔ b.waiting = some t.id) (length : cs'.length = cs.length)
    (same : ∀ {c'}, c' ≠ c → clockAt cs' c' = clockAt cs c')
    (one : clockAt cs' c = { clockAt cs c with timers := (clockAt cs c).timers.filter p }) :
    TimerBooks F (rs.modify rt (·.forget b.id)) cs' ds := by
  have hbinds : ∀ {rt' b'}, Binds (rs.modify rt (·.forget b.id)) rt' b' ↔ Binds rs rt' b' :=
    binds_modify_same (f := (·.forget b.id)) fun _ => .refl _
  refine h.thin (forget_parts rs rt b.id) ?_ (fun hb hw => ⟨_, hbinds.mp hb, rfl, hw⟩)
    (fun hF ho hb => h.left hF ho (leaves_forget.mp hb).1) length same (one ▸ (h.sound c).filter p) (by rw [one])
    (by rw [one]) ?_ ?_
  · intro rt' b' i hb' hw
    rcases keeps_iff.mp hb' with hb' | hb'
    · exact ⟨b', (hbinds.mp hb').keeps, rfl, rfl, hw⟩
    · exact ⟨b', (leaves_forget.mp hb').1.keeps, rfl, rfl, hw⟩
  · intro c' t rt' b' hpt hb' hc' hw
    rcases keeps_iff.mp hb' with hb' | hb'
    · exact ⟨b', (hbinds.mpr hb').keeps, rfl, hw⟩
    · refine ⟨b', (leaves_forget.mpr ⟨hb', fun hid => ?_⟩).keeps, rfl, hw⟩
      obtain ⟨rfl, hid⟩ := hid
      have hpt := hpt (hc'.unique hc)
      cases keeps_unique hs hb'.keeps hb.keeps hid
      rw [hgone.mpr hw] at hpt
      cases hpt
  · intro rt' b' t hF hb' hc' hw ht hpt
    have hb₀ := hbinds.mp hb'
    obtain ⟨rfl, e⟩ := h.waits_alone ht hb.keeps hc (hgone.mp hpt) hb₀.keeps hc' hw
    obtain ⟨r, hr, hl⟩ := hb
    obtain ⟨r', hr', hb'⟩ := hb₀
    cases hr.symm.trans hr'
    exact (hs hr).apart hb' hl e

/-- A binding's timer is taken, and its wait is over. -/
theorem ring (h : TimerBooks F rs cs ds) (hs : ∀ {rt : Nat} {r : Runtime Script}, rs[rt]? = some r → r.Sound)
    {t : Timer Alarm} {k : Clock Alarm} (ht : (clockAt cs c).takeFirst? = some (t, k)) {id : Nat} {e : Page.Event}
    (ha : t.action = .binding rt id e) :
    TimerBooks F (rs.modify rt (·.edit id fun b => { b with waiting := none })) (cs.set c k) ds := by
  obtain ⟨hm, -, hk⟩ := Clock.takeFirst?_eq_some ht
  obtain ⟨b₀, h₀, hc, hid, hw₀⟩ := h.backed hm ha
  have hat : ∀ c', clockAt (cs.set c k) c' = if c = c' then k else clockAt cs c' :=
    fun c' => clockAt_set k c' (h.place hc)
  have hone : clockAt (cs.set c k) c = k := (hat c).trans (if_pos rfl)
  refine h.thin (edit_parts rs rt id _) ?_ ?_ ?_ (by simp) (fun e => (hat _).trans (if_neg fun e' => e e'.symm))
    (by rw [hone]; exact Clock.sound_takeFirst (h.sound c) ht) (by rw [hone, hk]) (by rw [hone, hk]) ?_ ?_
  · intro rt' b' i hb' hw
    obtain ⟨b, hb, rfl⟩ := keeps_edit.mp hb'
    split at hw
    · cases hw
    · rename_i hne
      rw [if_neg hne]
      exact ⟨b, hb, rfl, rfl, hw⟩
  · intro rt' b' i hb' hw
    obtain ⟨b, hb, rfl⟩ := binds_edit.mp hb'
    split at hw
    · cases hw
    · rename_i hne
      rw [if_neg hne]
      exact ⟨b, hb, rfl, hw⟩
  · intro rt' k' b' hF ho hb'
    obtain ⟨b, hb, rfl⟩ := leaves_edit.mp hb'
    split
    · rfl
    · exact h.left hF ho hb
  · intro c' u rt' b hpu hb hc' hw
    refine ⟨_, keeps_edit.mpr ⟨b, hb, rfl⟩, ?_⟩
    have hne : ¬(rt' = rt ∧ b.id = id) := by
      intro hid'
      obtain ⟨rfl, hid'⟩ := hid'
      cases keeps_unique hs hb h₀ (hid'.trans hid.symm)
      rw [hw₀] at hw
      exact bne_iff_ne.mp (hpu (hc'.unique hc)) (Option.some.inj hw).symm
    rw [if_neg hne]
    exact ⟨rfl, hw⟩
  · intro rt' b' u hF hb' hc' hw hu hpu
    obtain ⟨b, hb, rfl⟩ := binds_edit.mp hb'
    have e : u.id = t.id := by simpa using hpu
    split at hw
    · cases hw
    · rename_i hne
      -- The timer that was taken is the binding's own.
      obtain ⟨rfl, e'⟩ := h.waits_alone hm h₀ hc hw₀ hb.keeps hc' (e ▸ hw)
      exact hne ⟨rfl, e'.trans hid⟩

section Restart

variable {k : Clock Alarm} {new : Timer Alarm} {p : Timer Alarm → Bool}

/-- Some timers of a clock go, and one starts. -/
theorem mem_restart (hc : c < cs.length) (htimers : k.timers = (clockAt cs c).timers.filter p ++ [new]) {c' : Nat}
    {t : Timer Alarm} : t ∈ (clockAt (cs.set c k) c').timers ↔
      (t ∈ (clockAt cs c').timers ∧ (c' = c → p t = true)) ∨ (c' = c ∧ t = new) := by
  rw [clockAt_set k c' hc]
  by_cases e : c' = c
  · subst e
    rw [if_pos rfl, htimers, List.mem_append, List.mem_filter, List.mem_singleton]
    simp
  · rw [if_neg fun e' => e e'.symm]
    simp [e]

/-- The timer that starts has an id that its clock gave to none before. -/
theorem bounded_restart (hc : c < cs.length) (htimers : k.timers = (clockAt cs c).timers.filter p ++ [new])
    (hlast : k.lastId = (clockAt cs c).lastId + 1) (hnew : new.id = k.lastId) {c' i : Nat} {P : Timer Alarm → Prop}
    (h : i ≤ (clockAt cs c').lastId ∧ ∀ {t}, t ∈ (clockAt cs c').timers → t.id = i → P t) :
    i ≤ (clockAt (cs.set c k) c').lastId ∧ ∀ {t}, t ∈ (clockAt (cs.set c k) c').timers → t.id = i → P t := by
  obtain ⟨hle, hm⟩ := h
  refine ⟨?_, fun {t} ht et => ?_⟩
  · rw [clockAt_set k c' hc]
    split
    · rename_i e; subst e; omega
    · exact hle
  · rcases (mem_restart hc htimers).mp ht with ⟨ht, -⟩ | ⟨rfl, rfl⟩
    · exact hm ht et
    · omega

end Restart

/-- A binding starts its wait anew. -/
theorem arm (h : TimerBooks F rs cs ds) (hs : ∀ {rt : Nat} {r : Runtime Script}, rs[rt]? = some r → r.Sound)
    {b : Bound} (hb : Keeps rs rt b) (hbound : ∀ {k}, F rt → Owns rs rt k → Binds rs rt b) (hc : Ticks rs rt c)
    (hdebounced : ∃ wait, .debounce wait ∈ b.plan.guards) {k : Clock Alarm} {due : Nat} {e : Page.Event}
    (hk : k.Sound) (hlast : k.lastId = (clockAt cs c).lastId + 1) {p : Timer Alarm → Bool}
    (hp : ∀ {t}, p t = false ↔ b.waiting = some t.id)
    (htimers : k.timers = (clockAt cs c).timers.filter p ++ [⟨k.lastId, due, .binding rt b.id e⟩]) :
    TimerBooks F (rs.modify rt (·.edit b.id fun b => { b with waiting := some k.lastId })) (cs.set c k) ds := by
  have hmem : ∀ {c' t}, t ∈ (clockAt (cs.set c k) c').timers ↔ (t ∈ (clockAt cs c').timers ∧ (c' = c → p t = true)) ∨
      (c' = c ∧ t = ⟨k.lastId, due, .binding rt b.id e⟩) := mem_restart (h.place hc) htimers
  have hid : ∀ {rt' b'}, Keeps rs rt' b' → rt' = rt ∧ b'.id = b.id → rt' = rt ∧ b' = b := by
    intro rt' b' hb' e'
    obtain ⟨rfl, e'⟩ := e'
    exact ⟨rfl, keeps_unique hs hb' hb e'⟩
  have hparts := edit_parts rs rt b.id fun b => { b with waiting := some k.lastId }
  constructor
  · intro c'
    rw [clockAt_set k c' (h.place hc)]
    split
    · exact hk
    · exact h.sound c'
  · intro c' t rt' id ev ht ha
    rcases hmem.mp ht with ⟨ht, hpt⟩ | ⟨rfl, rfl⟩
    · obtain ⟨b', hb', hc', rfl, hw⟩ := h.backed ht ha
      have hne : ¬(rt' = rt ∧ b'.id = b.id) := by
        intro e'
        obtain ⟨rfl, rfl⟩ := hid hb' e'
        have hpt := hpt (hc'.unique hc)
        rw [hp.mpr hw] at hpt
        cases hpt
      exact ⟨b', keeps_edit.mpr ⟨b', hb', (if_neg hne).symm⟩, (ticks_iff hparts).mpr hc', rfl, hw⟩
    · simp only [Alarm.binding.injEq] at ha
      obtain ⟨rfl, rfl, -⟩ := ha
      exact ⟨_, keeps_edit.mpr ⟨b, hb, (if_pos ⟨rfl, rfl⟩).symm⟩, (ticks_iff hparts).mpr hc, rfl, rfl⟩
  · intro rt' c' b' i hb' hc' hw
    have hc₀ := (ticks_iff hparts).mp hc'
    obtain ⟨b₀, h₀, rfl⟩ := keeps_edit.mp hb'
    by_cases e' : rt' = rt ∧ b₀.id = b.id
    · obtain ⟨rfl, rfl⟩ := hid h₀ e'
      cases hc₀.unique hc
      rw [if_pos e'] at hw ⊢
      cases hw
      have hat : clockAt (cs.set c k) c = k := (clockAt_set k c (h.place hc)).trans (if_pos rfl)
      refine ⟨Nat.le_of_eq (congrArg Clock.lastId hat.symm), fun {t} ht et => ?_⟩
      rcases hmem.mp ht with ⟨ht, -⟩ | ⟨-, rfl⟩
      · have := (h.sound _).issued t ht
        omega
      · exact ⟨e, rfl⟩
    · rw [if_neg e'] at hw ⊢
      exact bounded_restart (h.place hc) htimers hlast rfl (h.mine h₀ hc₀ hw)
  · intro rt' b' i hb' hw
    obtain ⟨b₀, h₀, rfl⟩ := keeps_edit.mp hb'
    by_cases e' : rt' = rt ∧ b₀.id = b.id
    · obtain ⟨rfl, rfl⟩ := hid h₀ e'
      rw [if_pos e']
      exact hdebounced
    · rw [if_neg e'] at hw ⊢
      exact h.debounced h₀ hw
  · intro rt' c' b' i hF hb' hc' hw
    have hc₀ := (ticks_iff hparts).mp hc'
    obtain ⟨b₀, h₀, rfl⟩ := binds_edit.mp hb'
    by_cases e' : rt' = rt ∧ b₀.id = b.id
    · obtain ⟨rfl, rfl⟩ := hid h₀.keeps e'
      rw [if_pos e'] at hw
      cases hw
      exact ⟨_, hmem.mpr (.inr ⟨hc₀.unique hc, rfl⟩), rfl⟩
    · rw [if_neg e'] at hw
      obtain ⟨t, ht, rfl⟩ := h.armed hF h₀ hc₀ hw
      refine ⟨t, hmem.mpr (.inl ⟨ht, fun ec => Bool.of_not_eq_false fun hpt => e' ?_⟩), rfl⟩
      subst ec
      exact h.waits_alone ht hb hc (hp.mp hpt) h₀.keeps hc₀ hw
  · intro rt' k' b' hF ho hb'
    have ho₀ := (owns_iff hparts).mp ho
    obtain ⟨b₀, h₀, rfl⟩ := leaves_edit.mp hb'
    by_cases e' : rt' = rt ∧ b₀.id = b.id
    · obtain ⟨rfl, rfl⟩ := hid h₀.keeps e'
      obtain ⟨r, hr, hl⟩ := h₀
      obtain ⟨r', hr', hb''⟩ := hbound hF ho₀
      cases hr.symm.trans hr'
      exact absurd rfl ((hs hr).apart hb'' hl)
    · rw [if_neg e']
      exact h.left hF ho₀ h₀
  · exact fun hd hw => bounded_restart (h.place hc) htimers hlast rfl (h.theirs hd hw)
  · intro rt' c' hc'
    rw [List.length_set]
    exact h.place ((ticks_iff hparts).mp hc')
  · rw [List.length_set]
    exact h.session

theorem addRuntime (h : TimerBooks F rs cs ds) {r : Runtime Script} (hr : r.bindings = []) (hl : r.leaving = [])
    (length : cs.length ≤ cs'.length) (same : ∀ c, clockAt cs' c = clockAt cs c) (place : r.clock < cs'.length) :
    TimerBooks F (rs ++ [r]) cs' ds := by
  have hkeeps : ∀ {rt b}, Keeps (rs ++ [r]) rt b ↔ Keeps rs rt b := by
    intro rt b
    rw [keeps_iff, keeps_iff, binds_append hr, leaves_append hl]
  have hticks : ∀ {rt c b}, Keeps rs rt b → Ticks (rs ++ [r]) rt c → Ticks rs rt c := by
    intro rt c b hb hc
    rcases ticks_append.mp hc with hc | ⟨rfl, -⟩
    · exact hc
    · obtain ⟨r', hr', -⟩ := hb
      obtain ⟨hlt, -⟩ := List.getElem?_eq_some_iff.mp hr'
      omega
  constructor
  · intro c
    rw [same]; exact h.sound c
  · intro c t rt id e ht ha
    rw [same] at ht
    obtain ⟨b, hb, hc, e, hw⟩ := h.backed ht ha
    exact ⟨b, hkeeps.mpr hb, ticks_append.mpr (.inl hc), e, hw⟩
  · intro rt c b i hb hc hw
    rw [same]
    exact h.mine (hkeeps.mp hb) (hticks (hkeeps.mp hb) hc) hw
  · exact fun hb hw => h.debounced (hkeeps.mp hb) hw
  · intro rt c b i hF hb hc hw
    have hb := (binds_append hr).mp hb
    rw [same]
    exact h.armed hF hb (hticks hb.keeps hc) hw
  · intro rt k b hF ho hb
    have hb := (leaves_append hl).mp hb
    rcases owns_append.mp ho with ho | ⟨rfl, -⟩
    · exact h.left hF ho hb
    · obtain ⟨r', hr', -⟩ := hb
      obtain ⟨hlt, -⟩ := List.getElem?_eq_some_iff.mp hr'
      omega
  · intro d k i hd hw
    rw [same]; exact h.theirs hd hw
  · intro rt c hc
    rcases ticks_append.mp hc with hc | ⟨-, rfl⟩
    · exact Nat.lt_of_lt_of_le (h.place hc) length
    · exact place
  · exact Nat.lt_of_lt_of_le h.session length

end TimerBooks
end Eventful.Host
