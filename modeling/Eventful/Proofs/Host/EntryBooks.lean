import Eventful.Proofs.Host.Books

/-
  Eventful.Proofs.Host.EntryBooks — the entries of trackers stay accounted for.

  What a tracker has for the runtime that owns it (`OwnEntries`) depends on that runtime's
  bindings alone, and which trackers are whose (`Places`) on no binding at all; so an edit
  is checked where it happens and carried over everywhere else.
-/

namespace Eventful.Host

open Page Binding

variable {F : Nat → Prop} {rs rs' : Runtimes} {ts ts' : List (Tracker Waiter)} {shared : List Nat} {n n' : Nat}
  {rt k : Nat} {t t' : Tracker Waiter}

/-! ## Places -/

namespace Places

theorem parts (h : Places rs n shared) (hp : AlikeTables SameParts rs rs') : Places rs' n shared where
  place hu := h.place ((uses_iff hp).mp hu)
  alone ho hu := h.alone ((owns_iff hp).mp ho) ((uses_iff hp).mp hu)
  apart ho := h.apart ((owns_iff hp).mp ho)
  shared := h.shared

theorem grow (h : Places rs n shared) (hn : n ≤ n') : Places rs n' shared where
  place hu := Nat.lt_of_lt_of_le (h.place hu) hn
  alone := h.alone
  apart := h.apart
  shared hk := Nat.lt_of_lt_of_le (h.shared hk) hn

/-- A tracker of its own. -/
theorem share (h : Places rs n shared) : Places rs (n + 1) (shared ++ [n]) where
  place hu := Nat.lt_succ_of_lt (h.place hu)
  alone := h.alone
  apart ho hk := by
    rcases List.mem_append.mp hk with hk | hk
    · exact h.apart ho hk
    · have := h.place ho.uses
      rw [List.mem_singleton.mp hk] at this
      omega
  shared {k} hk := by
    rcases List.mem_append.mp hk with hk | hk
    · exact Nat.lt_succ_of_lt (h.shared hk)
    · rw [List.mem_singleton.mp hk]; exact Nat.lt_succ_self n

/-- A runtime with a tracker of its own. -/
theorem addOwner (h : Places rs n shared) {r : Runtime Script} (hr : r.tracker = n) :
    Places (rs ++ [r]) (n + 1) shared where
  place hu := by
    rcases uses_append.mp hu with hu | ⟨-, e⟩
    · exact Nat.lt_succ_of_lt (h.place hu)
    · omega
  alone ho hu := by
    rcases owns_append.mp ho with ho | ⟨e, -, ek⟩ <;> rcases uses_append.mp hu with hu | ⟨e', ek'⟩
    · exact h.alone ho hu
    · have := h.place ho.uses; omega
    · have := h.place hu; omega
    · omega
  apart ho hk := by
    rcases owns_append.mp ho with ho | ⟨-, -, e⟩
    · exact h.apart ho hk
    · have := h.shared hk; omega
  shared hk := Nat.lt_succ_of_lt (h.shared hk)

/-- A runtime with a shared tracker. -/
theorem addUser (h : Places rs n shared) {r : Runtime Script} (hr : r.tracker ∈ shared) (hn : r.ownsTracker = false) :
    Places (rs ++ [r]) n shared := by
  have howns : ∀ {rt k}, Owns (rs ++ [r]) rt k → Owns rs rt k := by
    intro rt k ho
    rcases owns_append.mp ho with ho | ⟨-, ho, -⟩
    · exact ho
    · rw [hn] at ho; cases ho
  constructor
  · intro rt k hu
    rcases uses_append.mp hu with hu | ⟨-, e⟩
    · exact h.place hu
    · exact h.shared (e ▸ hr)
  · intro rt rt' k ho hu
    rcases uses_append.mp hu with hu | ⟨-, e⟩
    · exact h.alone (howns ho) hu
    · exact absurd (e ▸ hr) (h.apart (howns ho))
  · exact fun ho => h.apart (howns ho)
  · exact h.shared

end Places

/-! ## A tracker and its owner -/

namespace OwnEntries

theorem retable (h : OwnEntries rs rt t)
    (back : ∀ {b'}, Binds rs' rt b' → b'.plan.isOutside = true → ∃ b, Binds rs rt b ∧ Same b b')
    (entries : t'.entries = t.entries) (installed : t'.installed = t.installed) : OwnEntries rs' rt t' where
  entered hb ho := by
    obtain ⟨b₀, h₀, e⟩ := back hb ho
    rw [entries, entryOf_congr e]
    exact h.entered h₀ (e.plan ▸ ho)
  mine hw := by
    rw [entries] at hw
    exact h.mine hw
  distinct := entries ▸ h.distinct
  served {w} hw := by
    unfold Tracker.isInstalled
    rw [installed]
    rw [entries] at hw
    exact h.served hw
  names := installed ▸ h.names

/-- Entries go, and the bindings that they were for. -/
theorem filter (h : OwnEntries rs rt t) {p : Entry Waiter → Bool}
    (back : ∀ {b}, Binds rs' rt b → Binds rs rt b)
    (kept : ∀ {b}, Binds rs' rt b → b.plan.isOutside = true → p (entryOf rt b) = true)
    (entries : t'.entries = t.entries.filter p) (installed : t'.installed = t.installed) : OwnEntries rs' rt t' where
  entered hb ho := by
    rw [entries]
    exact List.mem_filter.mpr ⟨h.entered (back hb) ho, kept hb ho⟩
  mine hw := by
    rw [entries] at hw
    exact h.mine (List.mem_filter.mp hw).1
  distinct := by
    rw [entries]
    exact (List.filter_sublist.map _).nodup h.distinct
  served hw := by
    unfold Tracker.isInstalled
    rw [installed]
    rw [entries] at hw
    exact h.served (List.mem_filter.mp hw).1
  names := installed ▸ h.names

theorem empty (none : ∀ {b}, Binds rs rt b → b.plan.isOutside = false) (entries : t.entries = [])
    (names : (t.installed.map (·.1)).Nodup) : OwnEntries rs rt t where
  entered hb ho := by rw [none hb] at ho; cases ho
  mine hw := by rw [entries] at hw; cases hw
  distinct := by rw [entries]; exact List.nodup_nil
  served hw := by rw [entries] at hw; cases hw
  names := names

/-- A new binding is entered, under an event name that is listened for. -/
theorem enter (h : OwnEntries rs rt t) {b : Bound} (back : ∀ {b'}, Binds rs' rt b' → Binds rs rt b' ∨ b' = b)
    (fresh : ∀ {w}, w ∈ t.entries → w.binding ≠ b.id) (entries : t'.entries = t.entries ++ [entryOf rt b])
    (old : ∀ {name}, t.isInstalled name = true → t'.isInstalled name = true)
    (served : t'.isInstalled b.plan.event = true) (names : (t'.installed.map (·.1)).Nodup) :
    OwnEntries rs' rt t' where
  entered hb ho := by
    rw [entries]
    rcases back hb with hb | rfl
    · exact List.mem_append_left _ (h.entered hb ho)
    · exact List.mem_append_right _ List.mem_cons_self
  mine {w} hw := by
    rw [entries] at hw
    rcases List.mem_append.mp hw with hw | hw
    · exact h.mine hw
    · rw [List.mem_singleton.mp hw]
      exact ⟨b.id, rfl⟩
  distinct := by
    rw [entries, List.map_append, List.nodup_append]
    refine ⟨h.distinct, by simp, fun x hx y hy e => ?_⟩
    obtain ⟨w, hw, rfl⟩ := List.mem_map.mp hx
    simp only [List.map_cons, List.map_nil, List.mem_singleton] at hy
    exact fresh hw (e.trans hy)
  served {w} hw := by
    rw [entries] at hw
    rcases List.mem_append.mp hw with hw | hw
    · exact old (h.served hw)
    · rw [List.mem_singleton.mp hw]
      exact served
  names := names

end OwnEntries

/-! ## The books -/

namespace EntryBooks

theorem alike (h : EntryBooks F rs ts shared) (ha : AlikeTables (AlikeBound Same) rs rs') :
    EntryBooks F rs' ts shared := by
  have hp : AlikeTables SameParts rs rs' := ha.mono fun _ _ => alikeBound_parts
  refine ⟨fun hw e => ?_, fun hF ho => ?_, fun hn => h.held (needs_of hp hn), h.places.parts hp⟩
  · obtain ⟨b, hb, hu, hout, rfl⟩ := h.backed hw e
    obtain ⟨b', hb', e'⟩ := binds_to ha hb
    exact ⟨b', hb', (uses_iff hp).mpr hu, by rw [e'.plan]; exact hout, (entryOf_congr e').symm⟩
  · exact (h.own hF ((owns_iff hp).mp ho)).retable (fun hb _ => binds_of ha hb) rfl rfl

/-- Walks begin and end; a tracker that nobody needs may lose its entries. -/
theorem walk (h : EntryBooks F rs ts shared)
    (hs : ∀ {rt : Nat} {r : Runtime Script}, rs[rt]? = some r → r.Sound)
    (length : ts'.length = ts.length)
    (entries : ∀ k, (trackerAt ts' k).entries = (trackerAt ts k).entries ∨
      ((trackerAt ts' k).entries = [] ∧ ∀ rt, ¬Needs rs rt k))
    (installed : ∀ k, (trackerAt ts' k).installed = (trackerAt ts k).installed)
    (held : ∀ k, (∃ rt, Needs rs rt k) → (trackerAt ts' k).held = (trackerAt ts k).held) :
    EntryBooks F rs ts' shared := by
  refine ⟨fun {k w rt id} hw e => ?_, fun {rt k} hF ho => ?_, fun {rt k} hn => ?_, by rw [length]; exact h.places⟩
  · rcases entries k with he | ⟨he, -⟩
    · rw [he] at hw; exact h.backed hw e
    · rw [he] at hw; cases hw
  · rcases entries k with he | ⟨he, hn⟩
    · exact (h.own hF ho).retable (fun hb _ => ⟨_, hb, .rfl⟩) he (installed k)
    · -- Only a runtime that ended lets go of its tracker, and it has no bindings.
      refine .empty (fun {b} hb => ?_) he (installed k ▸ (h.own hF ho).names)
      obtain ⟨r, hr, howns, rfl⟩ := ho
      obtain ⟨r', hr', hb⟩ := hb
      cases hr.symm.trans hr'
      by_cases hend : r.status = .ended
      · rw [((hs hr).ended hend).1] at hb; cases hb
      · exact absurd ⟨r, hr, howns, rfl, hend⟩ (hn rt)
  · rw [held k ⟨rt, hn⟩]; exact h.held hn

/-- Trackers change that no runtime of `F` owns. -/
theorem foreign (h : EntryBooks F rs ts shared) (length : ts.length ≤ ts'.length)
    (same : ∀ {rt k}, F rt → Owns rs rt k → trackerAt ts' k = trackerAt ts k)
    (backed : ∀ {k w rt id}, w ∈ (trackerAt ts' k).entries → w.action = .binding rt id → w ∈ (trackerAt ts k).entries)
    (held : ∀ k, (trackerAt ts' k).held = (trackerAt ts k).held) : EntryBooks F rs ts' shared where
  backed hw e := h.backed (backed hw e) e
  own hF ho := by rw [same hF ho]; exact h.own hF ho
  held hn := by rw [held]; exact h.held hn
  places := h.places.grow length

/-- A tracker is reset that has nothing to keep. -/
theorem reset (h : EntryBooks F rs ts shared) (length : ts'.length = ts.length)
    (same : ∀ {k'}, k' ≠ k → trackerAt ts' k' = trackerAt ts k')
    (one : trackerAt ts' k = (trackerAt ts k).reset)
    (none : ∀ {rt b}, F rt → Owns rs rt k → Binds rs rt b → b.plan.isOutside = false) :
    EntryBooks F rs ts' shared := by
  refine ⟨fun {k' w rt id} hw e => ?_, fun {rt k'} hF ho => ?_, fun {rt k'} hn => ?_, by rw [length]; exact h.places⟩
  · by_cases hk : k' = k
    · subst hk; rw [one] at hw; cases hw
    · rw [same hk] at hw; exact h.backed hw e
  · by_cases hk : k' = k
    · subst hk; rw [one]; exact .empty (none hF ho) rfl List.nodup_nil
    · rw [same hk]; exact h.own hF ho
  · by_cases hk : k' = k
    · subst hk; rw [one]; exact h.held hn
    · rw [same hk]; exact h.held hn

/-! ## Binding and unbinding -/

theorem bindInside (h : EntryBooks F rs ts shared) {r : Runtime Script} (hr : rs[rt]? = some r) {b : Bound}
    (hin : b.plan.isOutside = false) : EntryBooks F (rs.modify rt (·.with1 b)) ts shared := by
  have hp := with1_parts rs rt b
  refine ⟨fun hw e => ?_, fun hF ho => ?_, fun hn => h.held (needs_of hp hn), h.places.parts hp⟩
  · obtain ⟨b', hb', hu, hout, e'⟩ := h.backed hw e
    exact ⟨b', (binds_with1 hr).mpr (.inl hb'), (uses_iff hp).mpr hu, hout, e'⟩
  · refine (h.own hF ((owns_iff hp).mp ho)).retable (fun {b'} hb hout => ?_) rfl rfl
    rcases (binds_with1 hr).mp hb with hb | ⟨rfl, rfl⟩
    · exact ⟨b', hb, .rfl⟩
    · rw [hin] at hout; cases hout

theorem bindOutside (h : EntryBooks F rs ts shared) {r : Runtime Script} (hr : rs[rt]? = some r) (hs : r.Sound)
    {b : Bound} (hout : b.plan.isOutside = true) (hid : b.id = r.lastId + 1) (length : ts'.length = ts.length)
    (same : ∀ {k}, k ≠ r.tracker → trackerAt ts' k = trackerAt ts k)
    (entries : (trackerAt ts' r.tracker).entries = (trackerAt ts r.tracker).entries ++ [entryOf rt b])
    (held : (trackerAt ts' r.tracker).held = (trackerAt ts r.tracker).held)
    (old : ∀ {name}, (trackerAt ts r.tracker).isInstalled name = true →
      (trackerAt ts' r.tracker).isInstalled name = true)
    (served : (trackerAt ts' r.tracker).isInstalled b.plan.event = true)
    (names : ((trackerAt ts r.tracker).installed.map (·.1)).Nodup →
      ((trackerAt ts' r.tracker).installed.map (·.1)).Nodup) :
    EntryBooks F (rs.modify rt (·.with1 b)) ts' shared := by
  have hp := with1_parts rs rt b
  have hold : ∀ {k w rt' id}, w ∈ (trackerAt ts k).entries → w.action = .binding rt' id →
      ∃ b', Binds (rs.modify rt (·.with1 b)) rt' b' ∧ Uses (rs.modify rt (·.with1 b)) rt' k ∧
        b'.plan.isOutside = true ∧ w = entryOf rt' b' := by
    intro k w rt' id hw e
    obtain ⟨b', hb', hu, hout, e'⟩ := h.backed hw e
    exact ⟨b', (binds_with1 hr).mpr (.inl hb'), (uses_iff hp).mpr hu, hout, e'⟩
  refine ⟨fun {k w rt' id} hw e => ?_, fun {rt' k} hF ho => ?_, fun {rt' k} hn => ?_,
    by rw [length]; exact h.places.parts hp⟩
  · by_cases hk : k = r.tracker
    · subst hk
      rw [entries] at hw
      rcases List.mem_append.mp hw with hw | hw
      · exact hold hw e
      · rw [List.mem_singleton.mp hw] at e ⊢
        simp only [entryOf, Waiter.binding.injEq] at e
        obtain ⟨rfl, -⟩ := e
        exact ⟨b, (binds_with1 hr).mpr (.inr ⟨rfl, rfl⟩), (uses_iff hp).mpr ⟨r, hr, rfl⟩, hout, rfl⟩
    · rw [same hk] at hw; exact hold hw e
  · have ho₀ := (owns_iff hp).mp ho
    have hown := h.own hF ho₀
    by_cases hk : k = r.tracker
    · subst hk
      have hrt : rt = rt' := h.places.alone ho₀ ⟨r, hr, rfl⟩
      subst hrt
      refine hown.enter (fun hb => ((binds_with1 hr).mp hb).imp_right And.right) (fun {w} hw e => ?_) entries old served
        (names hown.names)
      obtain ⟨id, ha⟩ := hown.mine hw
      obtain ⟨b', ⟨r', hr', hb'⟩, -, -, rfl⟩ := h.backed hw ha
      cases hr.symm.trans hr'
      have := hs.issued (.inl hb')
      simp only [entryOf] at e
      omega
    · rw [same hk]
      refine hown.retable (fun {b'} hb _ => ?_) rfl rfl
      rcases (binds_with1 hr).mp hb with hb | ⟨rfl, rfl⟩
      · exact ⟨b', hb, .rfl⟩
      · exact absurd (ho₀.uses.unique ⟨r, hr, rfl⟩) hk
  · by_cases hk : k = r.tracker
    · subst hk; rw [held]; exact h.held (needs_of hp hn)
    · rw [same hk]; exact h.held (needs_of hp hn)

/-- Bindings of one runtime go with their entries. -/
theorem unbind (h : EntryBooks F rs ts shared) (gone : Bound → Prop) {p : Entry Waiter → Bool}
    (hparts : AlikeTables SameParts rs rs') (hk : Uses rs rt k)
    (binds : ∀ {rt' b}, Binds rs' rt' b ↔ Binds rs rt' b ∧ ¬(rt' = rt ∧ gone b))
    (hid : ∀ {b b'}, Binds rs rt b → gone b → Binds rs rt b' → b'.id = b.id → gone b')
    (hgone : ∀ {w}, p w = false ↔ ∃ b, Binds rs rt b ∧ gone b ∧ b.plan.isOutside = true ∧ b.id = w.binding)
    (length : ts'.length = ts.length) (same : ∀ {k'}, k' ≠ k → trackerAt ts' k' = trackerAt ts k')
    (one : trackerAt ts' k = { trackerAt ts k with entries := (trackerAt ts k).entries.filter p }) :
    EntryBooks F rs' ts' shared := by
  have hsub : ∀ {k' w}, w ∈ (trackerAt ts' k').entries → w ∈ (trackerAt ts k').entries ∧ (k' = k → p w = true) := by
    intro k' w hw
    by_cases hkk : k' = k
    · subst hkk
      rw [one] at hw
      exact ⟨(List.mem_filter.mp hw).1, fun _ => (List.mem_filter.mp hw).2⟩
    · rw [same hkk] at hw
      exact ⟨hw, fun e => absurd e hkk⟩
  refine ⟨fun {k' w rt' id} hw e => ?_, fun {rt' k'} hF ho => ?_, fun {rt' k'} hn => ?_,
    by rw [length]; exact h.places.parts hparts⟩
  · obtain ⟨hw, hpw⟩ := hsub hw
    obtain ⟨b, hb, hu, hout, rfl⟩ := h.backed hw e
    refine ⟨b, binds.mpr ⟨hb, ?_⟩, (uses_iff hparts).mpr hu, hout, rfl⟩
    intro hg
    obtain ⟨rfl, hg⟩ := hg
    have := hpw (hu.unique hk)
    rw [hgone.mpr ⟨b, hb, hg, hout, rfl⟩] at this
    cases this
  · have ho₀ := (owns_iff hparts).mp ho
    have hown := h.own hF ho₀
    by_cases hkk : k' = k
    · subst hkk
      have hrt : rt = rt' := h.places.alone ho₀ hk
      subst hrt
      refine hown.filter (fun hb => (binds.mp hb).1) (fun {b} hb hout => Bool.of_not_eq_false fun hpw => ?_)
        (by rw [one]) (by rw [one])
      obtain ⟨hb, hng⟩ := binds.mp hb
      obtain ⟨b₀, h₀, hg, -, e⟩ := hgone.mp hpw
      exact hng ⟨rfl, hid h₀ hg hb e.symm⟩
    · rw [same hkk]
      exact hown.retable (fun hb _ => ⟨_, (binds.mp hb).1, .rfl⟩) rfl rfl
  · have hn₀ := h.held (needs_of hparts hn)
    by_cases hkk : k' = k
    · subst hkk; rw [one]; exact hn₀
    · rw [same hkk]; exact hn₀

/-! ## One more runtime or tracker -/

theorem share (h : EntryBooks F rs ts shared) : EntryBooks F rs (ts ++ [.empty]) (shared ++ [ts.length]) where
  backed {k w rt id} hw e := by
    rw [trackerAt_append] at hw
    exact h.backed hw e
  own hF ho := by rw [trackerAt_append]; exact h.own hF ho
  held hn := by rw [trackerAt_append]; exact h.held hn
  places := by rw [List.length_append]; exact h.places.share

theorem addRuntime (h : EntryBooks F rs ts shared) {r : Runtime Script} (hr : r.bindings = [])
    (hts : ∀ k, trackerAt ts' k = trackerAt ts k) (hp : Places (rs ++ [r]) ts'.length shared)
    (fresh : trackerAt ts r.tracker = .empty ∨ r.ownsTracker = false) : EntryBooks F (rs ++ [r]) ts' shared := by
  have hempty : ∀ {rt' k}, (rt' = rs.length ∧ r.ownsTracker = true ∧ r.tracker = k) → trackerAt ts k = .empty := by
    intro rt' k hk
    obtain ⟨-, ho, rfl⟩ := hk
    rcases fresh with he | hn
    · exact he
    · rw [hn] at ho; cases ho
  refine ⟨fun {k w rt id} hw e => ?_, fun {rt k} hF ho => ?_, fun {rt k} hn => ?_, hp⟩
  · rw [hts] at hw
    obtain ⟨b, hb, hu, hout, e'⟩ := h.backed hw e
    exact ⟨b, (binds_append hr).mpr hb, uses_append.mpr (.inl hu), hout, e'⟩
  · rw [hts]
    rcases owns_append.mp ho with ho | hk
    · exact (h.own hF ho).retable (fun hb _ => ⟨_, (binds_append hr).mp hb, .rfl⟩) rfl rfl
    · have he := hempty hk
      rw [he]
      refine .empty (fun {b} hb => ?_) rfl List.nodup_nil
      obtain ⟨r', hr', hb⟩ := (binds_append hr).mp hb
      obtain ⟨hlt, -⟩ := List.getElem?_eq_some_iff.mp hr'
      omega
  · rw [hts]
    obtain ⟨r', hr', ho, e, hs⟩ := hn
    rcases append_eq_some.mp hr' with hr' | ⟨e', rfl⟩
    · exact h.held ⟨r', hr', ho, e, hs⟩
    · rw [hempty ⟨e', ho, e⟩]; rfl

end EntryBooks
end Eventful.Host
