import Eventful.Proofs.Directive.Keys
import Eventful.Proofs.Text.Casing

/-
  Eventful.Proofs.Directive.Naming — which names a key goes by.

  A key goes by its name in kebab case (`accepts_kebabCase`): that is the canonical name that
  it spells or, if it spells another name's other spelling, the key as it is written.

  Otherwise a key is to go by a name whatever the case of either and however the name is
  spelled. It does so (`variants_accepted`), but where the case of the key says where its words
  begin, or where the key is written as a spelling of the name and the table has it in one case
  only (`Clash`).
-/

namespace Eventful.Directive

open Page

variable {declared declared' key key' name name' : String} {cs ws : List Char} {b : Bool} {x : Char}

/-! ## Kebab case -/

theorem isUpper_of_mem_kebab (hx : x ∈ kebab b cs) : x.isUpper = false := by
  induction cs generalizing b with
  | nil => cases hx
  | cons c cs ih =>
    simp only [kebab, List.append_assoc, List.mem_append] at hx
    rcases hx with hx | hx | hx
    · split at hx
      · rw [List.mem_singleton.mp hx]
        rfl
      · cases hx
    · split at hx
      · rw [List.mem_singleton.mp hx]
        rfl
      · exact Text.isUpper_of_mem_toLower hx
    · exact ih hx

theorem lower_kebabCase (key : String) : Text.lower (kebabCase key) = kebabCase key := by
  unfold Text.lower kebabCase
  rw [String.toList_ofList]
  refine congrArg String.ofList ((List.map_congr_left fun x hx => ?_).trans (List.map_id _))
  exact Char.toLower_eq_of_not_isUpper (Bool.eq_false_iff.mp (isUpper_of_mem_kebab hx))

/-- Without a hyphen there were no words to part. -/
theorem kebab_eq_flatMap (h : '-' ∉ kebab b cs) : kebab b cs = cs.flatMap Text.toLower := by
  induction cs generalizing b with
  | nil => rfl
  | cons c cs ih =>
    simp only [kebab, List.append_assoc, List.mem_append, not_or] at h ⊢
    obtain ⟨hhyphen, hshown, hrest⟩ := h
    have hwords : ¬(Text.isUppercase c && b) = true := fun hwords => hhyphen (by simp [hwords])
    have hunderscore : ¬(c == '_') = true := fun hc => hshown (by simp [hc])
    rw [if_neg hwords, if_neg hunderscore, ih hrest]
    rfl

/-- A key whose kebab name is of letters is that name but for the case. -/
theorem lower_of_kebabCase (h : (kebabCase key).toList.all Text.isSole = true) : Text.lower key = kebabCase key := by
  unfold kebabCase at h ⊢
  rw [String.toList_ofList, List.all_eq_true] at h
  have hkebab := kebab_eq_flatMap fun hmem => nomatch h _ hmem
  rw [hkebab] at h ⊢
  rw [Text.flatMap_toLower h]
  rfl

/-! ## Canonical names -/

theorem canonical_cases (name : String) : canonical name = name ∨ (name, canonical name) ∈ spellings := by
  unfold canonical
  cases h : spellings.lookup name with
  | none => exact .inl rfl
  | some c =>
    obtain ⟨before, after, he, -⟩ := List.lookup_eq_some_iff.mp h
    right
    simp [he]

/-- A key goes by its name in kebab case. -/
theorem accepts_kebabCase (key : String) : accepts (kebabCase key) key = true := by
  have hletters : ∀ p ∈ spellings, p.1.toList.all Text.isSole = true := by decide
  unfold accepts
  rw [lower_kebabCase, Bool.or_eq_true, Bool.or_eq_true, beq_iff_eq]
  rcases canonical_cases (kebabCase key) with h | h
  · exact .inl (.inr h.symm)
  · -- The name stands for another one; but then the key is written as that spelling.
    have hwritten : Text.lower key = kebabCase key := lower_of_kebabCase (hletters (kebabCase key, _) h)
    refine .inr (beq_iff_eq.mpr ?_)
    rw [hwritten, lower_kebabCase]

/-! ## Names that stand for the same -/

/-- The canonical name that a declared name stands for. -/
def nameOf (declared : String) : String := canonical (Text.lower declared)

theorem accepts_iff : accepts declared key = true ↔
    key ∈ aliases declared ∨ kebabCase key = nameOf declared ∨ Text.lower key = Text.lower declared := by
  have haliases : aliases (Text.lower declared) = aliases declared := by
    unfold aliases
    rw [Text.lower_lower]
  unfold accepts Text.eqIgnoringCase
  rw [Bool.or_eq_true, Bool.or_eq_true, List.contains_iff_mem, beq_iff_eq, beq_iff_eq, haliases, Text.lower_lower, or_assoc]
  rfl

theorem aliases_congr (h : nameOf declared = nameOf declared') : aliases declared = aliases declared' := by
  unfold aliases
  rw [show canonical (Text.lower declared) = canonical (Text.lower declared') from h]

theorem canonical_spelling : ∀ p ∈ spellings, canonical p.1 = p.2 := by decide

/-- No spelling of a key's name is that of a modifier key. -/
theorem modifierKey_congr (h : nameOf name = nameOf name') : ModifierKey.ofName? name = ModifierKey.ofName? name' := by
  have hspellings : ∀ p ∈ spellings, ModifierKey.ofName? p.1 = none ∧ ModifierKey.ofName? p.2 = none := by decide
  have hlower (name : String) : ModifierKey.ofName? (Text.lower name) = ModifierKey.ofName? name := by
    unfold ModifierKey.ofName?
    rw [Text.lower_lower]
  rw [← hlower name, ← hlower name']
  unfold nameOf at h
  rcases canonical_cases (Text.lower name) with hn | hn <;> rcases canonical_cases (Text.lower name') with hn' | hn'
  · rw [← hn, ← hn', h]
  · rw [(hspellings _ hn').1, ← hn, h, (hspellings _ hn').2]
  · rw [(hspellings _ hn).1, ← hn', ← h, (hspellings _ hn).2]
  · rw [(hspellings _ hn).1, (hspellings _ hn').1]

/-! ## Keys in another case -/

/-- A text without letters has no other case. -/
theorem eq_of_lower_eq {s t : String} (hs : s.toList.all (!·.isAlpha) = true) (h : Text.lower t = Text.lower s) : t = s := by
  have hmap : t.toList.map Char.toLower = s.toList.map Char.toLower := String.ofList_injective h
  have hfixed (c : Char) (hc : c.isAlpha = false) : c.toLower = c :=
    Char.toLower_eq_of_not_isUpper fun hupper => by
      rw [Char.isAlpha, hupper] at hc
      cases hc
  have hother (c d : Char) (hc : c.isAlpha = false) (he : d.toLower = c.toLower) : d = c := by
    rw [hfixed c hc] at he
    have hd : d.isAlpha = false := by rw [← Char.isAlpha_toLower_eq_isAlpha, he, hc]
    rw [← hfixed d hd, he]
  refine String.toList_injective ?_
  generalize s.toList = cs at hs hmap
  generalize t.toList = ds at hmap
  induction ds generalizing cs with
  | nil => simpa using hmap.symm
  | cons d ds ih =>
    cases cs with
    | nil => cases hmap
    | cons c cs =>
      simp only [List.all_cons, Bool.and_eq_true, Bool.not_eq_true', List.map_cons, List.cons.injEq] at hs hmap
      rw [hother c d hs.1 hmap.1, ih cs hs.2 hmap.2]

/-- What the table lists under a name is the name's words, another spelling of the name, or has
    no letters. -/
theorem keysOfName_cases : ∀ p ∈ keysOfName, ∀ key ∈ p.2,
    kebabCase key = p.1 ∨ (Text.lower key, p.1) ∈ spellings ∨ key.toList.all (!·.isAlpha) = true := by
  decide +kernel

theorem alias_cases (hlisted : key ∈ aliases declared) (hkey : Text.lower key = Text.lower key') :
    kebabCase key = nameOf declared ∨ (Text.lower key, nameOf declared) ∈ spellings ∨ key' = key := by
  unfold aliases at hlisted
  cases hlookup : keysOfName.lookup (canonical (Text.lower declared)) with
  | none =>
    rw [hlookup] at hlisted
    cases hlisted
  | some keys =>
    rw [hlookup] at hlisted
    obtain ⟨before, after, he, -⟩ := List.lookup_eq_some_iff.mp hlookup
    have hmem : (nameOf declared, keys) ∈ keysOfName := by
      rw [he]
      exact List.mem_append_right before List.mem_cons_self
    exact (keysOfName_cases _ hmem key hlisted).imp_right (Or.imp_right fun h => eq_of_lower_eq h hkey.symm)

/-- In kebab case letters are the letters, with hyphens between. -/
theorem filter_kebab (hcs : ∀ c ∈ cs, c.isAlpha = true) : (kebab b cs).filter (· != '-') = cs.map Char.toLower := by
  induction cs generalizing b with
  | nil => rfl
  | cons c cs ih =>
    obtain ⟨hc, hcs⟩ := List.forall_mem_cons.mp hcs
    have hlower : c.toLower.isLower = true := by rw [Char.isLower_toLower_eq_isAlpha, hc]
    have hsmall : Text.toLower c = [c.toLower] := by rw [← Text.toLower_toLower, Text.toLower_small hlower]
    have hunderscore : ¬(c == '_') = true := fun he => by
      rw [beq_iff_eq.mp he] at hc
      cases hc
    have hhyphen : (c.toLower != '-') = true := bne_iff_ne.mpr fun he => by
      rw [he] at hlower
      cases hlower
    rw [kebab, if_neg hunderscore, hsmall, List.filter_append, List.filter_append, ih hcs]
    split <;> simp [hhyphen]

/-- A key that is written as another spelling of a name does not spell the name. -/
theorem kebabCase_ne (h : (Text.lower key, name) ∈ spellings) : kebabCase key ≠ name := by
  have hspellings : ∀ p ∈ spellings, p.1.toList.all Char.isLower = true ∧ p.2.toList.filter (· != '-') ≠ p.1.toList := by
    decide
  obtain ⟨hlower, hne⟩ := hspellings _ h
  rintro rfl
  refine hne ?_
  unfold Text.lower at hlower
  rw [String.toList_ofList, List.all_map, List.all_eq_true] at hlower
  unfold kebabCase Text.lower
  rw [String.toList_ofList, String.toList_ofList, filter_kebab fun c hc => ?_]
  rw [← Char.isLower_toLower_eq_isAlpha]
  exact hlower c hc

/-- Why a key goes by a name, and in another case or by another spelling of the name does not. -/
inductive Clash (declared key declared' key' : String) : Prop where
  /-- The case of the key parts it into the words of the name; the other case does not. -/
  | words (h : kebabCase key = nameOf declared) (hwords : kebabCase key' ≠ nameOf declared')
      (hwritten : Text.lower key' ≠ Text.lower declared')
  /-- The key is a spelling of the name, and either the one declared or listed in this case. -/
  | spelling (hs : nameOf key = nameOf declared) (h : Text.lower key = Text.lower declared ∨ key ∈ aliases declared)
      (hwords : kebabCase key' ≠ nameOf declared') (hwritten : Text.lower key' ≠ Text.lower declared')
      (hlisted : key' ∉ aliases declared')

theorem clash_iff (hname : nameOf declared = nameOf declared') (hkey : Text.lower key = Text.lower key') :
    Clash declared key declared' key' ↔ accepts declared key = true ∧ ¬accepts declared' key' = true := by
  rw [accepts_iff, accepts_iff, not_or, not_or]
  constructor
  · rintro (⟨h, hwords, hwritten⟩ | ⟨-, h, hwords, hwritten, hlisted⟩)
    · refine ⟨.inr (.inl h), fun hlisted => ?_, hwords, hwritten⟩
      rcases alias_cases hlisted hkey.symm with h' | h' | rfl
      · exact hwords h'
      · exact kebabCase_ne (hkey ▸ h') (h.trans hname)
      · exact hwords (h.trans hname)
    · exact ⟨h.elim (fun h => .inr (.inr h)) .inl, hlisted, hwords, hwritten⟩
  · rintro ⟨h | h | h, hlisted, hwords, hwritten⟩
    · rcases alias_cases h hkey with h' | h' | rfl
      · exact .words h' hwords hwritten
      · exact .spelling (canonical_spelling _ h') (.inr h) hwords hwritten hlisted
      · exact absurd (aliases_congr hname ▸ h) hlisted
    · exact .words h hwords hwritten
    · exact .spelling (congrArg canonical h) (.inl h) hwords hwritten hlisted

theorem accepts_congr (hname : nameOf declared = nameOf declared') (hkey : Text.lower key = Text.lower key') :
    accepts declared key = accepts declared' key' ↔ ¬Clash declared key declared' key' ∧ ¬Clash declared' key' declared key := by
  rw [clash_iff hname hkey, clash_iff hname.symm hkey.symm]
  cases accepts declared key <;> cases accepts declared' key' <;> simp

/-! ## Filters -/

/-- The names stand for the same, and the keys of the events clash by neither. -/
structure Matched (e e' : Event) (name name' : String) : Prop where
  alike : nameOf name = nameOf name'
  unclashing : ∀ key key', e.key? = some key → e'.key? = some key' →
    ¬Clash name key name' key' ∧ ¬Clash name' key' name key

theorem Matched.symm {e e' : Event} (h : Matched e e' name name') : Matched e' e name' name :=
  ⟨h.alike.symm, fun key' key hkey' hkey => (h.unclashing key key' hkey hkey').symm⟩

theorem wants_matched {names names' : List String} {e e' : Event} (hheld : e.held = e'.held)
    (hkey : e.key?.map Text.lower = e'.key?.map Text.lower) (hto : ∀ name ∈ names, ∃ name' ∈ names', Matched e e' name name')
    (hfrom : ∀ name' ∈ names', ∃ name ∈ names, Matched e e' name name') (h : Wants names e) : Wants names' e' where
  held name' hname' m hm := by
    obtain ⟨name, hname, hmatched⟩ := hfrom name' hname'
    rw [← hheld]
    exact h.held name hname m (modifierKey_congr hmatched.alike ▸ hm)
  key key' he' := by
    rintro ⟨other', hother', hplain'⟩
    obtain ⟨other, hother, hmatched⟩ := hfrom other' hother'
    obtain ⟨key, he⟩ : ∃ key, e.key? = some key := by
      cases he : e.key? with
      | some key => exact ⟨key, rfl⟩
      | none =>
        rw [he, he'] at hkey
        cases hkey
    have hlower : Text.lower key = Text.lower key' := by
      rw [he, he'] at hkey
      exact Option.some.inj hkey
    obtain ⟨name, hname, hplain, haccepts⟩ := h.key key he ⟨other, hother, modifierKey_congr hmatched.alike ▸ hplain'⟩
    obtain ⟨name', hname', hmatched'⟩ := hto name hname
    refine ⟨name', hname', modifierKey_congr hmatched'.alike ▸ hplain, ?_⟩
    rw [← (accepts_congr hmatched'.alike hlower).mpr (hmatched'.unclashing key key' he he')]
    exact haccepts

/-- A key in any case goes by a name in any case and spelling, or by none of these, unless two
    of them clash. So a filter passes an event whatever the case of its key and the case and
    spelling of its names, unless they clash. -/
theorem variants_accepted (hname : nameOf declared = nameOf declared') (hkey : Text.lower key = Text.lower key') :
    (accepts declared key = accepts declared' key' ↔
        ¬Clash declared key declared' key' ∧ ¬Clash declared' key' declared key) ∧
      ∀ (names names' : List String) (e e' : Event), e.held = e'.held → e.key?.map Text.lower = e'.key?.map Text.lower →
        (∀ name ∈ names, ∃ name' ∈ names', Matched e e' name name') →
        (∀ name' ∈ names', ∃ name ∈ names, Matched e e' name name') →
        (KeyFilter.ofNames names).passes e = (KeyFilter.ofNames names').passes e' := by
  refine ⟨accepts_congr hname hkey, fun names names' e e' hheld hkeys hto hfrom => ?_⟩
  rw [Bool.eq_iff_iff, KeyFilter.passes_ofNames, KeyFilter.passes_ofNames]
  constructor
  · exact wants_matched hheld hkeys hto hfrom
  · refine wants_matched hheld.symm hkeys.symm (fun name' hname' => ?_) fun name hname => ?_
    · obtain ⟨name, hname, h⟩ := hfrom name' hname'
      exact ⟨name, hname, h.symm⟩
    · obtain ⟨name', hname', h⟩ := hto name hname
      exact ⟨name', hname', h.symm⟩

/-- A keyboard event with a key, and command held. -/
def chord (key : String) : Event := .keyDown ⟨key, "", ⟨false, false, false, true⟩, false⟩

theorem upCommand_accepted :
    nameOf "UP" = nameOf "Arrow-Up" ∧ Text.lower "ArrowUp" = Text.lower "arrowUp" ∧
    (chord "ArrowUp").held = (chord "arrowUp").held ∧
    (chord "ArrowUp").key?.map Text.lower = (chord "arrowUp").key?.map Text.lower ∧
    (KeyFilter.ofNames ["UP", "cmd"]).passes (chord "ArrowUp") =
      (KeyFilter.ofNames ["cmd", "Arrow-Up"]).passes (chord "arrowUp") := by
  have hname : nameOf "UP" = nameOf "Arrow-Up" := by decide
  have hkey : Text.lower "ArrowUp" = Text.lower "arrowUp" := by decide
  have hup : Matched (chord "ArrowUp") (chord "arrowUp") "UP" "Arrow-Up" := by
    refine ⟨hname, ?_⟩
    rintro _ _ ⟨⟩ ⟨⟩
    exact (variants_accepted hname hkey).1.mp (by decide +kernel)
  have hcommand : Matched (chord "ArrowUp") (chord "arrowUp") "cmd" "cmd" := by
    refine ⟨rfl, ?_⟩
    rintro _ _ ⟨⟩ ⟨⟩
    exact (variants_accepted rfl hkey).1.mp (by decide +kernel)
  refine ⟨hname, hkey, rfl, by decide, (variants_accepted hname hkey).2 _ _ _ _ rfl (by decide) ?_ ?_⟩
  · simp [hup, hcommand]
  · simp [hup, hcommand]

/-- Neither the key in capitals nor the other spelling of the name says the same. -/
theorem pageDown_capitals :
    Text.lower "PAGEDOWN" = Text.lower "PageDown" ∧
    accepts "page-down" "PageDown" = true ∧ accepts "page-down" "PAGEDOWN" = false ∧
    nameOf "return" = nameOf "enter" ∧ accepts "return" "Return" = true ∧ accepts "enter" "Return" = false := by
  decide +kernel

end Eventful.Directive
