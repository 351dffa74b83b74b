import Eventful.Proofs.Page.Tree

/-
  Eventful.Proofs.Page.Relinking — a node is taken off, put under another, or made.

  An edit is known by what can be read after it: `Cut` off its parent, `Hung` under
  another, `Grown` as a new one. That such an edit keeps the tree sound is said of the
  readings alone; the links that the edit sets are looked at only to show what is read.
-/

namespace Eventful.Page.Tree

variable {t t' : Tree} {n m p x : NodeId} {ns as : List NodeId} {read : Links → Option NodeId} {f : Links → Links}

/-! ## Relinking -/

theorem links?_relink : (t.relink n f).links? m = if m = n then (t.links? m).map f else t.links? m := by
  simp only [links?, get?, relink, update, List.getElem?_modify, Option.map_eq_map]
  by_cases h : m = n
  · subst h
    simp only [if_true, Option.map_map, Function.comp_def]
  · simp only [if_neg h, if_neg (Ne.symm h), Option.map_id']

/-- A link that is left alone. -/
theorem read_relink (hf : ∀ l, read (f l) = read l) :
    ((t.relink n f).links? m).bind read = (t.links? m).bind read := by
  rw [links?_relink]
  split
  · rw [Option.bind_map]
    exact congrArg _ (funext hf)
  · rfl

/-- A link that is set. -/
theorem read_relink_set {v : Option NodeId} (hn : t.has n = true) (hf : ∀ l, read (f l) = v) :
    ((t.relink n f).links? m).bind read = if m = n then v else (t.links? m).bind read := by
  rw [links?_relink]
  split
  · rename_i e
    subst e
    cases hl : t.links? m with
    | none => exact absurd (links?_eq_none.mp hl) (by rw [hn]; decide)
    | some l => exact hf l
  · rfl

@[simp] theorem has_relink : (t.relink n f).has m = t.has m := by
  rw [Bool.eq_iff_iff, has_iff, has_iff]
  simp [size, relink, update]

variable {before after v : Option NodeId}

@[simp] theorem has_setNext : (t.setNext p before v).has x = t.has x := by
  unfold setNext; split <;> exact has_relink

@[simp] theorem has_setPrevious : (t.setPrevious p after v).has x = t.has x := by
  unfold setPrevious; split <;> exact has_relink

@[simp] theorem parent?_setNext : (t.setNext p before v).parent? x = t.parent? x := by
  unfold setNext; split <;> exact read_relink fun _ => rfl

@[simp] theorem parent?_setPrevious : (t.setPrevious p after v).parent? x = t.parent? x := by
  unfold setPrevious; split <;> exact read_relink fun _ => rfl

@[simp] theorem lastChild?_setNext : (t.setNext p before v).lastChild? x = t.lastChild? x := by
  unfold setNext; split <;> exact read_relink fun _ => rfl

@[simp] theorem firstChild?_setPrevious : (t.setPrevious p after v).firstChild? x = t.firstChild? x := by
  unfold setPrevious; split <;> exact read_relink fun _ => rfl

@[simp] theorem previousSibling?_setNext : (t.setNext p before v).previousSibling? x = t.previousSibling? x := by
  unfold setNext; split <;> exact read_relink fun _ => rfl

@[simp] theorem nextSibling?_setPrevious : (t.setPrevious p after v).nextSibling? x = t.nextSibling? x := by
  unfold setPrevious; split <;> exact read_relink fun _ => rfl

theorem firstChild?_setNext (hp : t.has p = true) :
    (t.setNext p before v).firstChild? x = if before = none ∧ x = p then v else t.firstChild? x := by
  cases before with
  | none => exact Eq.trans (read_relink_set hp fun _ => rfl) (by simp [firstChild?])
  | some q => exact Eq.trans (read_relink fun _ => rfl) (by simp [firstChild?])

theorem nextSibling?_setNext (hq : ∀ q, before = some q → t.has q = true) :
    (t.setNext p before v).nextSibling? x = if before = some x then v else t.nextSibling? x := by
  cases before with
  | none => exact Eq.trans (read_relink fun _ => rfl) (by simp [nextSibling?])
  | some q => exact Eq.trans (read_relink_set (hq q rfl) fun _ => rfl) (by simp [nextSibling?, eq_comm])

theorem lastChild?_setPrevious (hp : t.has p = true) :
    (t.setPrevious p after v).lastChild? x = if after = none ∧ x = p then v else t.lastChild? x := by
  cases after with
  | none => exact Eq.trans (read_relink_set hp fun _ => rfl) (by simp [lastChild?])
  | some q => exact Eq.trans (read_relink fun _ => rfl) (by simp [lastChild?])

theorem previousSibling?_setPrevious (hq : ∀ q, after = some q → t.has q = true) :
    (t.setPrevious p after v).previousSibling? x = if after = some x then v else t.previousSibling? x := by
  cases after with
  | none => exact Eq.trans (read_relink fun _ => rfl) (by simp [previousSibling?])
  | some q => exact Eq.trans (read_relink_set (hq q rfl) fun _ => rfl) (by simp [previousSibling?, eq_comm])

/-! ## A node is taken off its parent -/

/-- What is read after `n` was taken off `p`. -/
structure Cut (t t' : Tree) (p n : NodeId) : Prop where
  has : ∀ x, t'.has x = t.has x
  parent : ∀ x, t'.parent? x = if x = n then none else t.parent? x
  first : ∀ x, t'.firstChild? x = if t.previousSibling? n = none ∧ x = p then t.nextSibling? n else t.firstChild? x
  last : ∀ x, t'.lastChild? x = if t.nextSibling? n = none ∧ x = p then t.previousSibling? n else t.lastChild? x
  next : ∀ x, t'.nextSibling? x =
    if x = n then none else if t.previousSibling? n = some x then t.nextSibling? n else t.nextSibling? x
  previous : ∀ x, t'.previousSibling? x =
    if x = n then none else if t.nextSibling? n = some x then t.previousSibling? n else t.previousSibling? x

theorem cut_detach (hs : t.Sound) (hp : t.parent? n = some p) : Cut t (t.detach n) p n := by
  have hn : t.has n = true := has_of_link hp
  have hbefore : ∀ q, t.previousSibling? n = some q → t.has q = true := fun q hq =>
    let ⟨_, _, hp⟩ := hs.parent_of_previous hq
    has_of_link hp
  have hafter : ∀ q, t.nextSibling? n = some q → t.has q = true := fun q hq =>
    let ⟨_, _, hp⟩ := hs.parent_of_next hq
    has_of_link hp
  have hset : ((t.setNext p (t.previousSibling? n) (t.nextSibling? n)).setPrevious p (t.nextSibling? n)
      (t.previousSibling? n)).has n = true := by simpa using hn
  have hafter' : ∀ q, t.nextSibling? n = some q →
      (t.setNext p (t.previousSibling? n) (t.nextSibling? n)).has q = true := by simpa using hafter
  simp only [detach, hp]
  refine ⟨fun x => by simp, fun x => ?_, fun x => ?_, fun x => ?_, fun x => ?_, fun x => ?_⟩
  · refine Eq.trans (read_relink_set hset fun _ => rfl) (if_congr Iff.rfl rfl ?_)
    exact parent?_setPrevious.trans parent?_setNext
  · refine Eq.trans (read_relink fun _ => rfl) ?_
    exact firstChild?_setPrevious.trans (firstChild?_setNext (hs.parents hp))
  · refine Eq.trans (read_relink fun _ => rfl) ?_
    exact (lastChild?_setPrevious (by simpa using hs.parents hp)).trans (by rw [lastChild?_setNext])
  · refine Eq.trans (read_relink_set hset fun _ => rfl) (if_congr Iff.rfl rfl ?_)
    exact nextSibling?_setPrevious.trans (nextSibling?_setNext hbefore)
  · refine Eq.trans (read_relink_set hset fun _ => rfl) (if_congr Iff.rfl rfl ?_)
    exact (previousSibling?_setPrevious hafter').trans (by rw [previousSibling?_setNext])

/-- A list whose nodes are linked as before. -/
theorem Lists.congr (hl : t.Lists p ns) (first : t'.firstChild? p = t.firstChild? p)
    (last : t'.lastChild? p = t.lastChild? p) (next : ∀ n ∈ ns, t'.nextSibling? n = t.nextSibling? n)
    (previous : ∀ n ∈ ns, t'.previousSibling? n = t.previousSibling? n)
    (parent : ∀ n, t'.parent? n = some p ↔ t.parent? n = some p) : t'.Lists p ns where
  forward := first ▸ hl.forward.congr next
  backward := last ▸ hl.backward.congr fun n hn => previous n (List.mem_reverse.mp hn)
  nodup := hl.nodup
  mem n := (hl.mem n).trans (parent n).symm

/-- The children that remain. -/
theorem Lists.cut {xs ys : List NodeId} (hl : t.Lists p (xs ++ n :: ys)) (hc : Cut t t' p n) :
    t'.Lists p (xs ++ ys) where
  forward := by
    obtain ⟨hbefore, -⟩ := hl.siblings
    have hout : Passes t'.nextSibling? _ _ _ := hl.forward.unlink hl.nodup fun x => by rw [hc.next, hbefore]
    rwa [hc.first, hbefore, if_congr (and_iff_left rfl) rfl rfl]
  backward := by
    obtain ⟨-, hafter⟩ := hl.siblings
    have hback : Passes t.previousSibling? (t.lastChild? p) (ys.reverse ++ n :: xs.reverse) none := by
      simpa using hl.backward
    have hd : (ys.reverse ++ n :: xs.reverse).Nodup := by simpa using List.nodup_reverse.mpr hl.nodup
    have hout : Passes t'.previousSibling? _ _ _ := hback.unlink hd fun x => by
      rw [hc.previous, hafter, List.getLast?_reverse]
    rw [List.getLast?_reverse] at hout
    rwa [hc.last, hafter, if_congr (and_iff_left rfl) rfl rfl, List.reverse_append]
  nodup := hl.nodup.sublist ((List.append_sublist_append_left xs).mpr (List.sublist_cons_self n ys))
  mem x := by
    have hmem := hl.mem x
    obtain ⟨-, hdn, hne⟩ := List.nodup_append.mp hl.nodup
    rw [hc.parent]
    split
    · rename_i e
      subst e
      have hx : x ∉ xs ++ ys := by
        intro hx
        rcases List.mem_append.mp hx with hx | hx
        · exact hne x hx x List.mem_cons_self rfl
        · exact (List.nodup_cons.mp hdn).1 hx
      exact ⟨fun h => absurd h hx, fun h => by cases h⟩
    · rename_i e
      rw [← hmem]
      simp [e]

/-- The children of another node are neither `n` nor its siblings, and stay as they are. -/
theorem Lists.cut_other {q : NodeId} (hl : t.Lists q ns) (hs : t.Sound) (hp : t.parent? n = some p) (hqp : q ≠ p)
    (hc : Cut t t' p n) : t'.Lists q ns := by
  have hother : ∀ {x}, t.parent? x = some p → x ∉ ns := fun hx hm =>
    hqp (Option.some.inj (((hl.mem _).mp hm).symm.trans hx))
  have hsib : ∀ {x m}, m ∈ ns → t.parent? x = some p → x ≠ m := fun hm hx e => hother hx (e ▸ hm)
  refine hl.congr ?_ ?_ (fun m hm => ?_) (fun m hm => ?_) fun x => ?_
  · rw [hc.first, if_neg fun h => hqp h.2]
  · rw [hc.last, if_neg fun h => hqp h.2]
  · rw [hc.next, if_neg (hsib hm hp).symm, if_neg fun h => ?_]
    obtain ⟨p', hp', hm'⟩ := hs.parent_of_previous h
    cases hp.symm.trans hp'
    exact hother hm' hm
  · rw [hc.previous, if_neg (hsib hm hp).symm, if_neg fun h => ?_]
    obtain ⟨p', hp', hm'⟩ := hs.parent_of_next h
    cases hp.symm.trans hp'
    exact hother hm' hm
  · rw [hc.parent]
    split
    · rename_i e
      subst e
      refine ⟨fun h => ?_, fun h => absurd (Option.some.inj (h.symm.trans hp)) hqp⟩
      cases h
    · exact Iff.rfl

/-- A line of ancestors that ends sooner. -/
theorem Descends.cut (hd : t.Descends x as) (hc : Cut t t' p n) : ∃ as', as' <+: as ∧ t'.Descends x as' := by
  by_cases e : x = n
  · refine ⟨[], List.nil_prefix, ?_, List.nodup_singleton x⟩
    rw [hc.parent, if_pos e]
    rfl
  · obtain ⟨as', hpre, hup⟩ := hd.upward.cut hc.parent
    refine ⟨as', hpre, ?_, hd.nodup.sublist (hpre.sublist.cons_cons x)⟩
    rwa [hc.parent, if_neg e]

theorem Sound.cut (hs : t.Sound) (hp : t.parent? n = some p) (hc : Cut t t' p n) : t'.Sound where
  document := by
    rw [hc.has, hc.parent]
    exact ⟨hs.document.1, by split; exacts [rfl, hs.document.2]⟩
  parents := by
    intro x q hq
    rw [hc.parent] at hq
    split at hq
    · cases hq
    · rw [hc.has]
      exact hs.parents hq
  lists := by
    intro q hq
    rw [hc.has] at hq
    obtain ⟨ns, hl⟩ := hs.lists hq
    by_cases hqp : q = p
    · subst hqp
      obtain ⟨xs, ys, rfl⟩ := List.append_of_mem ((hl.mem n).mpr hp)
      exact ⟨xs ++ ys, hl.cut hc⟩
    · exact ⟨ns, hl.cut_other hs hp hqp hc⟩
  alone := by
    intro x hx
    rw [hc.parent] at hx
    rw [hc.next, hc.previous]
    split at hx
    · rename_i e
      rw [if_pos e, if_pos e]
      exact ⟨rfl, rfl⟩
    · rename_i e
      have hno : ∀ {q}, t.parent? x ≠ some q := fun h => by cases hx.symm.trans h
      rw [if_neg e, if_neg e, if_neg fun h => ?_, if_neg fun h => ?_]
      · exact hs.alone hx
      · obtain ⟨_, _, h⟩ := hs.parent_of_previous h
        exact hno h
      · obtain ⟨_, _, h⟩ := hs.parent_of_next h
        exact hno h
  descends := by
    intro x hx
    rw [hc.has] at hx
    obtain ⟨as, hd⟩ := hs.descends hx
    obtain ⟨as', -, hd'⟩ := hd.cut hc
    exact ⟨as', hd'⟩

/-! ## A node is put under another -/

/-- What is read after `n` was put after the last child of `p`. -/
structure Hung (t t' : Tree) (p n : NodeId) : Prop where
  has : ∀ x, t'.has x = t.has x
  parent : ∀ x, t'.parent? x = if x = n then some p else t.parent? x
  first : ∀ x, t'.firstChild? x = if t.lastChild? p = none ∧ x = p then some n else t.firstChild? x
  last : ∀ x, t'.lastChild? x = if x = p then some n else t.lastChild? x
  next : ∀ x, t'.nextSibling? x =
    if t.lastChild? p = some x then some n else if x = n then none else t.nextSibling? x
  previous : ∀ x, t'.previousSibling? x = if x = n then t.lastChild? p else t.previousSibling? x

theorem hung_link (hs : t.Sound) (hp : t.has p = true) (hn : t.has n = true) : Hung t (t.link p n) p n := by
  have hlast : ∀ {f : Links → Links}, ∀ q, t.lastChild? p = some q → (t.relink n f).has q = true := fun q hq => by
    rw [has_relink]
    exact has_of_link (hs.parent_of_last hp hq)
  have hp' : ∀ {f : Links → Links}, (t.relink n f).has p = true := by simpa using hp
  have hp'' : ∀ {f : Links → Links}, ((t.relink n f).setNext p (t.lastChild? p) (some n)).has p = true := by simpa using hp
  refine ⟨fun x => by simp [link], fun x => ?_, fun x => ?_, fun x => ?_, fun x => ?_, fun x => ?_⟩
  · refine (parent?_setPrevious.trans parent?_setNext).trans ?_
    exact read_relink_set hn fun _ => rfl
  · refine (firstChild?_setPrevious.trans (firstChild?_setNext hp')).trans ?_
    exact if_congr Iff.rfl rfl (read_relink fun _ => rfl)
  · refine (lastChild?_setPrevious hp'').trans (if_congr (and_iff_right rfl) rfl ?_)
    exact lastChild?_setNext.trans (read_relink fun _ => rfl)
  · refine (nextSibling?_setPrevious.trans (nextSibling?_setNext hlast)).trans (if_congr Iff.rfl rfl ?_)
    exact read_relink_set hn fun _ => rfl
  · refine (previousSibling?_setPrevious fun q hq => by cases hq).trans ((if_neg fun h => by cases h).trans ?_)
    exact previousSibling?_setNext.trans (read_relink_set hn fun _ => rfl)

theorem Lists.hung (hl : t.Lists p ns) (hfree : t.parent? n = none) (hh : Hung t t' p n) :
    t'.Lists p (ns ++ [n]) where
  forward := by
    have hn : n ∉ ns := fun hm => by cases ((hl.mem n).mp hm).symm.trans hfree
    have hout : Passes t'.nextSibling? _ _ _ := hl.forward.extend hl.nodup hn fun x => by rw [hh.next, hl.lastChild?]
    rwa [hh.first, hl.lastChild?, if_congr (and_iff_left rfl) rfl rfl]
  backward := by
    have hn : n ∉ ns := fun hm => by cases ((hl.mem n).mp hm).symm.trans hfree
    rw [List.reverse_append, hh.last, if_pos rfl]
    refine ⟨rfl, ?_⟩
    show Passes t'.previousSibling? (t'.previousSibling? n) ns.reverse none
    rw [hh.previous, if_pos rfl]
    refine hl.backward.congr fun m hm => ?_
    rw [hh.previous, if_neg fun e : m = n => hn (e ▸ List.mem_reverse.mp hm)]
  nodup := by
    have hn : n ∉ ns := fun hm => by cases ((hl.mem n).mp hm).symm.trans hfree
    exact List.nodup_append.mpr ⟨hl.nodup, List.nodup_singleton n, fun a ha b hb e =>
      hn (List.mem_singleton.mp hb ▸ e ▸ ha)⟩
  mem x := by
    rw [List.mem_append, List.mem_singleton, hl.mem, hh.parent]
    split
    · rename_i e
      exact ⟨fun _ => rfl, fun _ => .inr e⟩
    · rename_i e
      exact or_iff_left e

/-- The children of another node stay as they are. -/
theorem Lists.hung_other {q : NodeId} (hl : t.Lists q ns) (hs : t.Sound) (hp : t.has p = true)
    (hfree : t.parent? n = none) (hqp : q ≠ p) (hh : Hung t t' p n) : t'.Lists q ns := by
  have hno : ∀ {m}, m ∈ ns → m ≠ n := fun hm e => by cases ((hl.mem _).mp (e ▸ hm)).symm.trans hfree
  refine hl.congr ?_ ?_ (fun m hm => ?_) (fun m hm => ?_) fun x => ?_
  · rw [hh.first, if_neg fun h => hqp h.2]
  · rw [hh.last, if_neg hqp]
  · rw [hh.next, if_neg fun h => ?_, if_neg (hno hm)]
    exact hqp (Option.some.inj (((hl.mem m).mp hm).symm.trans (hs.parent_of_last hp h)))
  · rw [hh.previous, if_neg (hno hm)]
  · rw [hh.parent]
    split
    · rename_i e
      subst e
      rw [hfree]
      exact ⟨fun h => absurd (Option.some.inj h).symm hqp, fun h => by cases h⟩
    · exact Iff.rfl

/-- Under a node that does not lie under `n`, the line of ancestors goes on. -/
theorem Descends.hung {bs : List NodeId} (hx : t.Descends x as) (hp : t.Descends p bs) (hn : n ∉ p :: bs)
    (hfree : t.parent? n = none) (hh : Hung t t' p n) : ∃ as', t'.Descends x as' := by
  by_cases hmem : n ∈ x :: as
  · -- `n` ends the line of `x`, and the line of `p` does not: so the two never meet.
    have hlast := hx.line.last hmem hfree
    have hdisjoint : ∀ a ∈ x :: as, ∀ b ∈ p :: bs, a ≠ b := by
      rintro a ha _ hb rfl
      exact hn (List.mem_of_getLast? ((hx.line.meet hp.line ha hb).symm.trans hlast))
    have hbs : Passes t'.parent? (some p) (p :: bs) none := by
      refine hp.line.congr fun m hm => ?_
      rw [hh.parent, if_neg fun e : m = n => hn (e ▸ hm)]
    have has : Passes t'.parent? _ (x :: as) (some p) := hx.line.bend hx.nodup fun y _ => by
      rw [hh.parent, hlast]
      exact if_congr (by rw [Option.some.injEq, eq_comm]) rfl rfl
    rw [hlast, if_neg (Option.some_ne_none n)] at has
    have hup : Passes t'.parent? (some x) ((x :: as) ++ (p :: bs)) none := passes_append.mpr ⟨some p, has, hbs⟩
    exact ⟨as ++ (p :: bs), hup.2, List.nodup_append.mpr ⟨hx.nodup, hp.nodup, hdisjoint⟩⟩
  · refine ⟨as, ?_, hx.nodup⟩
    rw [hh.parent, if_neg fun e : x = n => hmem (e ▸ List.mem_cons_self)]
    refine hx.upward.congr fun m hm => ?_
    rw [hh.parent, if_neg fun e : m = n => hmem (e ▸ List.mem_cons_of_mem _ hm)]

theorem Sound.hung {bs : List NodeId} (hs : t.Sound) (hroot : n ≠ root) (hfree : t.parent? n = none)
    (hp : t.has p = true) (hd : t.Descends p bs) (hn : n ∉ p :: bs) (hh : Hung t t' p n) : t'.Sound where
  document := by
    rw [hh.has, hh.parent, if_neg hroot.symm]
    exact hs.document
  parents := by
    intro x q hq
    rw [hh.parent] at hq
    rw [hh.has]
    split at hq
    · cases hq
      exact hp
    · exact hs.parents hq
  lists := by
    intro q hq
    rw [hh.has] at hq
    obtain ⟨ns, hl⟩ := hs.lists hq
    by_cases hqp : q = p
    · subst hqp
      exact ⟨ns ++ [n], hl.hung hfree hh⟩
    · exact ⟨ns, hl.hung_other hs hp hfree hqp hh⟩
  alone := by
    intro x hx
    rw [hh.parent] at hx
    split at hx
    · cases hx
    · rename_i e
      rw [hh.next, hh.previous, if_neg e, if_neg e, if_neg fun h => ?_]
      · exact hs.alone hx
      · cases hx.symm.trans (hs.parent_of_last hp h)
  descends := by
    intro x hx
    rw [hh.has] at hx
    obtain ⟨as, hx⟩ := hs.descends hx
    exact hx.hung hd hn hfree hh

/-! ## A node is made -/

/-- What is read after `n` was made. -/
structure Grown (t t' : Tree) (n : NodeId) : Prop where
  has : ∀ x, t'.has x = true ↔ t.has x = true ∨ x = n
  fresh : ¬t.has n = true
  links : ∀ x, t'.links? x = if x = n then some .alone else t.links? x

theorem get?_add (t : Tree) (c : Content) (x : NodeId) :
    (t.add c).2.get? x = if x = (t.add c).1 then some ⟨.alone, c⟩ else t.get? x := by
  show (t.nodes ++ [⟨.alone, c⟩])[x]? = if x = t.nodes.length then some ⟨.alone, c⟩ else t.nodes[x]?
  grind

theorem grown_add (t : Tree) (c : Content) : Grown t (t.add c).2 (t.add c).1 where
  has x := by
    rw [has_iff, has_iff]
    simp only [add, size, List.length_append, List.length_singleton]
    exact Nat.lt_succ_iff_lt_or_eq
  fresh := by
    rw [has_iff]
    exact Nat.lt_irrefl _
  links x := by
    rw [links?, get?_add]
    split <;> rfl

/-- A new node has no links. -/
theorem Grown.reads (hg : Grown t t' n) (ha : read .alone = none) :
    (t'.links? x).bind read = (t.links? x).bind read := by
  rw [hg.links]
  split
  · rename_i e
    subst e
    rw [links?_eq_none.mpr ((Bool.not_eq_true _).mp hg.fresh)]
    exact ha
  · rfl

theorem Descends.grown (hd : t.Descends x as) (hg : Grown t t' n) : t'.Descends x as where
  upward := by
    rw [show t'.parent? x = t.parent? x from hg.reads rfl]
    exact hd.upward.congr fun m _ => hg.reads rfl
  nodup := hd.nodup

theorem Sound.grown (hs : t.Sound) (hg : Grown t t' n) : t'.Sound where
  document := ⟨(hg.has root).mpr (.inl hs.document.1), Eq.trans (hg.reads rfl) hs.document.2⟩
  parents := fun h => (hg.has _).mpr (.inl (hs.parents (Eq.trans (hg.reads rfl).symm h)))
  lists := by
    intro q hq
    rcases (hg.has q).mp hq with hq | rfl
    · obtain ⟨ns, hl⟩ := hs.lists hq
      refine ⟨ns, hl.congr (hg.reads rfl) (hg.reads rfl) (fun _ _ => hg.reads rfl) (fun _ _ => hg.reads rfl) fun x => ?_⟩
      rw [show t'.parent? x = t.parent? x from hg.reads rfl]
    · have hnone : ∀ {read : Links → Option NodeId}, read .alone = none → (t'.links? q).bind read = none := by
        intro read ha
        rw [hg.links, if_pos rfl]
        exact ha
      refine ⟨[], hnone rfl, hnone rfl, List.nodup_nil, fun x => ⟨fun h => (by cases h), fun h => ?_⟩⟩
      exact absurd (hs.parents (Eq.trans (hg.reads rfl).symm h)) hg.fresh
  alone := by
    intro x hx
    obtain ⟨hprevious, hnext⟩ := hs.alone (Eq.trans (hg.reads rfl).symm hx)
    exact ⟨Eq.trans (hg.reads rfl) hprevious, Eq.trans (hg.reads rfl) hnext⟩
  descends := by
    intro x hx
    rcases (hg.has x).mp hx with hx | rfl
    · obtain ⟨as, hd⟩ := hs.descends hx
      exact ⟨as, hd.grown hg⟩
    · refine ⟨[], ?_, List.nodup_singleton x⟩
      rw [parent?, hg.links, if_pos rfl]
      rfl

end Eventful.Page.Tree
