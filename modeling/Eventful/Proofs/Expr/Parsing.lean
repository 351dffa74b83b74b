import Eventful.Expr.Parser
import Eventful.Proofs.Expr.Lexing
import Eventful.Proofs.Expr.Numbering

/-
  Eventful.Proofs.Expr.Parsing — what a parse gives, whatever the source text.

  A tree that was parsed is laid out (`Term.Laid`): the parts of a node lie inside its span,
  one after the other, and what is assigned to or updated can be. The parse takes lexemes
  from left to right and never more depth than sixteen for each that is left, so that its
  depth is not used up.

  - `laid_parse`: the program of a source text is laid out in it.
  - `parse_deep`: a source text is never nested too deeply.
-/

namespace Eventful.Expr

variable {α β : Type} {c c' : Cursor} {d n k start least size : Nat} {deep deep' : Prop}

/-! ## Layout -/

/-- Spans one after the other between two offsets. -/
def Within (start : Nat) : List Span → Nat → Prop
  | [], stop => start ≤ stop
  | s :: ss, stop => start ≤ s.start ∧ s.start ≤ s.stop ∧ Within s.stop ss stop

/-- The tree is laid out: every node has a span, its parts lie in it in order, and what it
    writes to is a target. -/
inductive Term.Laid : Term Span → Prop
  | mk {e : Term Span} : e.mark.start < e.mark.stop → Within e.mark.start (e.parts.map Term.mark) e.mark.stop →
    (∀ t, e.target? = some t → t.isTarget = true) → (∀ p ∈ e.parts, p.Laid) → e.Laid

theorem Term.Laid.nonempty {e : Term Span} (h : e.Laid) : e.mark.start < e.mark.stop := by
  cases h with
  | mk h => exact h

/-! ## What a parse comes to -/

/-- The parse comes back as `Q` says, or it fails, but not for its depth if that is enough. -/
def Reads (deep : Prop) (p : Parse α) (c : Cursor) (Q : α → Cursor → Prop) : Prop :=
  match p c with
  | .ok (a, c') => Q a c'
  | .error e => deep → e.fault ≠ .tooDeep

variable {p : Parse α} {f : α → Parse β} {Q Q' : α → Cursor → Prop} {R : β → Cursor → Prop}

theorem Reads.mono (h : Reads deep' p c Q') (hd : deep → deep') (hQ : ∀ a c', Q' a c' → Q a c') : Reads deep p c Q := by
  unfold Reads at *
  split at h
  · exact hQ _ _ h
  · exact fun hdeep => h (hd hdeep)

theorem Reads.bind (h : Reads deep' p c Q') (hd : deep → deep') (hf : ∀ a c', Q' a c' → Reads deep (f a) c' R) :
    Reads deep (p >>= f) c R := by
  unfold Reads at h
  split at h
  · rename_i a c' e
    have hf := hf a c' h
    unfold Reads at hf ⊢
    rw [show (p >>= f) c = f a c' by simp only [Bind.bind, StateT.bind, e, Except.bind]]
    exact hf
  · rename_i err e
    unfold Reads
    rw [show (p >>= f) c = .error err by simp only [Bind.bind, StateT.bind, e, Except.bind]]
    exact fun hdeep => h (hd hdeep)

@[simp] theorem reads_pure {a : α} : Reads deep (pure a) c Q ↔ Q a c := Iff.rfl

@[simp] theorem reads_peek {f : Token → Parse β} : Reads deep (peek >>= f) c R ↔ Reads deep (f c.current.token) c R := Iff.rfl

@[simp] theorem reads_here {f : Span → Parse β} : Reads deep (here >>= f) c R ↔ Reads deep (f c.current.span) c R := Iff.rfl

@[simp] theorem reads_behind {f : Span → Parse β} : Reads deep (behind >>= f) c R ↔ Reads deep (f c.last) c R := Iff.rfl

@[simp] theorem reads_advance {f : Unit → Parse β} : Reads deep (advance >>= f) c R ↔ Reads deep (f ()) c.advance R := Iff.rfl

theorem reads_failAt {fault : ParseFault} {span : Span} (hf : deep → fault ≠ .tooDeep) :
    Reads deep (failAt fault span : Parse α) c Q := hf

theorem reads_fail {fault : ParseFault} (hf : deep → fault ≠ .tooDeep) : Reads deep (fail fault : Parse α) c Q := by
  unfold fail
  rw [reads_peek]
  split
  · exact fun _ => nofun
  · exact hf

theorem reads_tooDeep (hd : ¬ deep) : Reads deep (fail .tooDeep : Parse α) c Q := reads_fail fun hdeep => absurd hdeep hd

/-! ## Cursors -/

/-- What is left for a cursor stands in the text from `start` on. -/
structure Cursor.Fits (c : Cursor) (start size : Nat) : Prop where
  eof : c.eof = ⟨.eof, ⟨size, size⟩⟩
  lined : Lined start c.rest size

/-- The last lexeme taken starts at `start` or after it and stops at `least` or after it, and
    fewer than `n` are left. -/
structure Past (start least size n : Nat) (c : Cursor) : Prop where
  fits : c.Fits c.last.stop size
  start : start ≤ c.last.start
  least : least ≤ c.last.stop
  stop : c.last.start < c.last.stop
  fewer : c.rest.length < n

theorem Cursor.Fits.earlier {start' : Nat} (hf : c.Fits start size) (hs : start' ≤ start) : c.Fits start' size :=
  ⟨hf.eof, hf.lined.from hs⟩

/-- Where the current lexeme stands, be it the `eof`. -/
theorem Cursor.Fits.current (hf : c.Fits start size) :
    c.Fits c.current.span.start size ∧ c.current.span.start ≤ c.current.span.stop ∧ c.current.span.stop ≤ size := by
  obtain ⟨rest, eof, last⟩ := c
  obtain ⟨rfl, hl⟩ := hf
  cases rest with
  | nil => exact ⟨⟨rfl, Nat.le_refl _⟩, Nat.le_refl _, Nat.le_refl _⟩
  | cons l ls => exact ⟨⟨rfl, hl.1, Nat.le_refl _, hl.2.2⟩, Nat.le_of_lt hl.2.2.1, hl.2.2.2.le⟩

/-- The current lexeme is taken. -/
theorem Cursor.Fits.advance (hf : c.Fits start size) (ht : c.current.token ≠ .eof) :
    Past c.current.span.start c.current.span.stop size c.rest.length c.advance ∧ c.advance.last = c.current.span ∧
      start ≤ c.current.span.start ∧ c.advance.rest.length + 1 = c.rest.length := by
  obtain ⟨rest, eof, last⟩ := c
  obtain ⟨rfl, hl⟩ := hf
  cases rest with
  | nil => exact absurd rfl ht
  | cons l ls =>
    obtain ⟨-, hstart, hstop, hl⟩ := hl
    exact ⟨⟨⟨rfl, hl⟩, Nat.le_refl _, Nat.le_refl _, hstop, Nat.lt_succ_self _⟩, rfl, hstart, rfl⟩

theorem Past.earlier {start' least' n' : Nat} (hp : Past start least size n c) (hs : start' ≤ start)
    (hl : least' ≤ least) (hn : n ≤ n') : Past start' least' size n' c :=
  ⟨hp.fits, Nat.le_trans hs hp.start, Nat.le_trans hl hp.least, hp.stop, Nat.lt_of_lt_of_le hp.fewer hn⟩

/-- Further lexemes are taken. -/
theorem Past.further (hp : Past start least size n c) (hp' : Past c.last.stop k size c.rest.length c') :
    Past start least size n c' ∧ c.last.stop ≤ c'.last.start ∧ c'.rest.length < c.rest.length := by
  have h₁ := hp.start
  have h₂ := hp.stop
  have h₃ := hp.fewer
  have h₄ := hp'.start
  have h₅ := hp'.fewer
  have h₆ := hp'.stop
  have h₇ := hp.least
  exact ⟨⟨hp'.fits, by omega, by omega, h₆, by omega⟩, h₄, h₅⟩

theorem Past.advance (hp : Past start least size n c) (ht : c.current.token ≠ .eof) :
    Past start least size n c.advance ∧ c.last.stop ≤ c.advance.last.start ∧ c.advance.rest.length + 1 = c.rest.length := by
  obtain ⟨hp', hlast, hstart, hlen⟩ := hp.fits.advance ht
  obtain ⟨hp₁, hle, -⟩ := hp.further (hp'.earlier hstart (Nat.le_refl _) (Nat.le_refl _))
  exact ⟨hp₁, hle, hlen⟩

theorem Past.le (hp : Past start least size n c) : c.last.stop ≤ size := hp.fits.lined.le

theorem Past.here (hp : Past start least size n c) : Past c.last.start c.last.stop size (c.rest.length + 1) c :=
  ⟨hp.fits, Nat.le_refl _, Nat.le_refl _, hp.stop, Nat.lt_succ_self _⟩

/-! ## Trees and their places -/

/-- The tree was read off the lexemes between an offset and a cursor. -/
structure Placed (start : Nat) (c : Cursor) (e : Term Span) : Prop where
  laid : e.Laid
  start : start ≤ e.mark.start
  last : e.mark.start ≤ c.last.start
  stop : e.mark.stop ≤ c.last.stop

/-- The trees were read one after the other. -/
structure AllPlaced (start : Nat) (c : Cursor) (es : List (Term Span)) : Prop where
  laid : ∀ e ∈ es, e.Laid
  within : Within start (es.map Term.mark) c.last.stop

theorem Within.widen {ss : List Span} {start' stop stop' : Nat} (h : Within start ss stop) (hs : start' ≤ start)
    (hs' : stop ≤ stop') : Within start' ss stop' := by
  induction ss generalizing start start' with
  | nil => exact Nat.le_trans hs (Nat.le_trans h hs')
  | cons s ss ih => exact ⟨Nat.le_trans hs h.1, h.2.1, ih h.2.2 (Nat.le_refl _)⟩

theorem Within.le {ss : List Span} {stop : Nat} (h : Within start ss stop) : start ≤ stop := by
  induction ss generalizing start with
  | nil => exact h
  | cons s ss ih => exact Nat.le_trans h.1 (Nat.le_trans h.2.1 (ih h.2.2))

theorem Within.mem {ss : List Span} {stop : Nat} {s : Span} (h : Within start ss stop) (hs : s ∈ ss) :
    start ≤ s.start ∧ s.start ≤ s.stop ∧ s.stop ≤ stop := by
  induction ss generalizing start with
  | nil => cases hs
  | cons t ss ih =>
    obtain ⟨h₁, h₂, h₃⟩ := h
    rcases List.mem_cons.mp hs with rfl | hs
    · exact ⟨h₁, h₂, h₃.le⟩
    · obtain ⟨h₄, h₅, h₆⟩ := ih h₃ hs
      exact ⟨by omega, h₅, h₆⟩

theorem Within.snoc {ss : List Span} {stop : Nat} {s : Span} (h : Within start ss stop) (hs : stop ≤ s.start)
    (hs' : s.start ≤ s.stop) : Within start (ss ++ [s]) s.stop := by
  induction ss generalizing start with
  | nil => exact ⟨Nat.le_trans h hs, hs', Nat.le_refl _⟩
  | cons t ss ih => exact ⟨h.1, h.2.1, ih h.2.2⟩

theorem Placed.earlier {e : Term Span} (h : Placed start c e) (hk : k ≤ start) : Placed k c e :=
  ⟨h.laid, Nat.le_trans hk h.start, h.last, h.stop⟩

theorem Placed.further {e : Term Span} (h : Placed start c e) (hs : c.last.start ≤ c'.last.start)
    (hs' : c.last.stop ≤ c'.last.stop) : Placed start c' e :=
  ⟨h.laid, h.start, Nat.le_trans h.last hs, Nat.le_trans h.stop hs'⟩

theorem Placed.here {e : Term Span} (h : Placed start c e) : Placed e.mark.start c e :=
  ⟨h.laid, Nat.le_refl _, h.last, h.stop⟩

theorem AllPlaced.nil (h : start ≤ c.last.stop) : AllPlaced start c [] := ⟨nofun, h⟩

theorem AllPlaced.widen {es : List (Term Span)} (h : AllPlaced start c es) (hk : k ≤ start)
    (hs : c.last.stop ≤ c'.last.stop) : AllPlaced k c' es :=
  ⟨h.laid, h.within.widen hk hs⟩

theorem AllPlaced.cons {e : Term Span} {es : List (Term Span)} (h : Placed start c e) (hs : c.last.stop ≤ k)
    (hes : AllPlaced k c' es) : AllPlaced start c' (e :: es) where
  laid := List.forall_mem_cons.mpr ⟨h.laid, hes.laid⟩
  within :=
    ⟨h.start, Nat.le_of_lt h.laid.nonempty, hes.within.widen (Nat.le_trans h.stop hs) (Nat.le_refl _)⟩

/-- A node whose span ends with the last lexeme. -/
theorem AllPlaced.node {e : Term Span} {s : Span} (hes : AllPlaced s.start c e.parts) (hm : e.mark = s.merge c.last)
    (ht : ∀ t, e.target? = some t → t.isTarget = true) (hs : start ≤ s.start) (hl : s.start ≤ c.last.start)
    (hc : c.last.start < c.last.stop) (hstop : s.stop ≤ c.last.stop) : Placed start c e := by
  have hstart : e.mark.start = s.start := by rw [hm]; exact Nat.min_eq_left hl
  have hend : e.mark.stop = c.last.stop := by rw [hm]; exact Nat.max_eq_right hstop
  exact ⟨.mk (by omega) (hes.within.widen (Nat.le_of_eq hstart) (Nat.le_of_eq hend.symm)) ht hes.laid, by omega,
    by omega, by omega⟩

/-- A node whose span ends with its last part. -/
theorem Placed.node {e first last : Term Span} (between : List (Term Span)) {c₁ c₂ : Cursor}
    (hp : e.parts = first :: between ++ [last]) (hm : e.mark = first.mark.merge last.mark)
    (ht : ∀ t, e.target? = some t → t.isTarget = true) (hf : Placed start c₁ first)
    (hb : AllPlaced c₁.last.stop c₂ between) (hl : Placed c₂.last.stop c last) : Placed start c e := by
  have hfirst := hf.laid.nonempty
  have hlast := hl.laid.nonempty
  have hbetween := hb.within.le
  have hf₁ := hf.start
  have hf₂ := hf.stop
  have hl₁ := hl.start
  have hl₂ := hl.last
  have hstart : e.mark.start = first.mark.start := by
    rw [hm]
    exact Nat.min_eq_left (by omega)
  have hstop : e.mark.stop = last.mark.stop := by
    rw [hm]
    exact Nat.max_eq_right (by omega)
  refine ⟨.mk (by omega) ?_ ht ?_, by omega, by omega, hstop ▸ hl.stop⟩
  · rw [hp, hstart, hstop, List.map_append]
    exact ⟨Nat.le_refl _, by omega, (hb.within.widen hf₂ (Nat.le_refl _)).snoc hl₁ (by omega)⟩
  · rw [hp]
    simp only [List.cons_append, List.mem_cons, List.mem_append, List.not_mem_nil, or_false]
    rintro p (rfl | h | rfl)
    · exact hf.laid
    · exact hb.laid p h
    · exact hl.laid

/-- A node whose span goes from a lexeme to its only part. -/
theorem Placed.ahead {e arg : Term Span} {s : Span} (hp : e.parts = [arg]) (hm : e.mark = s.merge arg.mark)
    (ht : ∀ t, e.target? = some t → t.isTarget = true) (hs : start ≤ s.start) (hs' : s.start < s.stop)
    (ha : Placed s.stop c arg) : Placed start c e := by
  have harg := ha.laid.nonempty
  have h₁ := ha.start
  have h₂ := ha.last
  have hstart : e.mark.start = s.start := by
    rw [hm]
    exact Nat.min_eq_left (by omega)
  have hstop : e.mark.stop = arg.mark.stop := by
    rw [hm]
    exact Nat.max_eq_right (by omega)
  refine ⟨.mk (by omega) ?_ ht ?_, by omega, by omega, hstop ▸ ha.stop⟩
  · rw [hp, hstart, hstop]
    exact ⟨by omega, by omega, Nat.le_refl _⟩
  · rw [hp]
    exact List.forall_mem_singleton.mpr ha.laid

/-- A node without parts, off one lexeme. -/
theorem Placed.leaf {e : Term Span} (hp : e.parts = []) (hm : e.mark = c.last) (ht : e.target? = none)
    (hs : start ≤ c.last.start) (hs' : c.last.start < c.last.stop) : Placed start c e := by
  refine ⟨.mk (hm ▸ hs') ?_ (by rw [ht]; nofun) (by rw [hp]; nofun), hm ▸ hs, hm ▸ Nat.le_refl _, hm ▸ Nat.le_refl _⟩
  rw [hp, hm]
  exact Nat.le_of_lt hs'

/-! ## The levels -/

/-- The parse takes an expression; its depth may run out only below `k` and sixteen for
    each lexeme that is left. -/
def Takes (size k d : Nat) (p : Parse (Term Span)) : Prop :=
  ∀ {c : Cursor} {start : Nat}, c.Fits start size →
    Reads (16 * c.rest.length + k ≤ d) p c fun e c' => Past start c.current.span.stop size c.rest.length c' ∧ Placed start c' e

/-- The parse takes what may follow an expression that was taken. -/
def Extends (size d : Nat) (p : Term Span → Parse (Term Span)) : Prop :=
  ∀ {c : Cursor} {start least n : Nat} {e : Term Span}, Past start least size n c → Placed start c e →
    Reads (16 * c.rest.length + 1 ≤ d) (p e) c fun e' c' => Past start least size n c' ∧ Placed start c' e'

/-- What the levels do at one depth. -/
structure Levels (size d : Nat) : Prop where
  sequence : Takes size 14 d (sequence d)
  sequenceRest : ∀ {c : Cursor} {start least n : Nat}, Past start least size n c →
    Reads (16 * c.rest.length + 1 ≤ d) (sequenceRest d) c fun es c' =>
      Past start least size n c' ∧ AllPlaced c.last.stop c' es
  assignment : Takes size 13 d (assignment d)
  conditional : Takes size 12 d (conditional d)
  operand : ∀ {level : Nat}, level ≤ loosest → Takes size (level + 5) d (operand d level)
  operandRest : ∀ {level : Nat}, level ≤ loosest → Extends size d (operandRest d level)
  unary : Takes size 4 d (unary d)
  postfixed : Takes size 3 d (postfixed d)
  members : Extends size d (members d)
  primary : Takes size 2 d (primary d)
  entries : ∀ {c : Cursor} {start least n : Nat}, Past start least size n c →
    Reads (16 * c.rest.length + 1 ≤ d) (entries d) c fun es c' =>
      Past start least size n c' ∧ AllPlaced c.last.stop c' (es.map (·.2))
  entryValue : ∀ {c : Cursor} {start least n : Nat} (key : String), Past start least size n c →
    Reads (16 * c.rest.length + 1 ≤ d) (entryValue d key c.last) c fun e c' =>
      Past start least size n c' ∧ Placed c.last.start c' e

theorem isPunct_iff {p : Punct} {t : Token} : isPunct p t = true ↔ t = .punct p := by
  cases t with
  | punct q => simpa [isPunct] using eq_comm
  | _ => simp [isPunct]

theorem ne_eof_of_isPunct {p : Punct} {t : Token} (h : isPunct p t = true) : t ≠ .eof := by
  rw [isPunct_iff.mp h]
  nofun

@[simp] theorem operator?_eof (level : Nat) : operator? level .eof = none := by
  unfold operator?
  split <;> first | rfl | cases ‹Token.eof = _›

theorem reads_expect {p : Punct} {f : Unit → Parse β} (hf : c.current.token = .punct p → Reads deep (f ()) c.advance R) :
    Reads deep (expect p >>= f) c R := by
  have he : Reads deep (expect p) c fun _ c' => c.current.token = .punct p ∧ c' = c.advance := by
    unfold expect
    rw [reads_peek]
    split
    · rename_i h
      exact ⟨isPunct_iff.mp h, rfl⟩
    · exact reads_fail fun _ => nofun
  refine he.bind id ?_
  rintro _ _ ⟨ht, rfl⟩
  exact hf ht

section step

variable (ih : Levels size d)

include ih

theorem takes_sequence : Takes size 14 (d + 1) (sequence (d + 1)) := by
  intro c start hf
  unfold sequence
  refine (ih.assignment hf).bind (by omega) fun first c₁ ⟨hp₁, hfirst⟩ => ?_
  rw [reads_peek]
  split
  · have hlen := hp₁.fewer
    refine (ih.sequenceRest hp₁.here).bind (by omega) fun rest c₂ ⟨hp₂, hrest⟩ => ?_
    rw [reads_behind]
    have hle := hrest.within.le
    have hlast := hfirst.last
    have hstop := hfirst.stop
    have hstart := hp₂.start
    refine ⟨hp₂.earlier hp₁.start hp₁.least hlen, ?_⟩
    exact (AllPlaced.cons hfirst.here (Nat.le_refl _) hrest).node (s := first.mark) rfl nofun
      hfirst.start (by omega) hp₂.stop (by omega)
  · exact ⟨hp₁, hfirst⟩

theorem reads_sequenceRest {n : Nat} (hp : Past start least size n c) :
    Reads (16 * c.rest.length + 1 ≤ d + 1) (sequenceRest (d + 1)) c fun es c' =>
      Past start least size n c' ∧ AllPlaced c.last.stop c' es := by
  unfold sequenceRest
  rw [reads_peek]
  split
  · rename_i hcomma
    obtain ⟨hp₁, hle₁, hlen₁⟩ := hp.advance (ne_eof_of_isPunct hcomma)
    rw [reads_advance]
    refine (ih.assignment hp₁.fits).bind (by omega) fun e c₂ ⟨hp₂, he⟩ => ?_
    obtain ⟨hp₂, -, hlen₂⟩ := hp₁.further hp₂
    refine (ih.sequenceRest hp₂).bind (by omega) fun es c₃ ⟨hp₃, hes⟩ => ?_
    exact ⟨hp₃, .cons (he.earlier (Nat.le_trans hle₁ (Nat.le_of_lt hp₁.stop))) (Nat.le_refl _) hes⟩
  · exact ⟨hp, .nil (Nat.le_refl _)⟩

theorem takes_assignment : Takes size 13 (d + 1) (assignment (d + 1)) := by
  intro c start hf
  unfold assignment
  refine (ih.conditional hf).bind (by omega) fun target c₁ ⟨hp₁, htarget⟩ => ?_
  rw [reads_peek]
  split
  · exact ⟨hp₁, htarget⟩
  · rename_i op hop
    split
    · rename_i hisTarget
      obtain ⟨hp₂, hle₂, hlen₂⟩ := hp₁.advance fun e => by rw [e] at hop; cases hop
      have hlen := hp₁.fewer
      rw [reads_advance]
      refine (ih.assignment hp₂.fits).bind (by omega) fun value c₃ ⟨hp₃, hvalue⟩ => ?_
      refine ⟨(hp₂.further hp₃).1, ?_⟩
      exact .node [] rfl rfl (by rintro t ⟨⟩; exact hisTarget) htarget
        (.nil (Nat.le_trans hle₂ (Nat.le_of_lt hp₂.stop))) hvalue
    · exact reads_fail fun _ => nofun

theorem takes_conditional : Takes size 12 (d + 1) (conditional (d + 1)) := by
  intro c start hf
  unfold conditional
  refine (ih.operand (Nat.le_refl _) hf).bind (by unfold loosest; omega) fun test c₁ ⟨hp₁, htest⟩ => ?_
  rw [reads_peek]
  split
  · rename_i hquestion
    obtain ⟨hp₂, hle₂, hlen₂⟩ := hp₁.advance (ne_eof_of_isPunct hquestion)
    have hlen := hp₁.fewer
    rw [reads_advance]
    refine (ih.assignment hp₂.fits).bind (by omega) fun yes c₃ ⟨hp₃, hyes⟩ => ?_
    obtain ⟨hp₃, -, hlen₃⟩ := hp₂.further hp₃
    refine reads_expect fun hcolon => ?_
    obtain ⟨hp₄, hle₄, hlen₄⟩ := hp₃.advance (by rw [hcolon]; nofun)
    refine (ih.assignment hp₄.fits).bind (by omega) fun no c₅ ⟨hp₅, hno⟩ => ?_
    refine ⟨(hp₄.further hp₅).1, ?_⟩
    exact .node [yes] rfl rfl nofun htest
      (.cons (hyes.earlier (Nat.le_trans hle₂ (Nat.le_of_lt hp₂.stop))) (Nat.le_trans hle₄ (Nat.le_of_lt hp₄.stop))
        (.nil (Nat.le_refl _))) hno
  · exact ⟨hp₁, htest⟩

theorem takes_operand {level : Nat} (hl : level ≤ loosest) : Takes size (level + 5) (d + 1) (operand (d + 1) level) := by
  intro c start hf
  cases level with
  | zero =>
    unfold operand
    exact (ih.unary hf).mono (by omega) fun _ _ h => h
  | succ level =>
    unfold operand
    refine (ih.operand (Nat.le_of_succ_le hl) hf).bind (by omega) fun left c₁ ⟨hp₁, hleft⟩ => ?_
    have hlen := hp₁.fewer
    exact (ih.operandRest hl hp₁ hleft).mono (by omega) fun _ _ h => h

theorem extends_operandRest {level : Nat} (hl : level ≤ loosest) : Extends size (d + 1) (operandRest (d + 1) level) := by
  intro c start least n left hp hleft
  unfold operandRest
  rw [reads_peek]
  split
  · exact ⟨hp, hleft⟩
  · rename_i op hop
    obtain ⟨hp₁, hle₁, hlen₁⟩ := hp.advance fun e => by simp [e] at hop
    rw [reads_advance]
    have hlevel : level - 1 ≤ loosest := by omega
    refine (ih.operand hlevel hp₁.fits).bind (by unfold loosest at hl; omega) fun right c₂ ⟨hp₂, hright⟩ => ?_
    obtain ⟨hp₂, -, hlen₂⟩ := hp₁.further hp₂
    have hnode : Placed start c₂ (op.node left right) := by
      have hle := Nat.le_trans hle₁ (Nat.le_of_lt hp₁.stop)
      cases op <;> exact .node [] rfl rfl nofun hleft (.nil hle) hright
    exact (ih.operandRest hl hp₂ hnode).mono (by omega) fun _ _ h => h

theorem takes_unary : Takes size 4 (d + 1) (unary (d + 1)) := by
  intro c start hf
  unfold unary
  rw [reads_here, reads_peek]
  split
  · rename_i op hop
    obtain ⟨hp₁, hlast₁, hle₁, hlen₁⟩ := hf.advance fun e => by rw [e] at hop; cases hop
    rw [reads_advance, ← hlast₁]
    refine (ih.unary hp₁.fits).bind (by omega) fun target c₂ ⟨hp₂, htarget⟩ => ?_
    split
    · rename_i hisTarget
      refine ⟨(hp₁.further hp₂).1.earlier hle₁ (Nat.le_refl _) (Nat.le_refl _), ?_⟩
      exact .ahead rfl rfl (by rintro t ⟨⟩; exact hisTarget) (hlast₁ ▸ hle₁) hp₁.stop htarget
    · exact reads_failAt fun _ => nofun
  · split
    · rename_i op hop
      obtain ⟨hp₁, hlast₁, hle₁, hlen₁⟩ := hf.advance fun e => by rw [e] at hop; cases hop
      rw [reads_advance, ← hlast₁]
      refine (ih.unary hp₁.fits).bind (by omega) fun arg c₂ ⟨hp₂, harg⟩ => ?_
      exact ⟨(hp₁.further hp₂).1.earlier hle₁ (Nat.le_refl _) (Nat.le_refl _), .ahead rfl rfl nofun (hlast₁ ▸ hle₁) hp₁.stop harg⟩
    · exact (ih.postfixed hf).mono (by omega) fun _ _ h => h

theorem takes_postfixed : Takes size 3 (d + 1) (postfixed (d + 1)) := by
  intro c start hf
  unfold postfixed
  refine (ih.primary hf).bind (by omega) fun object c₁ ⟨hp₁, hobject⟩ => ?_
  have hlen := hp₁.fewer
  refine (ih.members hp₁ hobject).bind (by omega) fun target c₂ ⟨hp₂, htarget⟩ => ?_
  rw [reads_peek]
  split
  · exact ⟨hp₂, htarget⟩
  · rename_i op hop
    split
    · rename_i hisTarget
      obtain ⟨hp₃, hle₃, -⟩ := hp₂.advance fun e => by rw [e] at hop; cases hop
      rw [reads_advance, reads_behind]
      have hlast := htarget.last
      have hstop := htarget.stop
      have hne := hp₃.stop
      have hne₂ := hp₂.stop
      refine ⟨hp₃, ?_⟩
      exact (AllPlaced.cons htarget.here (by omega) (.nil (Nat.le_refl _))).node (s := target.mark) rfl
        (by rintro t ⟨⟩; exact hisTarget) htarget.start (by omega) hp₃.stop (by omega)
    · exact reads_fail fun _ => nofun

theorem extends_members : Extends size (d + 1) (members (d + 1)) := by
  intro c start least n object hp hobject
  have hlast := hobject.last
  have hstop := hobject.stop
  have hne := hp.stop
  unfold members
  rw [reads_peek]
  split
  · rename_i hdot
    obtain ⟨hp₁, hle₁, hlen₁⟩ := hp.advance (ne_eof_of_isPunct hdot)
    rw [reads_advance, reads_peek]
    split
    · rename_i key hkey
      obtain ⟨hp₂, hle₂, hlen₂⟩ := hp₁.advance fun e => by rw [e] at hkey; cases hkey
      rw [reads_advance, reads_behind]
      have hne₁ := hp₁.stop
      have hne₂ := hp₂.stop
      refine (ih.members hp₂ ?_).mono (by omega) fun _ _ h => h
      exact (AllPlaced.cons hobject.here (by omega) (.nil (Nat.le_refl _))).node (s := object.mark) rfl nofun
        hobject.start (by omega) hp₂.stop (by omega)
    · exact reads_fail fun _ => nofun
  · split
    · rename_i hbracket
      obtain ⟨hp₁, hle₁, hlen₁⟩ := hp.advance (ne_eof_of_isPunct hbracket)
      rw [reads_advance]
      refine (ih.sequence hp₁.fits).bind (by omega) fun key c₂ ⟨hp₂, hkey⟩ => ?_
      obtain ⟨hp₂, hle₂, hlen₂⟩ := hp₁.further hp₂
      refine reads_expect fun hclose => ?_
      obtain ⟨hp₃, hle₃, hlen₃⟩ := hp₂.advance (by rw [hclose]; nofun)
      rw [reads_behind]
      have hne₁ := hp₁.stop
      have hne₂ := hp₂.stop
      have hne₃ := hp₃.stop
      refine (ih.members hp₃ ?_).mono (by omega) fun _ _ h => h
      exact (AllPlaced.cons hobject.here (Nat.le_refl _)
          (.cons (hkey.earlier (by omega)) (by omega) (.nil (Nat.le_refl _)))).node (s := object.mark) rfl nofun
        hobject.start (by omega) hp₃.stop (by omega)
    · exact ⟨hp, hobject⟩

theorem takes_primary : Takes size 2 (d + 1) (primary (d + 1)) := by
  intro c start hf
  unfold primary
  rw [reads_here, reads_peek]
  split
  · rename_i e he
    obtain ⟨hp₁, hlast₁, hle₁, -⟩ := hf.advance fun e => by rw [e] at he; cases he
    refine ⟨hp₁.earlier hle₁ (Nat.le_refl _) (Nat.le_refl _), ?_⟩
    rw [← hlast₁] at he hle₁
    have hparts : e.parts = [] ∧ e.mark = c.advance.last ∧ e.target? = none := by
      unfold leaf? at he
      split at he <;> cases he <;> exact ⟨rfl, rfl, rfl⟩
    exact .leaf hparts.1 hparts.2.1 hparts.2.2 hle₁ hp₁.stop
  · split
    · rename_i hparen
      obtain ⟨hp₁, hlast₁, hle₁, hlen₁⟩ := hf.advance (ne_eof_of_isPunct hparen)
      rw [reads_advance]
      refine (ih.sequence hp₁.fits).bind (by omega) fun e c₂ ⟨hp₂, he⟩ => ?_
      obtain ⟨hp₂, hle₂, hlen₂⟩ := hp₁.further hp₂
      refine reads_expect fun hclose => ?_
      obtain ⟨hp₃, hle₃, hlen₃⟩ := hp₂.advance (by rw [hclose]; nofun)
      refine ⟨hp₃.earlier hle₁ (Nat.le_refl _) (Nat.le_refl _), ?_⟩
      have hne₁ := hp₁.stop
      have hne₂ := hp₂.stop
      have hne₃ := hp₃.stop
      exact (he.further (by omega) (by omega)).earlier (by rw [hlast₁]; rw [hlast₁] at hne₁; omega)
    · split
      · rename_i hbrace
        obtain ⟨hp₁, hlast₁, hle₁, hlen₁⟩ := hf.advance (ne_eof_of_isPunct hbrace)
        rw [reads_advance, ← hlast₁]
        refine (ih.entries hp₁.here).bind (by omega) fun es c₂ ⟨hp₂, hes⟩ => ?_
        refine reads_expect fun hclose => ?_
        obtain ⟨hp₃, hle₃, hlen₃⟩ := hp₂.advance (by rw [hclose]; nofun)
        rw [reads_behind]
        have hle := hes.within.le
        have hne₁ := hp₁.stop
        have hne₂ := hp₂.stop
        have hne₃ := hp₃.stop
        refine ⟨hp₃.earlier (hlast₁ ▸ hle₁) (hlast₁ ▸ Nat.le_refl _) (by omega), ?_⟩
        exact (hes.widen (Nat.le_of_lt hne₁) (by omega)).node (s := c.advance.last) rfl nofun (hlast₁ ▸ hle₁) (by omega)
          hp₃.stop (by omega)
      · exact reads_fail fun _ => nofun

theorem reads_entries {n : Nat} (hp : Past start least size n c) :
    Reads (16 * c.rest.length + 1 ≤ d + 1) (entries (d + 1)) c fun es c' =>
      Past start least size n c' ∧ AllPlaced c.last.stop c' (es.map (·.2)) := by
  unfold entries
  rw [reads_peek]
  split
  · exact ⟨hp, .nil (Nat.le_refl _)⟩
  · split
    · exact reads_fail fun _ => nofun
    · rename_i key hkey
      obtain ⟨hp₁, hle₁, hlen₁⟩ := hp.advance fun e => by rw [e] at hkey; cases hkey
      rw [reads_here, reads_advance, show c.current.span = c.advance.last from rfl]
      refine (ih.entryValue key hp₁.here).bind (by omega) fun e c₂ ⟨hp₂, he⟩ => ?_
      have hlen := hp.fewer
      have hlen₂ := hp₂.fewer
      have hle := hp₂.start
      rw [reads_peek]
      have hp₂ : Past start least size n c₂ := hp₂.earlier hp₁.start hp₁.least (by omega)
      split
      · rename_i hcomma
        obtain ⟨hp₃, hle₃, hlen₃⟩ := hp₂.advance (ne_eof_of_isPunct hcomma)
        rw [reads_advance]
        refine (ih.entries hp₃).bind (by omega) fun es c₄ ⟨hp₄, hes⟩ => ?_
        have hne₃ := hp₃.stop
        exact ⟨hp₄, .cons (he.earlier hle₁) (by omega) hes⟩
      · exact ⟨hp₂, .cons (he.earlier hle₁) (Nat.le_refl _) (.nil (Nat.le_refl _))⟩

theorem reads_entryValue {n : Nat} (key : String) (hp : Past start least size n c) :
    Reads (16 * c.rest.length + 1 ≤ d + 1) (entryValue (d + 1) key c.last) c fun e c' =>
      Past start least size n c' ∧ Placed c.last.start c' e := by
  unfold entryValue
  rw [reads_peek]
  split
  · rename_i hcolon
    obtain ⟨hp₁, hle₁, hlen₁⟩ := hp.advance (ne_eof_of_isPunct hcolon)
    rw [reads_advance]
    refine (ih.assignment hp₁.fits).mono (by omega) fun e c₂ ⟨hp₂, he⟩ => ?_
    have hne := hp.stop
    have hne₁ := hp₁.stop
    exact ⟨(hp₁.further hp₂).1, he.earlier (by omega)⟩
  · exact ⟨hp, .leaf rfl rfl rfl (Nat.le_refl _) hp.stop⟩

end step

theorem levels (size d : Nat) : Levels size d := by
  induction d with
  | zero => exact
    { sequence := fun _ => reads_tooDeep (by omega)
      sequenceRest := fun _ => reads_tooDeep (by omega)
      assignment := fun _ => reads_tooDeep (by omega)
      conditional := fun _ => reads_tooDeep (by omega)
      operand := fun _ _ _ _ => reads_tooDeep (by omega)
      operandRest := fun _ _ _ _ _ _ _ _ => reads_tooDeep (by omega)
      unary := fun _ => reads_tooDeep (by omega)
      postfixed := fun _ => reads_tooDeep (by omega)
      members := fun _ _ => reads_tooDeep (by omega)
      primary := fun _ => reads_tooDeep (by omega)
      entries := fun _ => reads_tooDeep (by omega)
      entryValue := fun _ _ => reads_tooDeep (by omega) }
  | succ d ih => exact
    { sequence := takes_sequence ih
      sequenceRest := reads_sequenceRest ih
      assignment := takes_assignment ih
      conditional := takes_conditional ih
      operand := takes_operand ih
      operandRest := extends_operandRest ih
      unary := takes_unary ih
      postfixed := takes_postfixed ih
      members := extends_members ih
      primary := takes_primary ih
      entries := reads_entries ih
      entryValue := reads_entryValue ih }

/-! ## Programs -/

/-- A statement has a span, and its expression is laid out in it. -/
structure Statement.Laid (s : Statement Span) : Prop where
  nonempty : s.mark.start < s.mark.stop
  within : Within s.mark.start (s.parts.map Term.mark) s.mark.stop
  parts : ∀ e ∈ s.parts, e.Laid

/-- The statements of a program are laid out in its span, one after the other, and the span
    lies in the text. -/
structure Program.Laid (p : Program Span) (size : Nat) : Prop where
  stop : p.mark.stop ≤ size
  within : Within p.mark.start (p.body.map Statement.mark) p.mark.stop
  parts : ∀ s ∈ p.body, s.Laid

/-- A statement whose span goes from its first lexeme to its last. -/
theorem Past.statement {e : Term Span} {s : Span} (hp : Past s.start s.stop size n c') (he : Placed s.start c e)
    (hs : c.last.stop ≤ c'.last.stop) :
    (Statement.expression (s.merge c'.last) e).Laid ∧ s.start ≤ (s.merge c'.last).start ∧
      (s.merge c'.last).stop ≤ c'.last.stop := by
  have hne := he.laid.nonempty
  have h₁ := he.start
  have h₂ := he.stop
  have hstart : (s.merge c'.last).start = s.start := Nat.min_eq_left hp.start
  have hstop : (s.merge c'.last).stop = c'.last.stop := Nat.max_eq_right hp.least
  refine ⟨⟨?_, ?_, List.forall_mem_singleton.mpr he.laid⟩, Nat.le_of_eq hstart.symm, Nat.le_of_eq hstop⟩
  · show (s.merge c'.last).start < (s.merge c'.last).stop
    omega
  · show (s.merge c'.last).start ≤ e.mark.start ∧ e.mark.start ≤ e.mark.stop ∧ e.mark.stop ≤ (s.merge c'.last).stop
    omega

theorem reads_statement (hf : c.Fits start size) (ht : c.current.token ≠ .eof) :
    Reads (16 * c.rest.length + 14 ≤ d) (statement d) c fun s c' =>
      Past start c.current.span.stop size c.rest.length c' ∧ s.Laid ∧ start ≤ s.mark.start ∧
        s.mark.stop ≤ c'.last.stop := by
  obtain ⟨hp₁, hlast₁, hle₁, hlen₁⟩ := hf.advance ht
  unfold statement
  rw [reads_here, reads_peek]
  split
  · refine ⟨hp₁.earlier hle₁ (Nat.le_refl _) (Nat.le_refl _), ⟨?_, ?_, nofun⟩, hle₁, hp₁.least⟩
    · exact hlast₁ ▸ hp₁.stop
    · exact hlast₁ ▸ Nat.le_of_lt hp₁.stop
  · refine ((levels size d).sequence hf.current.1).bind id fun e c₁ ⟨hp₂, he⟩ => ?_
    rw [reads_peek]
    split
    · rename_i hsemicolon
      obtain ⟨hp₃, hle₃, -⟩ := hp₂.advance (by rw [hsemicolon]; nofun)
      obtain ⟨hlaid, hstart, hstop⟩ := hp₃.statement he (Nat.le_trans hle₃ (Nat.le_of_lt hp₃.stop))
      exact ⟨hp₃.earlier hle₁ (Nat.le_refl _) (Nat.le_refl _), hlaid, Nat.le_trans hle₁ hstart, hstop⟩
    · obtain ⟨hlaid, hstart, hstop⟩ := hp₂.statement he (Nat.le_refl _)
      exact ⟨hp₂.earlier hle₁ (Nat.le_refl _) (Nat.le_refl _), hlaid, Nat.le_trans hle₁ hstart, hstop⟩
    · have hfail : Reads (16 * c.rest.length + 14 ≤ d) (fail (α := Unit) (.unexpected c₁.current.token)) c₁ fun _ _ => False :=
        reads_fail fun _ => nofun
      exact hfail.bind id fun _ _ h => h.elim

theorem Cursor.Fits.length_pos (hf : c.Fits start size) (ht : c.current.token ≠ .eof) : 0 < c.rest.length :=
  Nat.lt_of_le_of_lt (Nat.zero_le _) (hf.advance ht).1.fewer

theorem reads_statements {limit : Nat} (hf : c.Fits start size) (hs : start ≤ c.last.stop) (hl : c.last.stop ≤ size)
    (hlimit : c.rest.length ≤ limit) :
    Reads (16 * c.rest.length + 14 ≤ d) (statements d limit) c fun ss c' =>
      c'.last.stop ≤ size ∧ Within start (ss.map Statement.mark) c'.last.stop ∧ ∀ s ∈ ss, s.Laid := by
  induction limit generalizing c start with
  | zero =>
    unfold statements
    rw [reads_peek]
    split
    · exact ⟨hl, hs, nofun⟩
    · rename_i ht
      exact absurd (hf.length_pos ht) (by omega)
  | succ limit ih =>
    unfold statements
    rw [reads_peek]
    split
    · exact ⟨hl, hs, nofun⟩
    · rename_i ht
      refine (reads_statement hf ht).bind id fun s c₁ ⟨hp₁, hlaid, hstart, hstop⟩ => ?_
      have hlen := hp₁.fewer
      refine (ih hp₁.fits (Nat.le_refl _) hp₁.le (by omega)).bind (by omega) fun ss c₂ ⟨hle, hwithin, hall⟩ => ?_
      refine ⟨hle, ⟨hstart, Nat.le_of_lt hlaid.nonempty, hwithin.widen hstop (Nat.le_refl _)⟩, ?_⟩
      exact List.forall_mem_cons.mpr ⟨hlaid, hall⟩

/-- The lexemes of a source text fit in it. -/
theorem fits_ofSource (source : String) : (Cursor.ofSource source).Fits 0 (bytes source.toList) :=
  ⟨(lexemes_lined source).2, (lexemes_lined source).1⟩

theorem reads_program (source : String) :
    Reads True (program (depthPerLexeme * ((Cursor.ofSource source).rest.length + 1)) (Cursor.ofSource source).rest.length)
      (Cursor.ofSource source) fun p _ => p.Laid (bytes source.toList) := by
  have hlast : (Cursor.ofSource source).last = (Cursor.ofSource source).current.span := rfl
  obtain ⟨hf, hne, hstop⟩ := (fits_ofSource source).current
  generalize Cursor.ofSource source = c at *
  unfold program
  rw [reads_here]
  refine (reads_statements hf (hlast ▸ hne) (hlast ▸ hstop) (Nat.le_refl _)).bind ?_ fun body c₁ ⟨hle, hwithin, hlaid⟩ => ?_
  · intro _
    unfold depthPerLexeme
    omega
  · rw [reads_behind]
    exact ⟨Nat.max_le.mpr ⟨hstop, hle⟩, hwithin.widen (Nat.min_le_left _ _) (Nat.le_max_right _ _), hlaid⟩

/-- A parse gives a program that is laid out in the text, or an error other than depth. -/
theorem parse_outcome (source : String) :
    (∃ p, parse source = .ok p ∧ p.Laid (bytes source.toList)) ∨
      ∃ err, parse source = .error err ∧ err.fault ≠ .tooDeep := by
  have hr := reads_program source
  unfold Reads at hr
  unfold parse
  simp only [StateT.run]
  split at hr
  · rename_i p c e
    rw [e]
    exact .inl ⟨p, rfl, hr⟩
  · rename_i err e
    rw [e]
    exact .inr ⟨err, rfl, hr trivial⟩

/-- A program is laid out in its source text. -/
theorem laid_parse {source : String} {p : Program Span} (h : parse source = .ok p) : p.Laid (bytes source.toList) := by
  rcases parse_outcome source with ⟨q, e, hlaid⟩ | ⟨err, e, -⟩
  · cases h.symm.trans e
    exact hlaid
  · cases h.symm.trans e

/-- The depth of a parse is not used up. -/
theorem parse_deep {source : String} {err : ParseError} (h : parse source = .error err) : err.fault ≠ .tooDeep := by
  rcases parse_outcome source with ⟨q, e, -⟩ | ⟨err', e, hfault⟩
  · cases h.symm.trans e
  · cases h.symm.trans e
    exact hfault

end Eventful.Expr
