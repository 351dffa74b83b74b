import Eventful.Proofs.Expr.Parsing

/-
  Eventful.Proofs.Expr.Leaves — where the leaves of a parsed tree come from.

  A name or a literal of the tree is a lexeme with its span. An object has one kind of value
  besides: a key alone is its own value, a name with the span of the key (`KeyAlone`). The
  parser keeps to this at every level (`levels_sourced`), so it is true of all programs
  (`sourced_parse`), and it is read off a listing node by node (`BodySourced.name_sourced`).
-/

namespace Eventful.Expr

variable {μ : Type} {ls : List Lexeme} {c : Cursor} {d : Nat} {e l r : Term Span} {key name : String} {span : Span}

/-! ## Leaves and lexemes -/

/-- A key that is written as a text or a number. -/
inductive LiteralKey : Token → String → Prop
  | text (s : String) : LiteralKey (.text s) s
  | number (x : Float) : LiteralKey (.number x) (Number.text x)

/-- The key is a literal among the lexemes, and no colon comes after it. -/
inductive KeyAlone (ls : List Lexeme) (key : String) (span : Span) : Prop
  | mk {before after : List Lexeme} {t : Token} : ls = before ++ ⟨t, span⟩ :: after → LiteralKey t key →
    (∀ l ∈ after.head?, l.token ≠ .punct .colon) → KeyAlone ls key span

/-- The value of an entry that is a key alone. -/
def FromKey (ls : List Lexeme) (key : String) (value : Term Span) : Prop :=
  ∃ span, value = .name span key ∧ KeyAlone ls key span

/-- The leaves of the tree are lexemes, or values of keys that stand alone. -/
inductive Term.Sourced (ls : List Lexeme) : Term Span → Prop
  | leaf {t : Token} {span : Span} {e : Term Span} : ⟨t, span⟩ ∈ ls → leaf? span t = some e → e.Sourced ls
  | object {m : Span} {es : List (String × Term Span)} :
    (∀ entry ∈ es, ¬FromKey ls entry.1 entry.2 → entry.2.Sourced ls) → (Term.object m es).Sourced ls
  | node {e : Term Span} : e.parts ≠ [] → (∀ p ∈ e.parts, p.Sourced ls) → e.Sourced ls

theorem Term.Sourced.one {arg : Term Span} (hp : e.parts = [arg]) (h : arg.Sourced ls) : e.Sourced ls :=
  .node (by rw [hp]; exact List.cons_ne_nil _ _) (by rw [hp]; exact List.forall_mem_singleton.mpr h)

theorem Term.Sourced.two (hp : e.parts = [l, r]) (hl : l.Sourced ls) (hr : r.Sourced ls) : e.Sourced ls :=
  .node (by rw [hp]; exact List.cons_ne_nil _ _) (by
    rw [hp]
    exact List.forall_mem_cons.mpr ⟨hl, List.forall_mem_singleton.mpr hr⟩)

/-! ## Cursors -/

/-- What is left for a cursor is an end of the lexemes. -/
structure Cursor.Left (c : Cursor) (ls : List Lexeme) : Prop where
  rest : c.rest <:+ ls
  eof : c.eof.token = .eof

theorem Cursor.Left.advance (h : c.Left ls) : c.advance.Left ls := ⟨(List.tail_suffix _).trans h.rest, h.eof⟩

theorem Cursor.Left.current (h : c.Left ls) (ht : c.current.token ≠ .eof) :
    ∃ before, ls = before ++ c.current :: c.advance.rest := by
  obtain ⟨rest, eof, last⟩ := c
  obtain ⟨⟨before, h⟩, heof⟩ := h
  cases rest with
  | nil => exact absurd heof ht
  | cons l rest => exact ⟨before, h.symm⟩

theorem Cursor.Left.current_mem (h : c.Left ls) (ht : c.current.token ≠ .eof) : c.current ∈ ls := by
  obtain ⟨before, hls⟩ := h.current ht
  rw [hls]
  exact List.mem_append_right _ List.mem_cons_self

/-! ## The levels -/

/-- What the parse takes has its leaves from the lexemes. -/
def Sources (ls : List Lexeme) (p : Parse (Term Span)) : Prop :=
  ∀ {c : Cursor}, c.Left ls → Reads False p c fun e c' => c'.Left ls ∧ e.Sourced ls

/-- The next parse goes on from what the one before left. -/
theorem Reads.onward {α β : Type} {p : Parse α} {f : α → Parse β} {has : α → Prop} {post : β → Cursor → Prop}
    (hp : Reads False p c fun a c' => c'.Left ls ∧ has a)
    (hf : ∀ a c', c'.Left ls → has a → Reads False (f a) c' post) : Reads False (p >>= f) c post :=
  hp.bind id fun a c' h => hf a c' h.1 h.2

/-- An entry whose value has its leaves from the lexemes or from its key. -/
def EntrySourced (ls : List Lexeme) (entry : String × Term Span) : Prop :=
  ¬FromKey ls entry.1 entry.2 → entry.2.Sourced ls

/-- What the levels do at one depth. -/
structure LevelsSourced (ls : List Lexeme) (d : Nat) : Prop where
  sequence : Sources ls (sequence d)
  sequenceRest : ∀ {c : Cursor}, c.Left ls →
    Reads False (sequenceRest d) c fun es c' => c'.Left ls ∧ ∀ e ∈ es, e.Sourced ls
  assignment : Sources ls (assignment d)
  conditional : Sources ls (conditional d)
  operand : ∀ level, Sources ls (operand d level)
  operandRest : ∀ level {left : Term Span}, left.Sourced ls → Sources ls (operandRest d level left)
  unary : Sources ls (unary d)
  postfixed : Sources ls (postfixed d)
  members : ∀ {object : Term Span}, object.Sourced ls → Sources ls (members d object)
  primary : Sources ls (primary d)
  entries : ∀ {c : Cursor}, c.Left ls →
    Reads False (entries d) c fun es c' => c'.Left ls ∧ ∀ entry ∈ es, EntrySourced ls entry
  entryValue : ∀ {c : Cursor} {before : List Lexeme} {t : Token} {key : String} {span : Span}, c.Left ls →
    ls = before ++ ⟨t, span⟩ :: c.rest → entryKey? t = some key →
    Reads False (entryValue d key span) c fun e c' => c'.Left ls ∧ EntrySourced ls (key, e)

section step

variable (ih : LevelsSourced ls d)

include ih

theorem sources_sequence : Sources ls (sequence (d + 1)) := by
  intro c hc
  unfold sequence
  refine (ih.assignment hc).onward fun first c₁ hc₁ hfirst => ?_
  rw [reads_peek]
  split
  · refine (ih.sequenceRest hc₁).onward fun rest c₂ hc₂ hrest => ?_
    exact ⟨hc₂, .node (List.cons_ne_nil _ _) (List.forall_mem_cons.mpr ⟨hfirst, hrest⟩)⟩
  · exact ⟨hc₁, hfirst⟩

theorem sourced_sequenceRest (hc : c.Left ls) :
    Reads False (sequenceRest (d + 1)) c fun es c' => c'.Left ls ∧ ∀ e ∈ es, e.Sourced ls := by
  unfold sequenceRest
  rw [reads_peek]
  split
  · rw [reads_advance]
    refine (ih.assignment hc.advance).onward fun e c₁ hc₁ he => ?_
    refine (ih.sequenceRest hc₁).onward fun es c₂ hc₂ hes => ?_
    exact ⟨hc₂, List.forall_mem_cons.mpr ⟨he, hes⟩⟩
  · exact ⟨hc, List.forall_mem_nil _⟩

theorem sources_assignment : Sources ls (assignment (d + 1)) := by
  intro c hc
  unfold assignment
  refine (ih.conditional hc).onward fun target c₁ hc₁ htarget => ?_
  rw [reads_peek]
  split
  · exact ⟨hc₁, htarget⟩
  · split
    · rw [reads_advance]
      refine (ih.assignment hc₁.advance).onward fun value c₂ hc₂ hvalue => ?_
      exact ⟨hc₂, .two rfl htarget hvalue⟩
    · exact reads_fail nofun

theorem sources_conditional : Sources ls (conditional (d + 1)) := by
  intro c hc
  unfold conditional
  refine (ih.operand loosest hc).onward fun test c₁ hc₁ htest => ?_
  rw [reads_peek]
  split
  · rw [reads_advance]
    refine (ih.assignment hc₁.advance).onward fun yes c₂ hc₂ hyes => ?_
    refine reads_expect fun _ => ?_
    refine (ih.assignment hc₂.advance).onward fun no c₃ hc₃ hno => ?_
    refine ⟨hc₃, .node (List.cons_ne_nil _ _) ?_⟩
    exact List.forall_mem_cons.mpr ⟨htest, List.forall_mem_cons.mpr ⟨hyes, List.forall_mem_singleton.mpr hno⟩⟩
  · exact ⟨hc₁, htest⟩

theorem sources_operand (level : Nat) : Sources ls (operand (d + 1) level) := by
  intro c hc
  cases level with
  | zero =>
    unfold operand
    exact ih.unary hc
  | succ level =>
    unfold operand
    exact (ih.operand level hc).onward fun left c₁ hc₁ hleft => ih.operandRest (level + 1) hleft hc₁

theorem sources_operandRest (level : Nat) {left : Term Span} (hleft : left.Sourced ls) :
    Sources ls (operandRest (d + 1) level left) := by
  intro c hc
  unfold operandRest
  rw [reads_peek]
  split
  · exact ⟨hc, hleft⟩
  · rename_i op _
    rw [reads_advance]
    refine (ih.operand (level - 1) hc.advance).onward fun right c₁ hc₁ hright => ?_
    exact ih.operandRest level (by cases op <;> exact .two rfl hleft hright) hc₁

theorem sources_unary : Sources ls (unary (d + 1)) := by
  intro c hc
  unfold unary
  rw [reads_here, reads_peek]
  split
  · rw [reads_advance]
    refine (ih.unary hc.advance).onward fun target c₁ hc₁ htarget => ?_
    split
    · exact ⟨hc₁, .one rfl htarget⟩
    · exact reads_failAt nofun
  · split
    · rw [reads_advance]
      exact (ih.unary hc.advance).onward fun arg c₁ hc₁ harg => ⟨hc₁, .one rfl harg⟩
    · exact ih.postfixed hc

theorem sources_postfixed : Sources ls (postfixed (d + 1)) := by
  intro c hc
  unfold postfixed
  refine (ih.primary hc).onward fun object c₁ hc₁ hobject => ?_
  refine (ih.members hobject hc₁).onward fun target c₂ hc₂ htarget => ?_
  rw [reads_peek]
  split
  · exact ⟨hc₂, htarget⟩
  · split
    · exact ⟨hc₂.advance, .one rfl htarget⟩
    · exact reads_fail nofun

theorem sources_members {object : Term Span} (hobject : object.Sourced ls) : Sources ls (members (d + 1) object) := by
  intro c hc
  unfold members
  rw [reads_peek]
  split
  · rw [reads_advance, reads_peek]
    split
    · rw [reads_advance, reads_behind]
      exact ih.members (.one rfl hobject) hc.advance.advance
    · exact reads_fail nofun
  · split
    · rw [reads_advance]
      refine (ih.sequence hc.advance).onward fun key c₁ hc₁ hkey => ?_
      refine reads_expect fun _ => ?_
      rw [reads_behind]
      exact ih.members (.two rfl hobject hkey) hc₁.advance
    · exact ⟨hc, hobject⟩

theorem sources_primary : Sources ls (primary (d + 1)) := by
  intro c hc
  unfold primary
  rw [reads_here, reads_peek]
  split
  · rename_i e he
    have hmem : c.current ∈ ls := hc.current_mem fun heof => by rw [heof] at he; cases he
    exact ⟨hc.advance, .leaf hmem he⟩
  · split
    · rw [reads_advance]
      refine (ih.sequence hc.advance).onward fun e c₁ hc₁ he => ?_
      exact reads_expect fun _ => ⟨hc₁.advance, he⟩
    · split
      · rw [reads_advance]
        refine (ih.entries hc.advance).onward fun es c₁ hc₁ hes => ?_
        refine reads_expect fun _ => ?_
        exact ⟨hc₁.advance, .object hes⟩
      · exact reads_fail nofun

theorem sourced_entries (hc : c.Left ls) :
    Reads False (entries (d + 1)) c fun es c' => c'.Left ls ∧ ∀ entry ∈ es, EntrySourced ls entry := by
  unfold entries
  rw [reads_peek]
  split
  · exact ⟨hc, List.forall_mem_nil _⟩
  · split
    · exact reads_fail nofun
    · rename_i key hkey
      obtain ⟨before, hls⟩ := hc.current fun heof => by rw [heof] at hkey; cases hkey
      rw [reads_here, reads_advance]
      refine (ih.entryValue hc.advance hls hkey).onward fun value c₁ hc₁ hvalue => ?_
      rw [reads_peek]
      split
      · rw [reads_advance]
        refine (ih.entries hc₁.advance).onward fun es c₂ hc₂ hes => ?_
        exact ⟨hc₂, List.forall_mem_cons.mpr ⟨hvalue, hes⟩⟩
      · exact ⟨hc₁, List.forall_mem_singleton.mpr hvalue⟩

/-- The only value that is not read from the lexemes on is that of a key alone. -/
theorem sourced_entryValue {before : List Lexeme} {t : Token} (hc : c.Left ls) (hls : ls = before ++ ⟨t, span⟩ :: c.rest)
    (hkey : entryKey? t = some key) :
    Reads False (entryValue (d + 1) key span) c fun e c' => c'.Left ls ∧ EntrySourced ls (key, e) := by
  unfold entryValue
  rw [reads_peek]
  split
  · rw [reads_advance]
    exact (ih.assignment hc.advance).mono id fun e c₁ h₁ => ⟨h₁.1, fun _ => h₁.2⟩
  · rename_i hcolon
    have hafter : ∀ l ∈ c.rest.head?, l.token ≠ .punct .colon := by
      intro l hl ht
      have hcurrent : c.current = l := by rw [Cursor.current, Option.mem_def.mp hl]; rfl
      exact hcolon (isPunct_iff.mpr (hcurrent ▸ ht))
    have hmem : ⟨t, span⟩ ∈ ls := hls ▸ List.mem_append_right _ List.mem_cons_self
    refine ⟨hc, fun hnot => ?_⟩
    unfold entryKey? at hkey
    split at hkey <;> cases hkey
    · exact .leaf hmem rfl
    · exact absurd ⟨span, rfl, .mk hls (.text key) hafter⟩ hnot
    · exact absurd ⟨span, rfl, .mk hls (.number _) hafter⟩ hnot

end step

theorem levels_sourced (ls : List Lexeme) (d : Nat) : LevelsSourced ls d := by
  induction d with
  | zero => exact
    { sequence := fun _ => reads_tooDeep id
      sequenceRest := fun _ => reads_tooDeep id
      assignment := fun _ => reads_tooDeep id
      conditional := fun _ => reads_tooDeep id
      operand := fun _ _ _ => reads_tooDeep id
      operandRest := fun _ _ _ _ _ => reads_tooDeep id
      unary := fun _ => reads_tooDeep id
      postfixed := fun _ => reads_tooDeep id
      members := fun _ _ _ => reads_tooDeep id
      primary := fun _ => reads_tooDeep id
      entries := fun _ => reads_tooDeep id
      entryValue := fun _ _ _ => reads_tooDeep id }
  | succ d ih => exact
    { sequence := sources_sequence ih
      sequenceRest := sourced_sequenceRest ih
      assignment := sources_assignment ih
      conditional := sources_conditional ih
      operand := sources_operand ih
      operandRest := sources_operandRest ih
      unary := sources_unary ih
      postfixed := sources_postfixed ih
      members := sources_members ih
      primary := sources_primary ih
      entries := sourced_entries ih
      entryValue := sourced_entryValue ih }

/-! ## Programs -/

/-- The expressions of the statements have their leaves from the lexemes. -/
def BodySourced (ls : List Lexeme) (body : List (Statement Span)) : Prop := ∀ s ∈ body, ∀ e ∈ s.parts, e.Sourced ls

theorem sourced_statement (hc : c.Left ls) :
    Reads False (statement d) c fun s c' => c'.Left ls ∧ ∀ e ∈ s.parts, e.Sourced ls := by
  unfold statement
  rw [reads_here, reads_peek]
  split
  · exact ⟨hc.advance, nofun⟩
  · refine ((levels_sourced ls d).sequence hc).onward fun e c₁ hc₁ he => ?_
    rw [reads_peek]
    split
    · exact ⟨hc₁.advance, List.forall_mem_singleton.mpr he⟩
    · exact ⟨hc₁, List.forall_mem_singleton.mpr he⟩
    · have hfail : Reads False (fail (α := Unit) (.unexpected c₁.current.token)) c₁ fun _ _ => False := reads_fail nofun
      exact hfail.bind id fun _ _ h => h.elim

theorem sourced_statements {limit : Nat} (hc : c.Left ls) :
    Reads False (statements d limit) c fun ss _ => BodySourced ls ss := by
  induction limit generalizing c with
  | zero =>
    unfold statements
    rw [reads_peek]
    split
    · exact nofun
    · exact reads_tooDeep id
  | succ limit ih =>
    unfold statements
    rw [reads_peek]
    split
    · exact nofun
    · refine (sourced_statement hc).onward fun s c₁ hc₁ hs => ?_
      exact (ih hc₁).bind id fun ss c₂ hss => List.forall_mem_cons.mpr ⟨hs, hss⟩

theorem left_ofSource (source : String) : (Cursor.ofSource source).Left (lexemes source).1 :=
  ⟨List.suffix_refl _, congrArg Lexeme.token (lexemes_lined source).2⟩

/-- The leaves of a program are lexemes of its text, or values of keys that stand alone there. -/
theorem sourced_parse {source : String} {p : Program Span} (h : parse source = .ok p) :
    BodySourced (lexemes source).1 p.body := by
  have hread : Reads False
      (program (depthPerLexeme * ((Cursor.ofSource source).rest.length + 1)) (Cursor.ofSource source).rest.length)
      (Cursor.ofSource source) fun p _ => BodySourced (lexemes source).1 p.body := by
    unfold program
    rw [reads_here]
    exact (sourced_statements (left_ofSource source)).bind id fun body c₁ hbody => hbody
  unfold parse at h
  unfold Reads at hread
  simp only [StateT.run] at h
  split at hread
  · rename_i q c₁ hq
    rw [hq] at h
    cases h
    exact hread
  · rename_i err hq
    rw [hq] at h
    cases h

/-! ## Listings -/

variable {nodes : Listing Span} {start i : Nat} {node : Node} {mark : Span} {bs : List (Block Span)}

/-- The node is the value of an entry with the key. -/
def EntryAt (nodes : Listing μ) (key : String) (i : Nat) : Prop :=
  ∃ (j : Nat) (entries : List (String × Nat)) (mark : μ),
    nodes[j]? = some (.object entries, mark) ∧ (key, i) ∈ entries

/-- What a name node of the listing comes from. -/
def NameSourced (ls : List Lexeme) (nodes : Listing Span) (i : Nat) (name : String) (span : Span) : Prop :=
  ⟨.name name, span⟩ ∈ ls ∨ (KeyAlone ls name span ∧ EntryAt nodes name i)

/-- A number taken up by entries belongs to one of them, and the entry has the number of its
    value. -/
theorem entries_cover {nodes : Listing μ} {es : List (String × Term μ)} (hs : Sits nodes start (listEntries start es))
    (hi : start ≤ i) (hi' : i < start + countEntries es) :
    ∃ entry ∈ es, ∃ k, Sits nodes k (entry.2.listing k) ∧ k ≤ i ∧ i < k + entry.2.count ∧
      (entry.1, entry.2.number k) ∈ numberEntries start es := by
  induction es generalizing start with
  | nil => exact absurd hi' (by rw [countEntries]; omega)
  | cons entry es ih =>
    rw [listEntries, sits_append, Term.length_listing] at hs
    rcases Nat.lt_or_ge i (start + entry.2.count) with hlt | hge
    · exact ⟨entry, List.mem_cons_self, start, hs.1, hi, hlt, List.mem_cons_self⟩
    · rw [countEntries, ← Nat.add_assoc] at hi'
      obtain ⟨entry', hmem, k, hk, hki, hki', hnumber⟩ := ih hs.2 hge hi'
      exact ⟨entry', List.mem_cons_of_mem _ hmem, k, hk, hki, hki', List.mem_cons_of_mem _ hnumber⟩

/-- A name among the nodes of blocks and of a root that is no name stands in one of the blocks. -/
theorem name_in_part (h : ∀ b ∈ bs, b.Proper) (hs : Sits nodes start (listAll start bs ++ [(node, mark)]))
    (hnode : node ≠ .name name) (hi : start ≤ i) (hi' : i < start + countAll bs + 1)
    (hat : nodes[i]? = some (.name name, span)) :
    ∃ b ∈ bs, ∃ k, Sits nodes k (b.listing k) ∧ k ≤ i ∧ i < k + b.count := by
  rw [sits_append, length_listAll h, sits_singleton] at hs
  rcases Nat.lt_or_ge i (start + countAll bs) with hlt | hge
  · exact sits_cover h hs.1 hi hlt
  · obtain rfl : i = start + countAll bs := by omega
    rw [hs.2] at hat
    exact absurd (congrArg Prod.fst (Option.some.inj hat)) hnode

theorem Term.node_ne_name (hp : e.parts ≠ []) (start : Nat) : e.node start ≠ .name name := by
  cases e with
  | name => exact absurd rfl hp
  | _ => nofun

/-- The entries of an object stand before it. -/
theorem sits_object {m : Span} {es : List (String × Term Span)} (hs : Sits nodes start ((Term.object m es).listing start)) :
    Sits nodes start (listEntries start es) ∧
      nodes[start + countEntries es]? = some (.object (numberEntries start es), m) := by
  have hproper : ∀ b ∈ (es.map (·.2)).map Term.block, b.Proper := List.forall_mem_map.mpr fun e _ => e.proper
  have hlength : (listEntries start es).length = countEntries es := by
    rw [listEntries_eq, length_listAll hproper, countEntries_eq]
  rwa [Term.listing, sits_append, hlength, sits_singleton] at hs

theorem Term.Sourced.name_sourced (h : e.Sourced ls) (hs : Sits nodes start (e.listing start)) (hi : start ≤ i)
    (hi' : i < start + e.count) (hat : nodes[i]? = some (.name name, span)) : NameSourced ls nodes i name span := by
  induction h generalizing start with
  | @leaf t span' e hmem hleaf =>
    have hlisting : e.count = 1 ∧ e.listing start = [(e.node start, e.mark)] := by
      unfold leaf? at hleaf
      split at hleaf <;> cases hleaf <;> exact ⟨rfl, rfl⟩
    obtain rfl : i = start := by omega
    rw [hlisting.2, sits_singleton, hat] at hs
    unfold leaf? at hleaf
    split at hleaf <;> cases hleaf <;> cases hs
    exact .inl hmem
  | @object m es _ ih =>
    obtain ⟨hentries, hroot⟩ := sits_object hs
    rw [Term.count, ← Nat.add_assoc] at hi'
    rcases Nat.lt_or_ge i (start + countEntries es) with hlt | hge
    · obtain ⟨⟨key, value⟩, hmem, k, hk, hki, hki', hnumber⟩ := entries_cover hentries hi hlt
      by_cases hkey : FromKey ls key value
      · obtain ⟨span', rfl, halone⟩ := hkey
        obtain rfl : i = k := Nat.le_antisymm (Nat.le_of_lt_succ hki') hki
        cases hat.symm.trans (sits_singleton.mp hk)
        exact .inr ⟨halone, _, _, _, hroot, hnumber⟩
      · exact ih _ hmem hkey hk hki hki'
    · obtain rfl : i = start + countEntries es := by omega
      cases hat.symm.trans hroot
  | @node e hne _ ih =>
    have hproper : ∀ b ∈ e.parts.map Term.block, b.Proper := List.forall_mem_map.mpr fun p _ => p.proper
    rw [e.listing_eq] at hs
    rw [e.count_eq, ← Nat.add_assoc] at hi'
    obtain ⟨b, hb, k, hk, hki, hki'⟩ := name_in_part hproper hs (e.node_ne_name hne start) hi hi' hat
    obtain ⟨p, hp, rfl⟩ := List.mem_map.mp hb
    exact ih p hp hk hki hki'

theorem Statement.name_sourced {s : Statement Span} (h : ∀ e ∈ s.parts, e.Sourced ls)
    (hs : Sits nodes start (s.listing start)) (hi : start ≤ i) (hi' : i < start + s.count)
    (hat : nodes[i]? = some (.name name, span)) : NameSourced ls nodes i name span := by
  have hproper : ∀ b ∈ s.parts.map Term.block, b.Proper := List.forall_mem_map.mpr fun e _ => e.proper
  have hroot : s.node start ≠ .name name := by cases s <;> nofun
  rw [s.listing_eq] at hs
  rw [s.count_eq, ← Nat.add_assoc] at hi'
  obtain ⟨b, hb, k, hk, hki, hki'⟩ := name_in_part hproper hs hroot hi hi' hat
  obtain ⟨e, he, rfl⟩ := List.mem_map.mp hb
  exact (h e he).name_sourced hk hki hki' hat

/-- Each name node of a program is a lexeme, or the value of a key that stands alone. -/
theorem BodySourced.name_sourced {p : Program Span} (h : BodySourced ls p.body)
    (hat : p.listing[i]? = some (.name name, span)) : NameSourced ls p.listing i name span := by
  have hproper : ∀ b ∈ p.body.map Statement.block, b.Proper := List.forall_mem_map.mpr fun s _ => s.proper
  have hs : Sits p.listing 0 (listAll 0 (p.body.map Statement.block) ++
      [(.program (numberAll 0 (p.body.map Statement.block)), p.mark)]) := by
    rw [← p.listing_eq]
    exact sits_self p.listing
  have hlt : i < 0 + countAll (p.body.map Statement.block) + 1 := by
    have hlength := (List.getElem?_eq_some_iff.mp hat).1
    rwa [p.listing_eq, List.length_append, length_listAll hproper, ← Nat.zero_add (countAll _)] at hlength
  obtain ⟨b, hb, k, hk, hki, hki'⟩ := name_in_part hproper hs nofun (Nat.zero_le i) hlt hat
  obtain ⟨s, hmem, rfl⟩ := List.mem_map.mp hb
  exact s.name_sourced (h s hmem) hk hki hki' hat

end Eventful.Expr
