import Eventful.Proofs.Expr.Caching
import Eventful.Proofs.Expr.Paths
import Eventful.Proofs.Expr.RoundTrip
import Eventful.Proofs.Scope.Dotted

/-
  Eventful.Proofs.Expr.Dotted — names with dots between them, as an expression and as a path.

  As an expression the names are a name and members of it (`parse_dotted`), and each is read
  off the value before it; as a path they are keys of objects in objects. Both come to the
  same value, but for the length of a text: there is one to be read off the text, and it is
  no key of an object (`follow_cases`).

  - `dotted_reads`: what the expression comes to, and when the path says something else.
  - `textLength_parts`: a length that the path does not find.
-/

namespace Eventful

namespace Scope

variable {v : Value} {path : List String}

/-! ## Following and reading -/

/-- The path ends in the length of a text. -/
def EndsInLength (path : List String) (v : Value) (t : String) : Prop :=
  ∃ q, path = q ++ ["length"] ∧ v.along q = .text t

theorem along_undefined (keys : List String) : Value.along keys .undefined = .undefined := by
  induction keys with
  | nil => rfl
  | cons key keys ih => exact ih

/-- What is followed is what is read, but for the length of a text. -/
theorem follow_cases (path : List String) (v : Value) :
    follow path v = v.along path ∨
      ∃ t, EndsInLength path v t ∧ follow path v = .undefined ∧ v.along path = .number (Float.ofNat t.length) := by
  induction path generalizing v with
  | nil => exact .inl rfl
  | cons key keys ih =>
    have hmissing (h : v.get key = .undefined) : Value.along (key :: keys) v = .undefined := by
      rw [Value.along_cons, h, along_undefined]
    rw [follow]
    cases v with
    | object fs =>
      cases hget : Fields.get? key fs with
      | none =>
        have hundefined : (Value.object fs).get key = .undefined := by rw [Value.get, hget]; rfl
        rw [hmissing hundefined]
        exact .inl (by simp [Value.fields?, hget])
      | some next =>
        have hnext : (Value.object fs).get key = next := by rw [Value.get, hget]; rfl
        have hfollow : (Value.object fs).fields?.bind (Fields.get? key) = some next := hget
        rw [hfollow, Value.along_cons, hnext]
        rcases ih next with h | ⟨t, ⟨q, rfl, hq⟩, h⟩
        · exact .inl h
        · exact .inr ⟨t, ⟨key :: q, rfl, by rw [Value.along_cons, hnext, hq]⟩, h⟩
    | text t =>
      by_cases hkey : key = "length"
      · subst hkey
        -- Beyond the length both come to nothing: a number has no keys.
        cases keys with
        | nil => exact .inr ⟨t, ⟨[], rfl, rfl⟩, rfl, rfl⟩
        | cons key keys => exact .inl (along_undefined keys).symm
      · have hundefined : (Value.text t).get key = .undefined := by simp [Value.get, hkey]
        exact .inl (hmissing hundefined).symm
    | _ => exact .inl (hmissing rfl).symm

end Scope

namespace Expr

variable {μ σ : Type} {s : Scope σ} {c : Char} {cs rest : List Char} {key : String} {path : List String}

/-! ## Names in a text -/

/-- The text is a name, and no keyword. -/
def isName (key : String) : Bool :=
  match key.toList with
  | [] => false
  | c :: cs => isNameStart c && cs.all isNamePart && (keyword? key).isNone

theorem isName_iff : isName key = true ↔
    ∃ c cs, key.toList = c :: cs ∧ isNameStart c = true ∧ (∀ d ∈ cs, isNamePart d = true) ∧ keyword? key = none := by
  unfold isName
  cases h : key.toList with
  | nil => simp
  | cons c cs => simp [and_assoc]

theorem digit_of_nameStart (h : isNameStart c = true) : c.isDigit = false := by
  unfold isNameStart at h
  rw [Bool.or_eq_true, Bool.or_eq_true, beq_iff_eq, beq_iff_eq] at h
  rcases h with (h | rfl) | rfl
  · cases hdigit : c.isDigit with
    | false => rfl
    | true =>
      have hsmall : c.toNat < 0x41 := by
        simp only [Char.isDigit, Bool.and_eq_true, decide_eq_true_eq] at hdigit
        exact Nat.lt_of_le_of_lt (UInt32.le_iff_toNat_le.mp hdigit.2) (by decide)
      rw [show Text.isAlphabetic c = false from if_pos hsmall] at h
      cases h
  · rfl
  · rfl

theorem space_of_nameStart (h : isNameStart c = true) : isSpace c = false := by
  cases hspace : isSpace c with
  | false => rfl
  | true =>
    obtain rfl | rfl | rfl | rfl := eq_of_isSpace hspace <;> cases h

/-- Names after the first, each behind a dot. -/
def tail (keys : List String) : List Char := keys.flatMap fun key => '.' :: key.toList

theorem toList_dotted (key : String) (keys : List String) :
    (".".intercalate (key :: keys)).toList = key.toList ++ tail keys := by
  induction keys generalizing key with
  | nil => simp [tail]
  | cons next keys ih =>
    rw [String.intercalate_cons_cons, String.toList_append, String.toList_append, ih, List.append_assoc]
    rfl

/-- A name ends before what no name has in it. -/
theorem readToken_name (hkey : key.toList = c :: cs) (hc : isNameStart c = true) (hcs : ∀ d ∈ cs, isNamePart d = true)
    (hr : ∀ d ∈ rest.head?, isNamePart d = false) : readToken c (cs ++ rest) = (wordToken key, rest) := by
  have hend : rest.takeWhile isNamePart = [] ∧ rest.dropWhile isNamePart = rest := by
    cases rest with
    | nil => exact ⟨rfl, rfl⟩
    | cons d ds => simp [hr d rfl]
  unfold readToken readName
  rw [if_pos hc, List.takeWhile_append_of_pos hcs, List.dropWhile_append_of_pos hcs, hend.1, hend.2, List.append_nil, ← hkey,
    String.ofList_toList]
  rfl

/-- A dot before a name is no number. -/
theorem readToken_dot (hc : isNameStart c = true) (cs : List Char) : readToken '.' (c :: cs) = (.punct .dot, c :: cs) := by
  have hdigit : startsWithDigit (c :: cs) = false := digit_of_nameStart hc
  unfold readToken
  rw [if_neg (by decide), hdigit, if_neg (by decide), if_neg (by decide)]
  rfl

/-- The tokens of names with dots between them. -/
def dottedTokens (key : String) (keys : List String) : List Token :=
  wordToken key :: keys.flatMap fun key => [.punct .dot, wordToken key]

theorem lexemes_names (hkey : isName key = true) {keys : List String} (hkeys : ∀ key ∈ keys, isName key = true) {r : Reader}
    (hr : r.rest = key.toList ++ tail keys) {limit : Nat} (hl : r.rest.length ≤ limit) :
    (r.lexemes limit).1.map (·.token) = dottedTokens key keys := by
  induction keys generalizing key r limit with
  | nil =>
    obtain ⟨c, cs, hchars, hc, hcs, -⟩ := isName_iff.mp hkey
    rw [hchars, List.cons_append] at hr
    obtain ⟨limit, rfl⟩ : ∃ n, limit = n + 1 := ⟨limit - 1, by rw [hr, List.length_cons] at hl; omega⟩
    have hskip : skip .between r.rest = c :: (cs ++ tail []) := by
      rw [hr, skip_solid (space_of_nameStart hc) (by rintro rfl; cases hc)]
    obtain ⟨htokens, hrest⟩ := lexemes_cons limit hskip (readToken_name hchars hc hcs nofun)
    rw [htokens, lexemes_end rfl (next_eof (by rw [hrest]; rfl))]
    rfl
  | cons next keys ih =>
    obtain ⟨hnext, hkeys⟩ := List.forall_mem_cons.mp hkeys
    obtain ⟨c, cs, hchars, hc, hcs, -⟩ := isName_iff.mp hkey
    obtain ⟨c', cs', hchars', hc', -, -⟩ := isName_iff.mp hnext
    have htail : tail (next :: keys) = '.' :: c' :: (cs' ++ tail keys) := by
      show '.' :: next.toList ++ tail keys = _
      rw [hchars']
      rfl
    rw [hchars, htail, List.cons_append] at hr
    obtain ⟨limit, rfl⟩ : ∃ n, limit = n + 1 + 1 := ⟨limit - 2, by
      rw [hr, List.length_cons, List.length_append, List.length_cons, List.length_cons] at hl
      omega⟩
    have hskip : skip .between r.rest = c :: (cs ++ '.' :: c' :: (cs' ++ tail keys)) := by
      rw [hr, skip_solid (space_of_nameStart hc) (by rintro rfl; cases hc)]
    obtain ⟨hname, hrest⟩ := lexemes_cons (limit + 1) hskip
      (readToken_name hchars hc hcs (by rintro _ ⟨⟩; decide))
    have hskip' : skip .between r.next.2.rest = '.' :: c' :: (cs' ++ tail keys) := by
      rw [hrest, skip_solid rfl (by decide)]
    obtain ⟨hdot, hrest'⟩ := lexemes_cons limit hskip' (readToken_dot hc' _)
    rw [hname, hdot, ih hnext hkeys (by rw [hrest', hchars']; rfl) ?_]
    · rfl
    · rw [hr, List.length_cons, List.length_append, List.length_cons] at hl
      rw [hrest']
      omega

/-! ## The expression -/

/-- A name, and members of it. -/
def dotted (name : String) (keys : List String) : Term Unit := keys.foldl (fun o key => .member () o key) (.name () name)

theorem denotes_members {o : Term μ} (m : μ) (hd : Denotes [] s o path) (keys : List String) :
    Denotes [] s (keys.foldl (fun o key => .member m o key) o) (path ++ keys) := by
  induction keys generalizing o path with
  | nil => rwa [List.append_nil]
  | cons key keys ih =>
    have := ih (hd.member m key)
    rwa [List.append_assoc] at this

theorem denotes_dotted (s : Scope σ) (name : String) (keys : List String) : Denotes [] s (dotted name keys) (name :: keys) :=
  denotes_members () (.name () rfl) keys

theorem lexesAs_word (hkey : isName key = true) : LexesAs key.toList (wordToken key) := by
  obtain ⟨c, cs, hchars, hc, hcs, -⟩ := isName_iff.mp hkey
  have hread : readToken c (cs ++ []) = (wordToken key, []) := readToken_name hchars hc hcs nofun
  rw [List.append_nil] at hread
  rw [hchars]
  exact hread

theorem wordToken_name (hkey : isName key = true) : wordToken key = .name key := by
  obtain ⟨_, _, _, _, _, hword⟩ := isName_iff.mp hkey
  rw [wordToken, hword]
  rfl

/-- The text of a name and members of it spells out its tokens. -/
theorem members_printed {numeral : Float → List Char} {o : Term μ} (m : μ) (ho : o.Printable numeral)
    (hlevel : o.level.rank ≤ Level.members.rank) {keys : List String} (hkeys : ∀ key ∈ keys, isName key = true) :
    (keys.foldl (fun o key => .member m o key) o).Printable numeral ∧
      (keys.foldl (fun o key => .member m o key) o).tokens =
        o.tokens ++ keys.flatMap fun key => [.punct .dot, wordToken key] := by
  induction keys generalizing o with
  | nil => exact ⟨ho, (List.append_nil _).symm⟩
  | cons key keys ih =>
    obtain ⟨hkey, hkeys⟩ := List.forall_mem_cons.mp hkeys
    have hmember : (Term.member m o key).Printable numeral := .mk (lexesAs_word hkey) nofun (List.forall_mem_singleton.mpr ho)
    obtain ⟨hprintable, htokens⟩ := ih hmember (Nat.le_refl _) hkeys
    refine ⟨hprintable, ?_⟩
    rw [List.foldl_cons, htokens, Term.tokens, enclose, if_pos hlevel, List.append_assoc]
    rfl

/-- An expression is parsed alone as with a semicolon behind it. -/
theorem parse_alone {numeral : Float → List Char} {e : Term μ} (h : e.Printable numeral) {source : String}
    (htokens : (lexemes source).1.map (·.token) = e.tokens) :
    ∃ m m' e', parse source = .ok ⟨m, [.expression m' e']⟩ ∧ e'.unmarked = e.unmarked := by
  have hc : Holds (Cursor.ofSource source) (e.tokens ++ []) := by
    rw [List.append_nil]
    exact ⟨htokens, congrArg Lexeme.token (lexemes_lined _).2⟩
  obtain ⟨c, hsource⟩ : ∃ c, c = Cursor.ofSource source := ⟨_, rfl⟩
  rw [← hsource] at hc
  obtain ⟨hopens, e', c', he, hc', hlen, hread⟩ := (leads h).embeds.whole.read hc (Nat.le_refl _)
  have hsequence : sequence (depthPerLexeme * (c.rest.length + 1)) c = .ok (e', c') :=
    hread (depthPerLexeme * (c.rest.length + 1)) (by rw [Level.cost]; unfold depthPerLexeme; omega)
  have hstatement : statement (depthPerLexeme * (c.rest.length + 1)) c =
      .ok (.expression (c.current.span.merge c'.last) e', c') := by
    rw [statement, run_here, run_peek, if_neg fun hp => hopens.semicolon (isPunct_iff.mp hp), run_bind hsequence, run_peek,
      hc'.token_nil]
    rfl
  have hstatements : statements (depthPerLexeme * (c.rest.length + 1)) c.rest.length c =
      .ok ([.expression (c.current.span.merge c'.last) e'], c') := by
    -- The limit is the number of tokens, and an expression has one.
    obtain ⟨limit, hlimit⟩ : ∃ n, c.rest.length = n + 1 := by
      refine Nat.exists_eq_succ_of_ne_zero fun hzero => hopens.eof ?_
      have hnone : c.rest = [] := List.length_eq_zero_iff.mp hzero
      exact Holds.token_nil ⟨by rw [hnone]; rfl, hc.eof⟩
    rw [hlimit] at hstatement ⊢
    exact statements_cons hopens.eof hstatement (statements_end hc'.token_nil _ _)
  exact ⟨_, _, e', parse_statements hsource hstatements, he⟩

theorem parse_dotted {name : String} {keys : List String} (hname : isName name = true)
    (hkeys : ∀ key ∈ keys, isName key = true) :
    ∃ m m' e, parse (".".intercalate (name :: keys)) = .ok ⟨m, [.expression m' e]⟩ ∧
      e.unmarked = (dotted name keys).unmarked := by
  have hspell : LexesAs name.toList (.name name) := wordToken_name hname ▸ lexesAs_word hname
  have hfirst : (Term.name () name).Printable fun _ => [] := .mk hspell nofun nofun
  obtain ⟨hprintable, htokens⟩ := members_printed () hfirst (Nat.zero_le 1) hkeys
  refine parse_alone hprintable ?_
  have hread := lexemes_names hname hkeys (toList_dotted name keys) (r := .ofSource (".".intercalate (name :: keys)))
    (Nat.le_of_eq String.length_toList)
  rw [htokens, lexemes, hread, dottedTokens, wordToken_name hname]
  rfl

/-- Whatever was evaluated before, the text is evaluated as a name and members of it. -/
theorem evaluate_dotted {c : Cache} {sources : List String} (hc : c.Of sources) {name : String} {keys : List String}
    (hname : isName name = true) (hkeys : ∀ key ∈ keys, isName key = true) :
    (c.evaluate (".".intercalate (name :: keys)) []).1 = (eval [] (dotted name keys)).run := by
  obtain ⟨m, m', e, hparse, he⟩ := parse_dotted hname hkeys
  rw [hc.evaluate_eq, hparse, ← eval_unmarked, ← he, eval_unmarked]
  show (do evalStatements [] (← eval [] e) [] : Eval Value).run = _
  exact congrArg _ (bind_pure _)

/-! ## The expression and the path -/

theorem runOn_of_reaches {α : Type} {d : Dialogue α} {a : α} (h : d.Reaches s (.done a)) : d.runOn s = (a, s, []) := by
  generalize hb : Dialogue.done a = b at h
  induction h with
  | refl =>
    subst hb
    rfl
  | ask _ ih => exact ih hb

theorem dotless_of_isName (hkey : isName key = true) : Scope.Dotless key := by
  obtain ⟨c, cs, hchars, hc, hcs, -⟩ := isName_iff.mp hkey
  unfold Scope.Dotless
  rw [hchars, List.mem_cons]
  rintro (rfl | hmem)
  · cases hc
  · cases hcs '.' hmem

/-- Names with dots between them are read by asking alone. Where they can be read, they come to
    what stands at the path; where they end in the length of a text, nothing stands there. -/
theorem dotted_reads (s : Scope σ) {c : Cache} {sources : List String} (hc : c.Of sources) (hne : path ≠ [])
    (hnames : ∀ key ∈ path, isName key = true) :
    ∃ o, (c.evaluate (".".intercalate path) []).1.Reaches s (.done o) ∧
      (c.evaluate (".".intercalate path) []).1.runOn s = (o, s, []) ∧ ((∃ v, o = .ok v) ↔ Readable s path) ∧
      ∀ v, o = .ok v → s.getPath (".".intercalate path) = v ∨
        ∃ t, Scope.EndsInLength path s.snapshot t ∧ s.getPath (".".intercalate path) = .undefined ∧
          v = .number (Float.ofNat t.length) := by
  obtain ⟨name, keys, rfl⟩ := List.exists_cons_of_ne_nil hne
  obtain ⟨hname, hkeys⟩ := List.forall_mem_cons.mp hnames
  have hpath : s.getPath (".".intercalate (name :: keys)) = Scope.follow (name :: keys) s.snapshot := by
    rw [Scope.getPath, Scope.keysOf_join_dotless hne fun key hkey => dotless_of_isName (hnames key hkey)]
  rw [evaluate_dotted hc hname hkeys, hpath]
  cases target_read (denotes_dotted s name keys) with
  | value hreadable hanswers =>
    refine ⟨_, hanswers, runOn_of_reaches hanswers, ⟨fun _ => hreadable, fun _ => ⟨_, rfl⟩⟩, ?_⟩
    rintro _ ⟨⟩
    rcases Scope.follow_cases (name :: keys) s.snapshot with h | ⟨t, hends, hfollow, halong⟩
    · exact .inl h
    · exact .inr ⟨t, hends, hfollow, halong⟩
  | fault hnot _ hanswers _ =>
    refine ⟨_, hanswers, runOn_of_reaches hanswers, iff_of_false ?_ hnot, ?_⟩
    · rintro ⟨_, ⟨⟩⟩
    · rintro _ ⟨⟩

/-- `{ person: { name: "Ada" } }` -/
def nested : Scope Unit := .ofValue (.object [("person", .object [("name", .text "Ada")])])

theorem nested_reads : (∀ key ∈ ["person", "name"], isName key = true) ∧
    (Cache.empty.evaluate "person.name" []).1.runOn nested = (.ok (nested.getPath "person.name"), nested, []) := by
  have hsource : ".".intercalate ["person", "name"] = "person.name" := by decide
  have hnames : ∀ key ∈ ["person", "name"], isName key = true := by decide
  have hreadable : Readable nested (["person"] ++ ["name"]) :=
    (readable_concat (List.cons_ne_nil _ _)).mpr ⟨readable_name.mpr rfl, rfl⟩
  obtain ⟨o, -, hrun, hvalue, hagree⟩ := dotted_reads nested Cache.of_empty (List.cons_ne_nil _ _) hnames
  rw [hsource] at hrun hagree
  obtain ⟨v, rfl⟩ := hvalue.mpr hreadable
  rcases hagree v rfl with hpath | ⟨t, ⟨q, hq, -⟩, -⟩
  · exact ⟨hnames, hpath ▸ hrun⟩
  · simpa using congrArg List.getLast? hq

/-- `{ s: "abc" }` -/
def lettered : Scope Unit := .ofValue (.object [("s", .text "abc")])

/-- The text has a length, and it is not at its path. -/
theorem textLength_parts : (∀ key ∈ ["s", "length"], isName key = true) ∧
    (Cache.empty.evaluate "s.length" []).1.runOn lettered = (.ok (.number (Float.ofNat 3)), lettered, []) ∧
    lettered.getPath "s.length" = .undefined := by
  have hsource : "s.length" = ".".intercalate ["s", "length"] := by decide
  have hkeys : Scope.keysOf "s.length" = ["s", "length"] := by decide
  refine ⟨by decide, ?_, ?_⟩
  · rw [hsource, evaluate_dotted Cache.of_empty (by decide) (by decide)]
    rfl
  · rw [Scope.getPath, hkeys]
    rfl

end Expr
end Eventful
