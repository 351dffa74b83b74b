import Eventful.Proofs.Expr.Leaves
import Eventful.Proofs.Expr.Lexemes
import Eventful.Proofs.Number.Integers

/-
  Eventful.Proofs.Expr.Identifiers — the names of name nodes.

  A name node is made of a name token, whose text is an identifier; or of a key: `{ key }` is
  short for `{ key: key }`. But a key need not be a name. It can be a text or a number, and
  alone it makes a name node too, with whatever text it has.

  - `name_nodes`: a name node is an identifier of its source unless it is made of a text or a
    number that stands alone as a key.
  - `spacedKey_named`: the name node of `{ 'a b' }` has a blank in its name.
  - `keyAlone_named`: any text is the name of such a node, in some program.
-/

namespace Eventful.Expr

variable {source : String} {p : Program Span} {i : Nat} {name : String} {span : Span}

/-- The text of a finite number is no identifier. -/
theorem isName_number {x : Float} {negative : Bool} {m : Nat} {e : Int} (hs : Number.split x = .finite negative m e) :
    isName (Number.text x) = false := by
  refine Bool.eq_false_iff.mpr fun hname => ?_
  obtain ⟨c, cs, hchars, hc, -, -⟩ := isName_iff.mp hname
  rcases Number.text_head hs hchars with rfl | hdigit
  · cases hc
  · exact Bool.false_ne_true ((digit_of_nameStart hc).symm.trans hdigit)

/-! ## Name nodes -/

/-- The name is an identifier that stands in the source at the span. -/
structure Identified (source : String) (span : Span) (name : String) : Prop where
  token : ⟨.name name, span⟩ ∈ (lexemes source).1
  text : slice source.toList span.start span.stop = some name.toList
  form : isName name = true

/-- The node is made of a text or a number that stands alone as a key. -/
structure MadeOfKey (source : String) (nodes : Listing Span) (i : Nat) (span : Span) (name : String) : Prop where
  key : KeyAlone (lexemes source).1 name span
  entry : EntryAt nodes name i

theorem token_unique {t u : Token} (ht : ⟨t, span⟩ ∈ (lexemes source).1) (hu : ⟨u, span⟩ ∈ (lexemes source).1) :
    t = u :=
  congrArg Lexeme.token ((lexemes_lined source).1.eq_of_span ht hu rfl)

/-- What stands alone as a key is a text or a number, and no name. -/
theorem KeyAlone.literal (h : KeyAlone (lexemes source).1 name span) :
    ∃ t, ⟨t, span⟩ ∈ (lexemes source).1 ∧ LiteralKey t name := by
  obtain ⟨hls, hkey, -⟩ := h
  exact ⟨_, hls ▸ List.mem_append_right _ List.mem_cons_self, hkey⟩

theorem identified_iff_not_made (h : parse source = .ok p) (hat : p.listing[i]? = some (.name name, span)) :
    Identified source span name ↔ ¬MadeOfKey source p.listing i span name := by
  constructor
  · intro hidentified hmade
    obtain ⟨t, ht, hkey⟩ := hmade.key.literal
    cases token_unique ht hidentified.token
    cases hkey
  · intro hnot
    rcases (sourced_parse h).name_sourced hat with hmem | ⟨hkey, hentry⟩
    · obtain ⟨hform, htext⟩ := name_lexeme hmem
      exact ⟨hmem, htext, hform⟩
    · exact absurd ⟨hkey, hentry⟩ hnot

/-- A finite number that is a name node is no identifier. -/
theorem isName_of_number (h : parse source = .ok p) (hat : p.listing[i]? = some (.name name, span)) {x : Float}
    (hx : ⟨.number x, span⟩ ∈ (lexemes source).1) {negative : Bool} {m : Nat} {e : Int}
    (hs : Number.split x = .finite negative m e) : isName name = false := by
  rcases (sourced_parse h).name_sourced hat with hmem | ⟨hkey, -⟩
  · cases token_unique hmem hx
  · obtain ⟨t, ht, hliteral⟩ := hkey.literal
    cases token_unique ht hx
    cases hliteral
    exact isName_number hs

/-- A name node of a program is an identifier of its source, unless it is made of a text or a
    number that stands alone as a key; a finite number then is no identifier. -/
theorem name_nodes (h : parse source = .ok p) (hat : p.listing[i]? = some (.name name, span)) :
    (Identified source span name ↔ ¬MadeOfKey source p.listing i span name) ∧
      ∀ {x : Float} {negative : Bool} {m : Nat} {e : Int}, ⟨.number x, span⟩ ∈ (lexemes source).1 →
        Number.split x = .finite negative m e → isName name = false :=
  ⟨identified_iff_not_made h hat, fun hx hs => isName_of_number h hat hx hs⟩

/-- Two keys that stand alone; one is an identifier. -/
def twoKeys : Program Span :=
  ⟨⟨0, 12⟩, [.expression ⟨0, 12⟩ (.object ⟨0, 12⟩ [("a", .name ⟨2, 3⟩ "a"), ("b c", .name ⟨5, 10⟩ "b c")])]⟩

theorem twoKeys_names : parse "\x7b a, 'b c' \x7d" = .ok twoKeys ∧
    twoKeys.listing[1]? = some (.name "b c", ⟨5, 10⟩) ∧
    MadeOfKey "\x7b a, 'b c' \x7d" twoKeys.listing 1 ⟨5, 10⟩ "b c" := by
  have hparse : parse "\x7b a, 'b c' \x7d" = .ok twoKeys := by cbv
  have hat : twoKeys.listing[1]? = some (.name "b c", ⟨5, 10⟩) := rfl
  refine ⟨hparse, hat, ?_⟩
  by_contra hnot
  have hidentified := (name_nodes hparse hat).1.mpr hnot
  exact absurd hidentified.form (by decide)

/-- A key that is a text with a blank in it. -/
def spacedKey : Program Span :=
  ⟨⟨0, 9⟩, [.expression ⟨0, 9⟩ (.object ⟨0, 9⟩ [("a b", .name ⟨2, 7⟩ "a b")])]⟩

/-- The name of the only name node is no identifier. -/
theorem spacedKey_named : parse "\x7b 'a b' \x7d" = .ok spacedKey ∧
    spacedKey.listing[0]? = some (.name "a b", ⟨2, 7⟩) ∧ isName "a b" = false ∧
    ¬Identified "\x7b 'a b' \x7d" ⟨2, 7⟩ "a b" := by
  have hparse : parse "\x7b 'a b' \x7d" = .ok spacedKey := by cbv
  have hform : isName "a b" = false := by decide
  exact ⟨hparse, rfl, hform, fun h => Bool.false_ne_true (hform.symm.trans h.form)⟩

/-! ## Keys of any text -/

/-- `{ key }`, with the key a text -/
def keyAlone (key : String) : String := (Style.plain []).text [.punct .openBrace, .text key, .punct .closeBrace]

theorem lexemes_keyAlone (key : String) : ∃ s₁ span s₂ eof,
    lexemes (keyAlone key) = ([⟨.punct .openBrace, s₁⟩, ⟨.text key, span⟩, ⟨.punct .closeBrace, s₂⟩], eof) ∧
      eof.token = .eof := by
  have hlegible : Legible (Style.plain []).numeral [.punct .openBrace, .text key, .punct .closeBrace] :=
    .cons (lexesAs_punct _) (.cons (lexesAs_text key) (.punct _))
  have htokens : (lexemes (keyAlone key)).1.map (·.token) = [.punct .openBrace, .text key, .punct .closeBrace] :=
    lexemes_text _ hlegible
  have heof : (lexemes (keyAlone key)).2.token = .eof := congrArg Lexeme.token (lexemes_lined _).2
  generalize lexemes (keyAlone key) = read at htokens heof
  obtain ⟨ls, eof⟩ := read
  match ls, htokens with
  | [⟨_, s₁⟩, ⟨_, span⟩, ⟨_, s₂⟩], rfl => exact ⟨s₁, span, s₂, eof, rfl, heof⟩

/-- Any text can be the name of a name node. -/
theorem keyAlone_named (key : String) : ∃ p span, parse (keyAlone key) = .ok p ∧
    p.listing[0]? = some (.name key, span) ∧ MadeOfKey (keyAlone key) p.listing 0 span key := by
  obtain ⟨s₁, span, s₂, ⟨_, s₃⟩, hread, rfl⟩ := lexemes_keyAlone key
  have hcursor : Cursor.ofSource (keyAlone key) =
      ⟨[⟨.punct .openBrace, s₁⟩, ⟨.text key, span⟩, ⟨.punct .closeBrace, s₂⟩], ⟨.eof, s₃⟩, s₁⟩ := by
    rw [Cursor.ofSource, hread]
    rfl
  have hparse : ∃ m₁ m₂ m₃, parse (keyAlone key) =
      .ok ⟨m₁, [.expression m₂ (.object m₃ [(key, .name span key)])]⟩ := by
    unfold parse
    rw [hcursor]
    exact ⟨_, _, _, rfl⟩
  obtain ⟨m₁, m₂, m₃, hparse⟩ := hparse
  refine ⟨_, span, hparse, rfl, ⟨?_, 1, _, _, rfl, List.mem_cons_self⟩⟩
  rw [hread]
  refine .mk (show _ = [⟨.punct .openBrace, s₁⟩] ++ _ from rfl) (.text key) ?_
  rintro _ ⟨⟩
  nofun

end Eventful.Expr
