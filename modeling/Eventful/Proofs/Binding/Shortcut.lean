import Eventful.Binding.Basic
import Eventful.Proofs.Expr.Blanks
import Eventful.Proofs.Expr.Caching
import Eventful.Value.OfEvent

/-
  Eventful.Proofs.Binding.Shortcut — expressions that are not parsed.

  To a script evaluator a text of blanks is no expression: it is undefined, and is not even
  parsed. If the lexer skips all of them, that is what parsing it comes to (`evaluate_spaces`);
  if not, the text does not parse (`evaluate_blank`).

  - `shortcut_exact`: for which texts it makes no difference who evaluates them.
  - `noBreakSpace_parts`: one that is undefined to the one and an error to the other.
-/

namespace Eventful.Binding

open Page Eventful.Expr

variable {c c' : Cache} {sources sources' : List String}

theorem evaluateScript_blank {expression : String} (h : Text.isBlankText expression = true) (c : Cache) (event : Value) :
    (evaluateScript c expression event).1 = .done (.ok .undefined) := by
  unfold evaluateScript
  rw [if_pos h]

/-- A text that the lexer skips is undefined, parsed or not. -/
theorem evaluate_spaces {source : String} (hc : c.Of sources) (h : ∀ ch ∈ source.toList, isSpace ch = true) (locals : Locals) :
    (c.evaluate source locals).1 = .done (.ok .undefined) := by
  obtain ⟨m, hparse⟩ := parse_spaces h
  rw [hc.evaluate_eq, hparse]
  rfl

theorem evaluate_blank {source : String} {before after : List Char} {ch : Char} (hc : c.Of sources)
    (hsource : source.toList = before ++ ch :: after) (hbefore : ∀ d ∈ before, isSpace d = true)
    (hspace : isSpace ch = false) (hblank : Text.isBlankText source = true) (locals : Locals) :
    (c.evaluate source locals).1 =
      .done (.error (.malformed ⟨.lexical (.unexpected ch), ⟨bytes before, bytes before + ch.utf8Size⟩⟩)) := by
  have hch : Text.isBlank ch = true :=
    List.all_eq_true.mp hblank ch (hsource ▸ List.mem_append_right before List.mem_cons_self)
  rw [hc.evaluate_eq, parse_fault (current_blank hsource hbefore hch hspace)]

/-- There is a first character that the lexer does not skip, if there is any. -/
theorem first_unskipped {cs : List Char} (h : ∃ ch ∈ cs, isSpace ch = false) :
    ∃ before ch after, cs = before ++ ch :: after ∧ (∀ d ∈ before, isSpace d = true) ∧ isSpace ch = false := by
  obtain ⟨c, hc, hspace⟩ := h
  have hsome : (cs.find? fun c => !isSpace c).isSome = true := List.find?_isSome.mpr ⟨c, hc, by rw [hspace]; rfl⟩
  obtain ⟨ch, hfind⟩ := Option.isSome_iff_exists.mp hsome
  obtain ⟨hch, before, after, happend, hbefore⟩ := List.find?_eq_some_iff_append.mp hfind
  exact ⟨before, ch, after, happend, by simpa using hbefore, by simpa using hch⟩

/-- It makes no difference who evaluates a text, unless it has only blanks and one that the
    lexer does not skip. Then it is undefined as a script, and an error if it is parsed. -/
theorem shortcut_exact (hc : c.Of sources) (hc' : c'.Of sources') (expression : String) (e : Event) :
    ((evaluateScript c expression (.ofEvent e)).1 = (c'.evaluate expression [("$event", .ofEvent e)]).1 ↔
      ¬(Text.isBlankText expression = true ∧ ∃ ch ∈ expression.toList, isSpace ch = false)) ∧
    ∀ before ch after, expression.toList = before ++ ch :: after → (∀ d ∈ before, isSpace d = true) →
      isSpace ch = false → Text.isBlankText expression = true →
      (evaluateScript c expression (.ofEvent e)).1 = .done (.ok .undefined) ∧
        (c'.evaluate expression [("$event", .ofEvent e)]).1 =
          .done (.error (.malformed ⟨.lexical (.unexpected ch), ⟨bytes before, bytes before + ch.utf8Size⟩⟩)) := by
  refine ⟨?_, fun before ch after hsource hbefore hspace hblank =>
    ⟨evaluateScript_blank hblank c _, evaluate_blank hc' hsource hbefore hspace hblank _⟩⟩
  cases hblank : Text.isBlankText expression with
  | false =>
    refine iff_of_true ?_ fun h => nomatch h.1
    unfold evaluateScript
    rw [if_neg (by rw [hblank]; exact Bool.false_ne_true), hc.evaluate_eq, hc'.evaluate_eq]
  | true =>
    rw [evaluateScript_blank hblank]
    by_cases hodd : ∃ ch ∈ expression.toList, isSpace ch = false
    · obtain ⟨before, ch, after, hsource, hbefore, hspace⟩ := first_unskipped hodd
      rw [evaluate_blank hc' hsource hbefore hspace hblank]
      exact iff_of_false nofun fun h => h ⟨rfl, hodd⟩
    · have hspaces : ∀ ch ∈ expression.toList, isSpace ch = true := fun ch hch =>
        (Bool.not_eq_false _).mp fun hspace => hodd ⟨ch, hch, hspace⟩
      rw [evaluate_spaces hc' hspaces]
      exact iff_of_true rfl fun h => hodd h.2

theorem spaces_exact : (evaluateScript .empty " \t " (.ofEvent .click)).1 = .done (.ok .undefined) ∧
    (Cache.empty.evaluate " \t " [("$event", .ofEvent .click)]).1 = .done (.ok .undefined) := by
  have hscript : (evaluateScript .empty " \t " (.ofEvent .click)).1 = .done (.ok .undefined) :=
    evaluateScript_blank (by decide) .empty _
  have hspaces : ∀ ch ∈ " \t ".toList, isSpace ch = true := List.all_eq_true.mp (by decide)
  have hexact := (shortcut_exact Cache.of_empty Cache.of_empty " \t " .click).1.mpr
    fun ⟨_, ch, hch, hspace⟩ => nomatch (hspaces ch hch).symm.trans hspace
  exact ⟨hscript, hexact ▸ hscript⟩

/-- A no-break space is nothing to a script, and no token of the language. -/
theorem noBreakSpace_parts : (evaluateScript .empty "\u00a0" (.ofEvent .click)).1 = .done (.ok .undefined) ∧
    (Cache.empty.evaluate "\u00a0" [("$event", .ofEvent .click)]).1 =
      .done (.error (.malformed ⟨.lexical (.unexpected '\u00a0'), ⟨0, 2⟩⟩)) := by
  have hsource : "\u00a0".toList = [] ++ '\u00a0' :: [] := rfl
  have hblank : Text.isBlankText "\u00a0" = true := by decide
  exact ⟨evaluateScript_blank hblank .empty _, evaluate_blank Cache.of_empty hsource nofun rfl hblank _⟩

end Eventful.Binding
