import Eventful.Text.Ascii
import Eventful.Text.Blank

/-
  Eventful.Proofs.Text — the small letters, the blanks and the words of a text.

  A word is a text that is not empty and has no blank in it. A text has only words
  (`IsWord.of_mem`), and is its own only word if it is one (`words_eq_singleton`). Texts
  that are joined by a blank have the words of the one and then those of the next
  (`words_intercalate`); so a join tells where its texts met only if they were words.
-/

namespace Eventful.Text

variable {s : String} {word cs ds : List Char} {blank : Char}

def IsWord (s : String) : Prop := s ≠ "" ∧ ∀ c ∈ s.toList, isBlank c = false

/-! ## Small letters -/

theorem lower_lower (s : String) : lower (lower s) = lower s := by
  unfold lower
  rw [String.toList_ofList, List.map_map]
  refine congrArg String.ofList (List.map_congr_left fun c _ => ?_)
  show c.toLower.toLower = c.toLower
  delta Char.toLower
  grind

/-! ## Blanks -/

theorem bounds_of_holds {r : Run} {n : Nat} (h : r.holds n = true) : r.first ≤ n ∧ n ≤ r.last := by
  simp only [Run.holds, Bool.and_eq_true, decide_eq_true_eq] at h
  exact h.1

theorem run_of_holds {rs : Runs} {c : Char} (h : rs.holds c = true) : ∃ r ∈ rs, r.first ≤ c.toNat ∧ c.toNat ≤ r.last := by
  induction rs with
  | nil => cases h
  | cons r rs ih =>
    rw [Runs.holds] at h
    split at h
    · cases h
    · rcases Bool.or_eq_true_iff.mp h with h | h
      · exact ⟨r, List.mem_cons_self, bounds_of_holds h⟩
      · obtain ⟨r', hr', h⟩ := ih h
        exact ⟨r', List.mem_cons_of_mem _ hr', h⟩

theorem trim_eq (h : ∀ c ∈ cs, isBlank c = false) : trim cs = cs := by
  have hdrop (cs : List Char) (h : ∀ c ∈ cs, isBlank c = false) : cs.dropWhile isBlank = cs := by
    cases cs with
    | nil => rfl
    | cons c cs => exact List.dropWhile_cons_of_neg (Bool.eq_false_iff.mp (h c List.mem_cons_self))
  unfold trim
  rw [hdrop cs h, hdrop cs.reverse fun c hc => h c (List.mem_reverse.mp hc), List.reverse_reverse]

/-! ## Splitting -/

/-- At a blank the word that was being read is over. -/
theorem splitBlanks_append (hb : isBlank blank = true) :
    splitBlanks word (cs ++ blank :: ds) = splitBlanks word cs ++ splitBlanks [] ds := by
  induction cs generalizing word with
  | nil =>
    simp only [List.nil_append, splitBlanks, hb, if_true]
    split <;> rfl
  | cons c cs ih =>
    simp only [List.cons_append, splitBlanks]
    split
    · split
      · exact ih
      · exact congrArg _ ih
    · exact ih

/-- Without a blank there is one word, if there is anything. -/
theorem splitBlanks_solid (hcs : ∀ c ∈ cs, isBlank c = false) :
    splitBlanks word cs = if word = [] ∧ cs = [] then [] else [String.ofList (word.reverse ++ cs)] := by
  induction cs generalizing word with
  | nil => simp [splitBlanks, List.isEmpty_iff]
  | cons c cs ih =>
    have hc : isBlank c = false := hcs c List.mem_cons_self
    rw [splitBlanks, hc, if_neg Bool.false_ne_true, ih fun d hd => hcs d (List.mem_cons_of_mem _ hd)]
    simp

theorem isWord_splitBlanks (hword : ∀ c ∈ word, isBlank c = false) (hs : s ∈ splitBlanks word cs) : IsWord s := by
  have hwhole : ∀ {word : List Char}, (∀ c ∈ word, isBlank c = false) → word ≠ [] →
      IsWord (String.ofList word.reverse) := by
    intro word hword hne
    refine ⟨fun he => hne ?_, fun c hc => hword c ?_⟩
    · simpa using congrArg String.toList he
    · simpa using hc
  induction cs generalizing word with
  | nil =>
    simp only [splitBlanks, List.isEmpty_iff] at hs
    split at hs
    · cases hs
    · rename_i hne
      rw [List.mem_singleton.mp hs]
      exact hwhole hword hne
  | cons c cs ih =>
    simp only [splitBlanks, List.isEmpty_iff] at hs
    split at hs
    · split at hs
      · exact ih (fun _ h => absurd h List.not_mem_nil) hs
      · rename_i hne
        rcases List.mem_cons.mp hs with rfl | hs
        · exact hwhole hword hne
        · exact ih (fun _ h => absurd h List.not_mem_nil) hs
    · rename_i hc
      exact ih (List.forall_mem_cons.mpr ⟨(Bool.not_eq_true _).mp hc, hword⟩) hs

/-! ## Words -/

theorem IsWord.of_mem {t : String} (hs : s ∈ words t) : IsWord s :=
  isWord_splitBlanks (fun _ h => absurd h List.not_mem_nil) hs

theorem words_eq_singleton (hs : IsWord s) : words s = [s] := by
  have hne : s.toList ≠ [] := fun h => hs.1 (by simpa using h)
  rw [words, splitBlanks_solid hs.2, if_neg fun h => hne h.2, List.reverse_nil, List.nil_append, String.ofList_toList]

/-- Words are the words of their own. -/
theorem flatMap_words {ss : List String} (hss : ∀ s ∈ ss, IsWord s) : ss.flatMap words = ss := by
  induction ss with
  | nil => rfl
  | cons s ss ih =>
    obtain ⟨hs, hss⟩ := List.forall_mem_cons.mp hss
    rw [List.flatMap_cons, words_eq_singleton hs, ih hss, List.singleton_append]

/-- Texts that are joined keep their words. -/
theorem words_intercalate (ss : List String) : words (" ".intercalate ss) = ss.flatMap words := by
  induction ss with
  | nil => rfl
  | cons s ss ih =>
    cases ss with
    | nil => simp
    | cons t ss =>
      have hsplit : words (s ++ " " ++ " ".intercalate (t :: ss)) = words s ++ words (" ".intercalate (t :: ss)) := by
        have hlist : (s ++ " " ++ " ".intercalate (t :: ss)).toList =
            s.toList ++ ' ' :: (" ".intercalate (t :: ss)).toList := by simp
        unfold words
        rw [hlist]
        exact splitBlanks_append (by decide)
      rw [String.intercalate_cons_cons, hsplit, ih]
      rfl

end Eventful.Text
