import Eventful.Proofs.Expr.Dotted
import Eventful.Proofs.Number.Integers
import Eventful.Proofs.Scope.Storing

/-
  Eventful.Proofs.Expr.NumberKeys — integers as texts and as keys.

  A number names a property by its text. An integer of up to 2^63 either way is written so that
  it reads back, and names a property of its own. Those beyond are written as the last integer of
  a word, so all of one sign up to `1e21` name one property (`integers_written`).
-/

namespace Eventful.Expr

open Number

variable {σ μ : Type} {s s' : Scope σ} {locals : Locals} {fs : Fields} {a b v : Value} {o i j w : String}

/-! ## Keys -/

theorem get_put (fs : Fields) (key key' : String) (v : Value) :
    (Value.object (fs.put key v)).get key' = if key = key' then v else (Value.object fs).get key' := by
  unfold Value.get
  dsimp only
  split_ifs with h
  · rw [h, Fields.get?_put_self, Option.getD_some]
  · rw [Fields.get?_put_of_ne (Ne.symm h)]

theorem write_field (hs : s.data.get? o = some (.object fs)) (key : String) (v : Value) :
    ∃ s' change, s.write [o, key] v = .ok (s', change) ∧ s'.data.get? o = some (.object (fs.put key v)) := by
  have hstored (data : Fields) (h : data = s.data.put o (.object (fs.put key v))) :
      data.get? o = some (.object (fs.put key v)) := by rw [h, Fields.get?_put_self]
  have hfields : Fields.write v o [key] s.data =
      .ok (some (s.data.put o (.object (fs.put key v)), (fs.get? key).getD .undefined)) := by
    unfold Fields.write
    rw [hs]
    rfl
  unfold Scope.write
  dsimp only
  rw [hfields]
  dsimp only
  split_ifs
  · exact ⟨_, _, rfl, hstored _ rfl⟩
  · exact ⟨_, _, rfl, hstored _ rfl⟩

/-! ## Storing and reading -/

/-- `o[i] = w, o[j]` -/
def storeThenRead (m : μ) (o i j w : String) : Term μ :=
  .sequence m [.assign m .plain (.index m (.name m o) (.name m i)) (.name m w), .index m (.name m o) (.name m j)]

theorem runOn_tell {α : Type} {change : Option Change} {path : List String} (rest : Eval α)
    (h : s.write path v = .ok (s', change)) :
    ((tell path v >>= fun _ => rest).run.runOn s).1 = (rest.run.runOn s').1 := by
  have htold : (tell path v >>= fun _ => rest).run =
      .tell path v fun r => match r with
        | .ok _ => rest.run
        | .error blocked => .done (.error (.blocked blocked)) :=
    congrArg (Dialogue.tell path v) (funext fun r => by cases r <;> rfl)
  rw [htold, Dialogue.runOn, h]

theorem eval_storeThenRead (m : μ) (ho : locals.get? o = none) (hi : locals.get? i = some a) (hj : locals.get? j = some b)
    (hw : locals.get? w = some v) : eval locals (storeThenRead m o i j w) =
      tell [o, a.toText] v >>= fun _ => lookup locals o >>= fun holder => readMember holder b.toText := by
  have hlocal {n : String} {v : Value} (h : locals.get? n = some v) : eval locals (.name m n) = return v := by
    rw [eval, lookup, h]
  have htarget : targetPath locals (.index m (.name m o) (.name m i)) = return [o, a.toText] := by
    simp only [targetPath, ho, hlocal hi, Option.isSome_none, Bool.false_eq_true, ↓reduceIte, pure_bind, List.singleton_append]
  have hassign : eval locals (.assign m .plain (.index m (.name m o) (.name m i)) (.name m w)) =
      tell [o, a.toText] v >>= fun _ => return v := by
    rw [eval]
    simp only [htarget, AssignOp.binary?, hlocal hw, pure_bind]
  have hread : eval locals (.index m (.name m o) (.name m j)) =
      lookup locals o >>= fun holder => readMember holder b.toText := by
    rw [eval]
    simp only [hlocal hj, pure_bind]
    rfl
  rw [storeThenRead, eval]
  simp only [evalLast, hassign, hread, bind_assoc, pure_bind, bind_pure]

/-- What was stored under one key is read under another only if the texts of the keys are the
    same. -/
theorem storeThenRead_reads (m : μ) (hs : s.data.get? o = some (.object fs)) (ho : locals.get? o = none)
    (hi : locals.get? i = some a) (hj : locals.get? j = some b) (hw : locals.get? w = some v) :
    ((eval locals (storeThenRead m o i j w)).run.runOn s).1 =
      .ok (if a.toText = b.toText then v else (Value.object fs).get b.toText) := by
  obtain ⟨s', change, hwrite, hget⟩ := write_field hs a.toText v
  have hlookup := answers_lookup (s := s') ho
  rw [hget] at hlookup
  have hread : Answers s' (lookup locals o >>= fun holder => readMember holder b.toText)
      (.ok ((Value.object (fs.put a.toText v)).get b.toText)) :=
    hlookup.bind (answers_pure _)
  rw [eval_storeThenRead m ho hi hj hw, runOn_tell _ hwrite, runOn_of_reaches hread, get_put]

theorem ofPairs_get (key key' : String) (u v : Value) :
    (Value.ofPairs [(key, u), (key', v)]).get key = if key = key' then v else u := by
  show (Value.object (Fields.put key' v (Fields.put key u []))).get key = _
  rw [get_put, get_put, if_pos rfl]
  exact if_congr eq_comm rfl rfl

/-- A double that is an integer below `1e21` is written as the integer, clamped to a word, and
    reads back as the integer, clamped to 2^63. So it reads back up to 2^63. Two of them are
    written alike only if they are the same or lie beyond the same end; and so they name the same
    property of an object, and the same entry of one that is written out. -/
theorem integers_written {x y : Float} {n k : Int} (hx : toInt? x = some n) (hy : toInt? y = some k)
    (hn : n.natAbs < 10 ^ 21) (hk : k.natAbs < 10 ^ 21) :
    (Value.number x).toText = toString (clampToWord n) ∧
      toInt? (Value.text (Value.number x).toText).toNumber = some (max (-2 ^ 63) (min (2 ^ 63) n)) ∧
      ((Value.text (Value.number x).toText).toNumber == x) = decide (n.natAbs ≤ 2 ^ 63) ∧
      ((x == y) = true ↔ n = k) ∧
      ((Value.number x).toText = (Value.number y).toText ↔ Alike n k) ∧
      (∀ {σ μ : Type} (m : μ) (s : Scope σ) (locals : Locals) (o i j w : String) (fs : Fields) (v : Value),
        s.data.get? o = some (.object fs) → locals.get? o = none → locals.get? i = some (.number x) →
        locals.get? j = some (.number y) → locals.get? w = some v →
        ((eval locals (storeThenRead m o i j w)).run.runOn s).1 =
          .ok (if Alike n k then v else (Value.object fs).get (Number.text y))) ∧
      ∀ key key', entryKey? (.number x) = some key → entryKey? (.number y) = some key' →
        ∀ u v, (Value.ofPairs [(key, u), (key', v)]).get key = if Alike n k then v else u := by
  have halike := text_eq_iff hx hy hn hk
  refine ⟨text_integer hx hn, toInt?_readBack hx hn, ?_, beq_iff_toInt? hx hy, halike, ?_, ?_⟩
  · rw [Bool.eq_iff_iff, decide_eq_true_iff]
    exact readBack_beq hx hn
  · intro σ μ m s locals o i j w fs v hs ho hi hj hw
    rw [storeThenRead_reads m hs ho hi hj hw]
    exact congrArg _ (if_congr halike rfl rfl)
  · rintro _ _ ⟨⟩ ⟨⟩ u v
    rw [ofPairs_get]
    exact if_congr halike rfl rfl

/-- A scope with an empty object. -/
def shelf : Scope Unit := .ofValue (.object [("o", .object [])])

theorem smallIntegers_written :
    toInt? (ofRatio false (2 ^ 53) 1) = some (2 ^ 53) ∧ toInt? (ofRatio true 7 1) = some (-7) ∧
    Number.text (ofRatio false (2 ^ 53) 1) = "9007199254740992" ∧
    (Value.numberOfText (Number.text (ofRatio false (2 ^ 53) 1)) == ofRatio false (2 ^ 53) 1) = true ∧
    ((eval [("i", .number (ofRatio false (2 ^ 53) 1)), ("j", .number (ofRatio true 7 1)), ("w", .text "kept")]
        (storeThenRead () "o" "i" "j" "w")).run.runOn shelf).1 = .ok .undefined := by
  have hx : toInt? (ofRatio false (2 ^ 53) 1) = some (2 ^ 53) := by decide +kernel
  have hy : toInt? (ofRatio true 7 1) = some (-7) := by decide +kernel
  obtain ⟨htext, -, hread, -, -, hkeys, -⟩ := integers_written hx hy (by decide) (by decide)
  exact ⟨hx, hy, htext.trans (by decide +kernel), hread,
    hkeys () shelf _ "o" "i" "j" "w" [] (.text "kept") rfl rfl rfl rfl rfl⟩

/-- Ten and twenty quintillions are written as the last integer of a word, which is neither. -/
theorem quintillions_written :
    toInt? (ofRatio false (10 ^ 19) 1) = some (10 ^ 19) ∧ toInt? (ofRatio false (2 * 10 ^ 19) 1) = some (2 * 10 ^ 19) ∧
    (Value.number (ofRatio false (10 ^ 19) 1)).toText = "9223372036854775807" ∧
    (Value.number (ofRatio false (2 * 10 ^ 19) 1)).toText = "9223372036854775807" ∧
    ((Value.text "9223372036854775807").toNumber == ofRatio false (10 ^ 19) 1) = false ∧
    (ofRatio false (10 ^ 19) 1 == ofRatio false (2 * 10 ^ 19) 1) = false := by
  decide +kernel

end Eventful.Expr
