/-
  PageTree/Proofs/Json/ReadBack.lean
  ==================================
  **Guarded data reads back.**

  Data is written into a script without blanks, and then a backslash is put between
  every `<` and a `/` after it.  The pieces of the text of data do not end in `<`, so
  what is guarded lies inside the quoted strings, and there the backslash makes an
  escape of the slash, which reads as the slash itself.  So the guarded text of any
  data reads as that data, whatever comes after it.

    * `Escape.guardClosing_append_closed`: a text is guarded piece by piece;
    * `readValue_guarded`: a value in front of other text;
    * `read?_scriptData`: the text of a value.
-/
import PageTree.Proofs.Json.Numerals
import PageTree.Proofs.Script.Source

namespace PageTree

/-! ### Guarding piece by piece -/

namespace Escape

/-- The text ends in a character that no slash makes into a closing tag. -/
def Closed (s : List Char) : Prop := ∃ front last, s = front ++ [last] ∧ last ≠ '<'

theorem Closed.append {t : List Char} (h : Closed t) (s : List Char) : Closed (s ++ t) := by
  obtain ⟨front, last, rfl, other⟩ := h
  exact ⟨s ++ front, last, (List.append_assoc ..).symm, other⟩

theorem Closed.cons {t : List Char} (h : Closed t) (c : Char) : Closed (c :: t) := h.append [c]

theorem closed_singleton {c : Char} (other : c ≠ '<') : Closed [c] := ⟨[], c, rfl, other⟩

theorem Closed.of_cons {c : Char} {s : List Char} (h : Closed (c :: s)) (nonempty : s ≠ []) :
    Closed s := by
  obtain ⟨front, last, text, other⟩ := h
  cases front with
  | nil => exact absurd (List.cons.inj text).2 nonempty
  | cons d front => exact ⟨front, last, (List.cons.inj text).2, other⟩

/-- What is behind a closed text is guarded by itself. -/
theorem guardClosing_append_closed {s : List Char} (closed : Closed s) (t : List Char) :
    guardClosing (s ++ t) = guardClosing s ++ guardClosing t := by
  induction s using guardClosing.induct with
  | case1 cs ih =>
    rw [List.cons_append, List.cons_append, guardClosing, guardClosing, List.cons_append,
      List.cons_append, List.cons_append]
    cases cs with
    | nil => rfl
    | cons c cs => rw [ih ((closed.of_cons (by simp)).of_cons (by simp))]
  | case2 c cs other ih =>
    have unguarded (rest : List Char) (unlike : c = '<' → ∀ u, rest ≠ '/' :: u) :
        guardClosing (c :: rest) = c :: guardClosing rest := by
      by_cases bracket : c = '<'
      · subst bracket
        exact guardClosing_lt (unlike rfl)
      · exact guardClosing_cons bracket rest
    rw [List.cons_append, unguarded cs fun bracket u same => other u bracket same]
    cases cs with
    | nil =>
      obtain ⟨front, last, text, kept⟩ := closed
      obtain rfl : c = last := by
        cases front with
        | nil => exact (List.cons.inj text).1
        | cons d front => simp at text
      exact unguarded t fun bracket => absurd bracket kept
    | cons d cs =>
      rw [unguarded, ih (closed.of_cons (by simp)), List.cons_append]
      rintro bracket u same
      obtain ⟨rfl, -⟩ := List.cons.inj same
      exact other cs bracket rfl
  | case3 =>
    obtain ⟨front, last, text, -⟩ := closed
    simp at text

end Escape

namespace Json

open Escape

/-! ### How the text of data ends and begins -/

theorem closed_quote (s : List Char) : Closed (quote s) :=
  ((closed_singleton (by decide)).append _).cons _

theorem Numeral.bracket_notMem (n : Numeral) : ∀ c ∈ n.lexeme, c ≠ '<' := by
  rintro c mem rfl
  exact absurd (n.isNumberChar_of_mem mem) (by decide)

theorem Numeral.closed_lexeme (n : Numeral) : Closed n.lexeme :=
  ⟨n.lexeme.dropLast, n.lexeme.getLast n.lexeme_ne_nil,
    (List.dropLast_append_getLast n.lexeme_ne_nil).symm,
    n.bracket_notMem _ (List.getLast_mem n.lexeme_ne_nil)⟩

mutual

theorem closed_print (v : Json) : Closed (print v) := by
  cases v with
  | null => exact ⟨['n', 'u', 'l'], 'l', rfl, by decide⟩
  | bool b =>
    cases b with
    | true => exact ⟨['t', 'r', 'u'], 'e', rfl, by decide⟩
    | false => exact ⟨['f', 'a', 'l', 's'], 'e', rfl, by decide⟩
  | number n => exact n.closed_lexeme
  | string s => exact closed_quote s.toList
  | array items =>
    cases items with
    | nil => exact ⟨['['], ']', rfl, by decide⟩
    | cons v vs => exact ((closed_printItems vs).append _).cons _
  | object fields =>
    cases fields with
    | nil => exact ⟨['\x7b'], '\x7d', rfl, by decide⟩
    | cons f fs => exact ((((closed_printFields fs).append _).cons _).append _).cons _

theorem closed_printItems (vs : List Json) : Closed (printItems vs) := by
  cases vs with
  | nil => exact closed_singleton (by decide)
  | cons v vs => exact ((closed_printItems vs).append _).cons _

theorem closed_printFields (fs : List (String × Json)) : Closed (printFields fs) := by
  cases fs with
  | nil => exact closed_singleton (by decide)
  | cons f fs => exact ((((closed_printFields fs).append _).cons _).append _).cons _

end

theorem isGap_of_digit {c : Char} (digit : c.isDigit = true) : isGap c = false := by
  unfold isGap
  simp only [Bool.or_eq_false_iff, beq_eq_false_iff_ne]
  refine ⟨⟨⟨?_, ?_⟩, ?_⟩, ?_⟩ <;>
    · rintro rfl
      revert digit
      decide

/-- The text of a value begins with neither a blank nor a closing bracket. -/
theorem exists_print_eq_cons (v : Json) :
    ∃ c cs, print v = c :: cs ∧ isGap c = false ∧ c ≠ ']' ∧ c ≠ '<' := by
  cases v with
  | null => exact ⟨_, _, rfl, by decide, by decide, by decide⟩
  | bool b => cases b <;> exact ⟨_, _, rfl, by decide, by decide, by decide⟩
  | number n =>
    obtain ⟨c, cs, text, first⟩ := n.exists_lexeme_eq_cons
    refine ⟨c, cs, text, ?_, ?_, n.bracket_notMem c (by simp [text])⟩
    · rcases first with rfl | digit
      · decide
      · exact isGap_of_digit digit
    · rintro rfl
      revert first
      decide
  | string s => exact ⟨_, _, rfl, by decide, by decide, by decide⟩
  | array items => cases items <;> exact ⟨_, _, rfl, by decide, by decide, by decide⟩
  | object fields => cases fields <;> exact ⟨_, _, rfl, by decide, by decide, by decide⟩

/-! ### Reading by the first character -/

theorem skipGap_cons {c : Char} (visible : isGap c = false) (s : List Char) :
    skipGap (c :: s) = c :: s := by
  simp [skipGap, visible]

theorem readValue_quote (fuel : Nat) (s : List Char) :
    readValue (fuel + 1) ('"' :: s)
      = (readQuoted (fuel + 1) s).map fun p => (.string (String.ofList p.1), p.2) := by
  rw [readValue, skipGap_cons (by decide)]
  rfl

theorem readValue_number {c : Char} (first : c = '-' ∨ c.isDigit = true) (fuel : Nat)
    (s : List Char) :
    readValue (fuel + 1) (c :: s) = (spanNumber (c :: s)).map fun p =>
      (.number (.ofText ((c :: s).take ((c :: s).length - p.2.length))), p.2) := by
  have other {d : Char} (unlike : ¬ (d = '-' ∨ d.isDigit = true)) : c ≠ d := by
    rintro rfl
    exact unlike first
  have visible : isGap c = false := by
    rcases first with rfl | digit
    · decide
    · exact isGap_of_digit digit
  rw [readValue, skipGap_cons visible]
  split
  · next same => exact absurd (List.cons.inj same).1 (other (by decide))
  · next same => exact absurd (List.cons.inj same).1 (other (by decide))
  · next same => exact absurd (List.cons.inj same).1 (other (by decide))
  · next same => exact absurd (List.cons.inj same).1 (other (by decide))
  · next same => exact absurd (List.cons.inj same).1 (other (by decide))
  · next same => exact absurd (List.cons.inj same).1 (other (by decide))
  · rfl

theorem readValue_array {c : Char} (visible : isGap c = false) (other : c ≠ ']') (fuel : Nat)
    (s : List Char) :
    readValue (fuel + 1) ('[' :: c :: s) = (readValue fuel (c :: s)).bind fun p =>
      (readItems fuel p.2).bind fun q => some (array (p.1 :: q.1), q.2) := by
  have array {cs : List Char} (same : '[' :: c :: s = '[' :: cs) : skipGap cs = c :: s := by
    rw [← (List.cons.inj same).2, skipGap_cons visible]
  rw [readValue, skipGap_cons (by decide)]
  split
  · next same => cases (List.cons.inj same).1
  · next same => cases (List.cons.inj same).1
  · next same => cases (List.cons.inj same).1
  · next same => cases (List.cons.inj same).1
  · next same =>
    rw [array same]
    split
    · next closed => exact absurd (List.cons.inj closed).1 other
    · rfl
  · next same => cases (List.cons.inj same).1
  · next _ _ _ _ bracket _ => exact (bracket _ rfl).elim

theorem readValue_object (fuel : Nat) (s : List Char) :
    readValue (fuel + 1) ('\x7b' :: '"' :: s) = (readName fuel ('"' :: s)).bind fun n =>
      (readValue fuel n.2).bind fun p =>
        (readFields fuel p.2).bind fun q => some (.object ((n.1, p.1) :: q.1), q.2) := by
  rw [readValue, skipGap_cons (by decide)]
  rfl

theorem readItems_cons (fuel : Nat) (s : List Char) :
    readItems (fuel + 1) (',' :: s) = (readValue fuel s).bind fun p =>
      (readItems fuel p.2).bind fun q => some (p.1 :: q.1, q.2) := by
  rw [readItems, skipGap_cons (by decide)]
  rfl

theorem readFields_cons (fuel : Nat) (s : List Char) :
    readFields (fuel + 1) (',' :: '"' :: s) = (readName fuel ('"' :: s)).bind fun n =>
      (readValue fuel n.2).bind fun p =>
        (readFields fuel p.2).bind fun q => some ((n.1, p.1) :: q.1, q.2) := by
  rw [readFields, skipGap_cons (by decide)]
  rfl

/-! ### Reading guarded data -/

theorem length_le_quote (s : List Char) : s.length < (quote s).length := by
  have quoted := CodeReader.length_le_flatMap CodeReader.one_le_length_quoteChar s
  rw [quote, List.length_cons, List.length_append]
  omega

theorem guardClosing_quote (s : List Char) :
    guardClosing (quote s) = '"' :: guardClosing (s.flatMap quoteChar ++ ['"']) :=
  guardClosing_cons (by decide) _

/-- The name of a field reads back, and what comes after its colon is left. -/
theorem readName_guarded (name : String) {fuel : Nat} (enough : name.toList.length < fuel)
    (s : List Char) :
    readName fuel (guardClosing (quote name.toList) ++ ':' :: s) = some (name, s) := by
  rw [guardClosing_quote, List.cons_append, readName,
    readQuoted_guardClosing _ _ _ enough, Option.bind_eq_bind, Option.bind_some]
  dsimp only
  rw [skipGap_cons (by decide), String.ofList_toList]
  rfl

theorem guardClosing_field (name : String) (v : Json) (rest : List Char) :
    guardClosing (quote name.toList ++ ':' :: (print v ++ rest))
      = guardClosing (quote name.toList)
        ++ ':' :: (guardClosing (print v) ++ guardClosing rest) := by
  rw [guardClosing_append_closed (closed_quote _), guardClosing_cons (by decide),
    guardClosing_append_closed (closed_print v)]

theorem endsNumber_printItems (vs : List Json) (rest : List Char) :
    EndsNumber (guardClosing (printItems vs) ++ rest) := by
  cases vs with
  | nil => exact endsNumber_cons (by decide) rest
  | cons v vs =>
    rw [printItems, guardClosing_cons (by decide), List.cons_append]
    exact endsNumber_cons (by decide) _

theorem endsNumber_printFields (fs : List (String × Json)) (rest : List Char) :
    EndsNumber (guardClosing (printFields fs) ++ rest) := by
  cases fs with
  | nil => exact endsNumber_cons (by decide) rest
  | cons f fs =>
    rw [printFields, guardClosing_cons (by decide), List.cons_append]
    exact endsNumber_cons (by decide) _

theorem readValue_numeral (n : Numeral) (fuel : Nat) {rest : List Char} (ends : EndsNumber rest) :
    readValue (fuel + 1) (n.lexeme ++ rest) = some (.number n, rest) := by
  obtain ⟨parts, spanned⟩ := n.spanNumber_lexeme ends
  obtain ⟨c, cs, text, first⟩ := n.exists_lexeme_eq_cons
  have whole : (n.lexeme ++ rest).take ((n.lexeme ++ rest).length - rest.length) = n.lexeme := by
    rw [List.length_append, Nat.add_sub_cancel, List.take_left]
  have read := readValue_number first fuel (cs ++ rest)
  rw [← List.cons_append, ← text, spanned, Option.map_some] at read
  rw [read, whole, n.ofText_lexeme]

mutual

/-- A guarded value in front of other text reads as the value. -/
theorem readValue_guarded (v : Json) {fuel : Nat} (enough : (print v).length < fuel)
    {rest : List Char} (ends : EndsNumber rest) :
    readValue fuel (guardClosing (print v) ++ rest) = some (v, rest) := by
  obtain ⟨fuel, rfl⟩ : ∃ m, fuel = m + 1 := ⟨fuel - 1, by omega⟩
  cases v with
  | null => rfl
  | bool b => cases b <;> rfl
  | number n =>
    have plain : guardClosing n.lexeme = n.lexeme := by
      have whole := guardClosing_append n.bracket_notMem []
      rwa [guardClosing, List.append_nil] at whole
    rw [print, plain]
    exact readValue_numeral n fuel ends
  | string s =>
    have shorter := length_le_quote s.toList
    rw [print] at enough
    rw [print, guardClosing_quote, List.cons_append, readValue_quote,
      readQuoted_guardClosing _ _ _ (by omega), Option.map_some, String.ofList_toList]
  | array items =>
    cases items with
    | nil => rfl
    | cons v vs =>
      rw [print, List.length_cons, List.length_append] at enough
      have first := readValue_guarded v (show (print v).length < fuel by omega)
        (endsNumber_printItems vs rest)
      have others := readItems_guarded vs (show (printItems vs).length < fuel by omega) rest
      obtain ⟨c, cs, text, visible, other, bracket⟩ := exists_print_eq_cons v
      have guarded : guardClosing (print (.array (v :: vs))) ++ rest
          = '[' :: (guardClosing (print v) ++ (guardClosing (printItems vs) ++ rest)) := by
        rw [print, guardClosing_cons (by decide), guardClosing_append_closed (closed_print v),
          List.cons_append, List.append_assoc]
      rw [guarded]
      rw [text, guardClosing_cons bracket, List.cons_append] at first ⊢
      rw [readValue_array visible other, first, Option.bind_some, others, Option.bind_some]
  | object fields =>
    cases fields with
    | nil => rfl
    | cons f fs =>
      obtain ⟨name, v⟩ := f
      have shorter := length_le_quote name.toList
      simp only [print, List.length_cons, List.length_append] at enough
      have named := readName_guarded name (show name.toList.length < fuel by omega)
        (guardClosing (print v) ++ (guardClosing (printFields fs) ++ rest))
      have first := readValue_guarded v (show (print v).length < fuel by omega)
        (endsNumber_printFields fs rest)
      have others := readFields_guarded fs (show (printFields fs).length < fuel by omega) rest
      have guarded : guardClosing (print (.object ((name, v) :: fs))) ++ rest
          = '\x7b' :: (guardClosing (quote name.toList)
            ++ ':' :: (guardClosing (print v) ++ (guardClosing (printFields fs) ++ rest))) := by
        rw [print, guardClosing_cons (by decide), guardClosing_field]
        simp
      rw [guarded]
      rw [guardClosing_quote, List.cons_append] at named ⊢
      rw [readValue_object, named, Option.bind_some, first, Option.bind_some, others,
        Option.bind_some]

theorem readItems_guarded (vs : List Json) {fuel : Nat} (enough : (printItems vs).length < fuel)
    (rest : List Char) :
    readItems fuel (guardClosing (printItems vs) ++ rest) = some (vs, rest) := by
  obtain ⟨fuel, rfl⟩ : ∃ m, fuel = m + 1 := ⟨fuel - 1, by omega⟩
  cases vs with
  | nil => rfl
  | cons v vs =>
    rw [printItems, List.length_cons, List.length_append] at enough
    have first := readValue_guarded v (show (print v).length < fuel by omega)
        (endsNumber_printItems vs rest)
    have others := readItems_guarded vs (show (printItems vs).length < fuel by omega) rest
    rw [printItems, guardClosing_cons (by decide), guardClosing_append_closed (closed_print v),
      List.cons_append, List.append_assoc, readItems_cons, first, Option.bind_some, others,
      Option.bind_some]

theorem readFields_guarded (fs : List (String × Json)) {fuel : Nat}
    (enough : (printFields fs).length < fuel) (rest : List Char) :
    readFields fuel (guardClosing (printFields fs) ++ rest) = some (fs, rest) := by
  obtain ⟨fuel, rfl⟩ : ∃ m, fuel = m + 1 := ⟨fuel - 1, by omega⟩
  cases fs with
  | nil => rfl
  | cons f fs =>
    obtain ⟨name, v⟩ := f
    have shorter := length_le_quote name.toList
    simp only [printFields, List.length_cons, List.length_append] at enough
    have named := readName_guarded name (show name.toList.length < fuel by omega)
      (guardClosing (print v) ++ (guardClosing (printFields fs) ++ rest))
    have first := readValue_guarded v (show (print v).length < fuel by omega)
        (endsNumber_printFields fs rest)
    have others := readFields_guarded fs (show (printFields fs).length < fuel by omega) rest
    have guarded : guardClosing (printFields ((name, v) :: fs)) ++ rest
        = ',' :: (guardClosing (quote name.toList)
          ++ ':' :: (guardClosing (print v) ++ (guardClosing (printFields fs) ++ rest))) := by
      rw [printFields, guardClosing_cons (by decide), guardClosing_field]
      simp
    rw [guarded]
    rw [guardClosing_quote, List.cons_append] at named ⊢
    rw [readFields_cons, named, Option.bind_some, first, Option.bind_some, others,
      Option.bind_some]

end

theorem toList_scriptData (v : Json) : (scriptData v.compact).toList = guardClosing (print v) := by
  rw [scriptData, compact, String.toList_ofList, String.toList_ofList]

/-- **Guarded data reads as it was.** -/
theorem read?_scriptData (v : Json) : read? (scriptData v.compact).toList = some v := by
  have enough : (print v).length < (guardClosing (print v)).length + 1 :=
    Nat.lt_succ_of_le (CodeReader.length_le_guardClosing (print v))
  have ends : EndsNumber [] := fun c none => by cases none
  have read := readValue_guarded v enough ends
  rw [List.append_nil] at read
  rw [read?, toList_scriptData, read]
  rfl

end Json

end PageTree
