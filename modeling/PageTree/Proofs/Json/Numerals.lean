/-
  PageTree/Proofs/Json/Numerals.lean
  ==================================
  **Where a number ends.**

  The text of a number consists of digits, signs, a point and the letter of the
  exponent.  It is cut off the front of a text part by part, and no part reaches
  across any other character.  So a number is read the same whatever follows it, as
  long as that does not begin like a piece of a number.

    * `mem_of_spanNumber`: other characters are left over;
    * `spanNumber_append`: a number in front of other text.
-/
import PageTree.Json.Printer
import Mathlib.Data.List.Basic
import Mathlib.Data.List.TakeWhile

namespace PageTree.Json

/-- The characters that numbers are made of. -/
def isNumberChar (c : Char) : Bool :=
  c.isDigit || c == '-' || c == '+' || c == '.' || c == 'e' || c == 'E'

theorem ne_of_isNumberChar {c d : Char} (foreign : isNumberChar c = false)
    (own : isNumberChar d = true) : c ≠ d := by
  rintro rfl
  cases foreign.symm.trans own

theorem not_isDigit {c : Char} (foreign : isNumberChar c = false) : c.isDigit = false := by
  simp only [isNumberChar, Bool.or_eq_false_iff] at foreign
  tauto

/-! ### What is left over -/

section

variable {c : Char} (foreign : isNumberChar c = false) {s : List Char} (mem : c ∈ s)

include foreign mem

theorem mem_of_spanDigits : c ∈ (spanDigits s).2 := by
  rw [← List.takeWhile_append_dropWhile (p := Char.isDigit) (l := s), List.mem_append] at mem
  refine mem.resolve_left fun digit => ?_
  cases (not_isDigit foreign).symm.trans (List.mem_takeWhile_imp digit)

theorem mem_of_spanWhole {whole rest : List Char} (h : spanWhole s = some (whole, rest)) :
    c ∈ rest := by
  unfold spanWhole at h
  split at h
  · obtain ⟨-, rfl⟩ := Prod.mk.inj (Option.some.inj h)
    exact List.mem_of_ne_of_mem (ne_of_isNumberChar foreign (by decide)) mem
  · split at h
    · cases h
    · have := mem_of_spanDigits foreign mem
      rwa [Option.some.inj h] at this

theorem mem_of_spanFraction {fraction rest : List Char}
    (h : spanFraction s = some (fraction, rest)) : c ∈ rest := by
  unfold spanFraction at h
  split at h
  · split at h
    · cases h
    · have := mem_of_spanDigits foreign
        (List.mem_of_ne_of_mem (ne_of_isNumberChar foreign (by decide)) mem)
      rwa [Option.some.inj h] at this
  · obtain ⟨-, rfl⟩ := Prod.mk.inj (Option.some.inj h)
    exact mem

theorem mem_of_takeSign : c ∈ (Number.takeSign s).2 := by
  unfold Number.takeSign
  split
  · exact List.mem_of_ne_of_mem (ne_of_isNumberChar foreign (by decide)) mem
  · exact List.mem_of_ne_of_mem (ne_of_isNumberChar foreign (by decide)) mem
  · exact mem

theorem mem_of_spanExponent {rest : List Char} {exponent : Option (Bool × List Char)}
    (h : spanExponent s = some (exponent, rest)) : c ∈ rest := by
  unfold spanExponent at h
  split at h
  · next d cs =>
    split at h
    · next letter =>
      have own : isNumberChar d = true := by
        rcases Bool.or_eq_true_iff.1 letter with small | capital
        · rw [eq_of_beq small]
          decide
        · rw [eq_of_beq capital]
          decide
      have after : c ∈ (Number.takeSign cs).2 :=
        mem_of_takeSign foreign (List.mem_of_ne_of_mem (ne_of_isNumberChar foreign own) mem)
      cases sign : Number.takeSign cs with
      | mk negative digits =>
        rw [sign] at h after
        dsimp only at h
        split at h
        · cases h
        · obtain ⟨-, rfl⟩ := Prod.mk.inj (Option.some.inj h)
          exact mem_of_spanDigits foreign after
    · obtain ⟨-, rfl⟩ := Prod.mk.inj (Option.some.inj h)
      exact mem
  · cases mem

/-- A character that numbers do not have is left over. -/
theorem mem_of_spanNumber {rest : List Char} {parts : Parts}
    (h : spanNumber s = some (parts, rest)) : c ∈ rest := by
  unfold spanNumber at h
  split at h
  next negative unsigned sign =>
    have inside : c ∈ unsigned := by
      split at sign
      · obtain ⟨-, rfl⟩ := Prod.mk.inj sign
        exact List.mem_of_ne_of_mem (ne_of_isNumberChar foreign (by decide)) mem
      · obtain ⟨-, rfl⟩ := Prod.mk.inj sign
        exact mem
    obtain ⟨⟨whole, afterWhole⟩, first, h⟩ := Option.bind_eq_some_iff.1 h
    obtain ⟨⟨fraction, afterFraction⟩, second, h⟩ := Option.bind_eq_some_iff.1 h
    obtain ⟨⟨exponent, afterExponent⟩, third, h⟩ := Option.bind_eq_some_iff.1 h
    obtain ⟨-, rfl⟩ := Prod.mk.inj (Option.some.inj h)
    have left := mem_of_spanFraction foreign (mem_of_spanWhole foreign inside first) second
    exact mem_of_spanExponent foreign left third

end

namespace Numeral

theorem exists_spanNumber (n : Numeral) : ∃ parts, spanNumber n.lexeme = some (parts, []) := by
  obtain ⟨⟨parts, left⟩, spanned, closed⟩ := (Option.any_eq_true _ _).1 n.valid
  obtain rfl : left = [] := List.isEmpty_iff.1 closed
  exact ⟨parts, spanned⟩

theorem isNumberChar_of_mem (n : Numeral) {c : Char} (mem : c ∈ n.lexeme) :
    isNumberChar c = true := by
  obtain ⟨parts, spanned⟩ := n.exists_spanNumber
  by_contra foreign
  cases mem_of_spanNumber (Bool.eq_false_iff.2 foreign) mem spanned

theorem lexeme_ne_nil (n : Numeral) : n.lexeme ≠ [] := by
  intro none
  have valid := n.valid
  rw [none] at valid
  exact absurd valid (by decide)

end Numeral

/-! ### Numbers in front of other text -/

/-- The text does not begin like a piece of a number. -/
def EndsNumber (t : List Char) : Prop := ∀ c, t.head? = some c → isNumberChar c = false

theorem endsNumber_cons {c : Char} (foreign : isNumberChar c = false) (t : List Char) :
    EndsNumber (c :: t) := by
  intro d first
  obtain rfl := Option.some.inj first
  exact foreign

/-- The number at the front of a text, after its sign. -/
def spanUnsigned (negative : Bool) (s : List Char) : Option (Parts × List Char) := do
  let (whole, s) ← spanWhole s
  let (fraction, s) ← spanFraction s
  let (exponent, s) ← spanExponent s
  return (⟨negative, whole, fraction, exponent⟩, s)

theorem spanNumber_of_ne {c : Char} (h : c ≠ '-') (s : List Char) :
    spanNumber (c :: s) = spanUnsigned false (c :: s) := by
  unfold spanNumber
  split
  next sign =>
    split at sign
    · next same => exact absurd (List.cons.inj same).1 h
    · obtain ⟨rfl, rfl⟩ := Prod.mk.inj sign
      rfl

section

variable {t : List Char} (ends : EndsNumber t)

include ends

theorem EndsNumber.head_ne {c : Char} (own : isNumberChar c = true) (rest : List Char) :
    t ≠ c :: rest := by
  rintro rfl
  exact ne_of_isNumberChar (ends c rfl) own rfl

theorem spanDigits_append (s : List Char) :
    spanDigits (s ++ t) = ((spanDigits s).1, (spanDigits s).2 ++ t) := by
  induction s with
  | nil =>
    cases t with
    | nil => rfl
    | cons c t => simp [spanDigits, not_isDigit (ends c rfl)]
  | cons c s ih =>
    obtain ⟨digits, rest⟩ := Prod.mk.inj ih
    rw [spanDigits] at digits rest
    by_cases digit : c.isDigit = true
    · simp [spanDigits, digit, digits, rest]
    · simp [spanDigits, digit]

theorem spanWhole_append {s whole rest : List Char} (h : spanWhole s = some (whole, rest)) :
    spanWhole (s ++ t) = some (whole, rest ++ t) := by
  cases s with
  | nil => cases h
  | cons c s =>
    by_cases zero : c = '0'
    · subst zero
      obtain ⟨rfl, rfl⟩ := Prod.mk.inj (Option.some.inj h)
      rfl
    · rw [spanWhole.eq_2 _ (by simpa using zero)] at h
      rw [List.cons_append, spanWhole.eq_2 _ (by simpa using zero), ← List.cons_append,
        spanDigits_append ends]
      split at h
      · cases h
      · next nonempty =>
        obtain ⟨rfl, rfl⟩ := Prod.mk.inj (Option.some.inj h)
        exact if_neg nonempty

theorem spanFraction_append {s fraction rest : List Char}
    (h : spanFraction s = some (fraction, rest)) :
    spanFraction (s ++ t) = some (fraction, rest ++ t) := by
  cases s with
  | nil =>
    obtain ⟨rfl, rfl⟩ := Prod.mk.inj (Option.some.inj h)
    exact spanFraction.eq_2 t fun cs => ends.head_ne (by decide) cs
  | cons c s =>
    by_cases point : c = '.'
    · subst point
      rw [spanFraction] at h
      rw [List.cons_append, spanFraction, spanDigits_append ends]
      split at h
      · cases h
      · next nonempty =>
        rw [if_neg nonempty, Option.some.inj h]
    · rw [spanFraction.eq_2 _ (by simpa using point)] at h
      obtain ⟨rfl, rfl⟩ := Prod.mk.inj (Option.some.inj h)
      exact spanFraction.eq_2 _ (by simpa using point)

omit ends in
/-- What follows does not change the sign of what is there. -/
theorem takeSign_append {s : List Char} (nonempty : s ≠ []) :
    Number.takeSign (s ++ t) = ((Number.takeSign s).1, (Number.takeSign s).2 ++ t) := by
  cases s with
  | nil => exact absurd rfl nonempty
  | cons c s =>
    by_cases minus : c = '-'
    · subst minus
      rfl
    · by_cases plus : c = '+'
      · subst plus
        rfl
      · have other (cs : List Char) : Number.takeSign (c :: cs) = (false, c :: cs) :=
          Number.takeSign.eq_3 _ (by simpa using minus) (by simpa using plus)
        rw [List.cons_append, other, other]
        rfl

theorem spanExponent_append {s rest : List Char} {exponent : Option (Bool × List Char)}
    (h : spanExponent s = some (exponent, rest)) :
    spanExponent (s ++ t) = some (exponent, rest ++ t) := by
  cases s with
  | nil =>
    obtain ⟨rfl, rfl⟩ := Prod.mk.inj (Option.some.inj h)
    cases t with
    | nil => rfl
    | cons c t =>
      have small : c ≠ 'e' := ne_of_isNumberChar (ends c rfl) (by decide)
      have capital : c ≠ 'E' := ne_of_isNumberChar (ends c rfl) (by decide)
      simp [spanExponent, small, capital]
  | cons c s =>
    rw [spanExponent] at h
    rw [List.cons_append, spanExponent]
    split at h
    · next letter =>
      rw [if_pos letter]
      -- the letter alone is no exponent
      have nonempty : s ≠ [] := by
        rintro rfl
        cases h
      rw [takeSign_append nonempty]
      cases sign : Number.takeSign s with
      | mk negative digits =>
        rw [sign] at h
        dsimp only at h ⊢
        rw [spanDigits_append ends]
        split at h
        · cases h
        · next some_digit =>
          obtain ⟨rfl, rfl⟩ := Prod.mk.inj (Option.some.inj h)
          exact if_neg some_digit
    · next other =>
      obtain ⟨rfl, rfl⟩ := Prod.mk.inj (Option.some.inj h)
      exact if_neg other

theorem spanUnsigned_append {s rest : List Char} {negative : Bool} {parts : Parts}
    (h : spanUnsigned negative s = some (parts, rest)) :
    spanUnsigned negative (s ++ t) = some (parts, rest ++ t) := by
  obtain ⟨⟨whole, afterWhole⟩, first, h⟩ := Option.bind_eq_some_iff.1 h
  obtain ⟨⟨fraction, afterFraction⟩, second, h⟩ := Option.bind_eq_some_iff.1 h
  obtain ⟨⟨exponent, afterExponent⟩, third, h⟩ := Option.bind_eq_some_iff.1 h
  obtain ⟨rfl, rfl⟩ := Prod.mk.inj (Option.some.inj h)
  have first' := spanWhole_append ends first
  have second' := spanFraction_append ends second
  have third' := spanExponent_append ends third
  refine Option.bind_eq_some_iff.2 ⟨_, first', ?_⟩
  refine Option.bind_eq_some_iff.2 ⟨_, second', ?_⟩
  exact Option.bind_eq_some_iff.2 ⟨_, third', rfl⟩

/-- A number in front of other text. -/
theorem spanNumber_append {s rest : List Char} {parts : Parts}
    (h : spanNumber s = some (parts, rest)) :
    spanNumber (s ++ t) = some (parts, rest ++ t) := by
  cases s with
  | nil => cases h
  | cons c s =>
    by_cases minus : c = '-'
    · subst minus
      exact spanUnsigned_append ends h
    · rw [spanNumber_of_ne minus] at h
      rw [List.cons_append, spanNumber_of_ne minus, ← List.cons_append]
      exact spanUnsigned_append ends h

end

namespace Numeral

/-- A number begins with a digit or a minus sign. -/
theorem exists_lexeme_eq_cons (n : Numeral) :
    ∃ c cs, n.lexeme = c :: cs ∧ (c = '-' ∨ c.isDigit = true) := by
  obtain ⟨parts, spanned⟩ := n.exists_spanNumber
  cases text : n.lexeme with
  | nil => exact absurd text n.lexeme_ne_nil
  | cons c cs =>
    refine ⟨c, cs, rfl, ?_⟩
    by_cases minus : c = '-'
    · exact .inl minus
    · rw [text, spanNumber_of_ne minus] at spanned
      obtain ⟨_, first, _⟩ := Option.bind_eq_some_iff.1 spanned
      by_cases zero : c = '0'
      · exact .inr (by rw [zero]; decide)
      · rw [spanWhole.eq_2 _ (by simpa using zero)] at first
        split at first
        · cases first
        · next nonempty =>
          by_contra other
          have digit : c.isDigit = false := by
            simp only [minus, false_or] at other
            exact Bool.eq_false_iff.2 other
          exact nonempty (by simp [spanDigits, digit])

theorem ofText_lexeme (n : Numeral) : ofText n.lexeme = n := dif_pos n.valid

/-- A numeral in front of other text is read as it is. -/
theorem spanNumber_lexeme (n : Numeral) {t : List Char} (ends : EndsNumber t) :
    ∃ parts, spanNumber (n.lexeme ++ t) = some (parts, t) := by
  obtain ⟨parts, spanned⟩ := n.exists_spanNumber
  exact ⟨parts, spanNumber_append ends spanned⟩

end Numeral

end PageTree.Json
