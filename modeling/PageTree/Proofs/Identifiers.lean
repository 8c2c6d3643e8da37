/-
  PageTree/Proofs/Identifiers.lean
  ================================
  **Identifiers at the front of a text.**

  An identifier is read as far as its parts go.  A blank is no part of one, so an
  identifier in front of a blank or of a sign is read as a whole.

    * `not_isIdentPart_of_isBlank`: where no identifier goes on;
    * `identifier_append`: an identifier and what follows it;
    * `IsIdentifier`: the texts that are one identifier.
-/
import Mathlib
import PageTree.Text.Blank
import PageTree.Text.Word

namespace PageTree.Text

theorem isIdentPart_of_isIdentStart {c : Char} (h : isIdentStart c = true) :
    isIdentPart c = true := by
  simp only [isIdentStart, Bool.or_eq_true, beq_iff_eq] at h
  rcases h with (letter | rfl) | rfl
  · have word : isWord c = true := isWord_of_isAlphanum (by simp [Char.isAlphanum, letter])
    simp [isIdentPart, word]
  · decide
  · decide

theorem isIdentPart_of_mem_identifier {s : List Char} {c : Char} (h : c ∈ identifier s) :
    isIdentPart c = true := by
  cases s with
  | nil => cases h
  | cons d ds =>
    rw [identifier] at h
    split at h
    · next starts =>
      rcases List.mem_cons.1 h with rfl | later
      · exact isIdentPart_of_isIdentStart starts
      · exact List.mem_takeWhile_imp later
    · cases h

/-- An identifier is the whole one at the front if no part of one follows it. -/
theorem identifier_append {w rest : List Char} (whole : identifier w = w)
    (ends : rest.head?.any isIdentPart = false) : identifier (w ++ rest) = w := by
  cases w with
  | nil =>
    cases rest with
    | nil => rfl
    | cons c cs =>
      have other : ¬ isIdentStart c = true := by
        intro starts
        have part := isIdentPart_of_isIdentStart starts
        simp [part] at ends
      rw [List.nil_append, identifier, if_neg other]
  | cons c cs =>
    rw [identifier] at whole
    split at whole
    · next starts =>
      have parts : ∀ d ∈ cs, isIdentPart d = true := by
        intro d mem
        rw [← (List.cons.inj whole).2] at mem
        exact List.mem_takeWhile_imp mem
      have stops : rest.takeWhile isIdentPart = [] := by
        cases rest with
        | nil => rfl
        | cons d ds => simpa using ends
      rw [List.cons_append, identifier, if_pos starts, List.takeWhile_append_of_pos parts, stops,
        List.append_nil]
    · cases whole

/-- No identifier goes on in a blank. -/
theorem not_isIdentPart_of_isBlank {c : Char} (h : isBlank c = true) : isIdentPart c = false := by
  have outside : ([0x85, 0xA0, 0x1680, 0x2000, 0x2001, 0x2002, 0x2003, 0x2004, 0x2005, 0x2006,
      0x2007, 0x2008, 0x2009, 0x200A, 0x2028, 0x2029, 0x202F, 0x205F, 0x3000].all
      fun n => !CharSet.insideFrom false n wordSet.bounds) = true := by decide +kernel
  have notDollar : c ≠ '$' := by
    rintro rfl
    exact absurd h (by decide)
  simp only [isBlank, Bool.or_eq_true, Bool.and_eq_true, beq_iff_eq, decide_eq_true_eq] at h
  rw [isIdentPart, Bool.or_eq_false_iff]
  refine ⟨?_, beq_eq_false_iff_ne.2 notDollar⟩
  unfold isWord
  split
  · next ascii =>
    rw [Bool.or_eq_false_iff]
    constructor
    · by_contra letter
      have place := toNat_of_isAlphanum (Bool.eq_true_of_not_eq_false letter)
      omega
    · apply beq_eq_false_iff_ne.2
      rintro rfl
      exact absurd h (by decide)
  · next beyond =>
    have listed : c.toNat ∈ [0x85, 0xA0, 0x1680, 0x2000, 0x2001, 0x2002, 0x2003, 0x2004, 0x2005,
        0x2006, 0x2007, 0x2008, 0x2009, 0x200A, 0x2028, 0x2029, 0x202F, 0x205F, 0x3000] := by
      simp only [List.mem_cons, List.not_mem_nil, or_false]
      omega
    have here := List.all_eq_true.1 outside c.toNat listed
    simpa [CharSet.contains] using here

theorem isBlank_of_isIdentPart {c : Char} (part : isIdentPart c = true) : isBlank c = false := by
  by_contra blank
  rw [not_isIdentPart_of_isBlank (Bool.eq_true_of_not_eq_false blank)] at part
  cases part

end PageTree.Text

namespace PageTree

open Text

structure IsIdentifier (name : String) : Prop where
  head : ∃ c cs, name.toList = c :: cs ∧ isIdentStart c = true
  parts : ∀ c ∈ name.toList, isIdentPart c = true

theorem IsIdentifier.identifier_eq {name : String} (h : IsIdentifier name) :
    identifier name.toList = name.toList := by
  obtain ⟨c, cs, spelled, start⟩ := h.head
  have parts : ∀ d ∈ cs, isIdentPart d = true := fun d mem =>
    h.parts d (spelled ▸ List.mem_cons_of_mem c mem)
  rw [spelled, identifier, if_pos start, List.takeWhile_eq_self_iff.2 parts]

end PageTree
