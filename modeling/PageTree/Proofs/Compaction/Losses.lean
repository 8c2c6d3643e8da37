/-
  PageTree/Proofs/Compaction/Losses.lean
  ======================================
  **What compaction takes away from a text.**

  Comments outside literals are lost as a whole.  Apart from them only blanks are
  lost or written as a space.  So a text keeps everything but blanks exactly if it
  has no comment, and it stays as it is exactly if, moreover, its blanks are tight.

    * `bare_run`: what is kept besides blanks;
    * `bare_run_eq_iff`, `run_eq_self_iff`: when nothing but blanks, and when
      nothing at all is lost;
    * `cells_sources`: cells without stray quotes are read back from their text.
-/
import Mathlib
import PageTree.Proofs.Compaction.Cells

namespace PageTree.Compaction

open Text Glyph Literal

/-! ### Text without its blanks -/

/-- A text without its blanks. -/
def bare (s : List Char) : List Char := s.filter fun c => !Text.isBlank c

theorem bare_append (s t : List Char) : bare (s ++ t) = bare s ++ bare t := List.filter_append ..

theorem sources_cons (k : Cell) (ks : List Cell) : sources (k :: ks) = k.source ++ sources ks := rfl

theorem bare_sources_cons (k : Cell) (ks : List Cell) :
    bare (sources (k :: ks)) = bare k.source ++ bare (sources ks) := bare_append _ _

theorem not_isBlank_of_quote {c : Char} (h : c ∈ quotes) : Text.isBlank c = false := by
  simp only [quotes, kinds, List.map_cons, List.map_nil, List.mem_cons, List.not_mem_nil,
    or_false] at h
  rcases h with rfl | rfl | rfl <;> rfl

theorem bare_of_isBlank {k : Cell} (h : isBlank k = true) : bare k.source = [] := by
  cases k with
  | char c =>
    have blank : Text.isBlank c = true := h
    simp [bare, Cell.source, blank]
  | literal l => cases h

theorem bare_sources_visible (ks : List Cell) :
    bare (sources (visible ks)) = bare (sources ks) := by
  induction ks with
  | nil => rfl
  | cons k ks ih =>
    rw [visible, List.filter_cons, bare_sources_cons]
    by_cases blank : isBlank k = true
    · rw [blank, bare_of_isBlank blank, List.nil_append]
      exact ih
    · rw [Bool.eq_false_iff.2 blank, Bool.not_false, if_pos rfl, bare_sources_cons]
      exact congrArg _ ih

/-- Only blank cells have nothing but blanks. -/
theorem bare_ne_nil {s : List Char} {k : Cell} (mem : k ∈ cells s) (seen : isBlank k = false) :
    bare k.source ≠ [] := by
  cases k with
  | char c =>
    have plain : Text.isBlank c = false := seen
    simp [bare, Cell.source, plain]
  | literal l =>
    obtain ⟨quote, isQuote, body, rfl⟩ := (isLexeme_of_mem_cells mem).quoted
    simp [bare, Cell.source, not_isBlank_of_quote isQuote]

theorem bare_length_of_sublist {ks' ks : List Cell} (h : ks'.Sublist ks) :
    (bare (sources ks')).length ≤ (bare (sources ks)).length := by
  induction h with
  | slnil => exact Nat.le_refl _
  | cons k _ ih =>
    rw [bare_sources_cons, List.length_append]
    exact ih.trans (Nat.le_add_left _ _)
  | cons_cons k _ ih =>
    rw [bare_sources_cons, bare_sources_cons, List.length_append, List.length_append]
    exact Nat.add_le_add_left ih _

/-- Cells that are dropped without a loss are blanks. -/
theorem visible_eq_of_bare {ks' ks : List Cell} (h : ks'.Sublist ks)
    (solid : ∀ k ∈ ks, isBlank k = false → bare k.source ≠ [])
    (same : bare (sources ks') = bare (sources ks)) : visible ks' = visible ks := by
  induction h with
  | slnil => rfl
  | @cons ks' ks k rest ih =>
    have onward := ih fun k' mem => solid k' (List.mem_cons_of_mem k mem)
    rw [bare_sources_cons] at same
    by_cases blank : isBlank k = true
    · rw [bare_of_isBlank blank, List.nil_append] at same
      rw [onward same, visible, visible, List.filter_cons, blank]
      rfl
    · have lost := solid k List.mem_cons_self (Bool.eq_false_iff.2 blank)
      have shorter := bare_length_of_sublist rest
      have positive := List.length_pos_of_ne_nil lost
      have := congrArg List.length same
      rw [List.length_append] at this
      omega
  | @cons_cons ks' ks k rest ih =>
    rw [bare_sources_cons, bare_sources_cons] at same
    have onward := ih (fun k' mem => solid k' (List.mem_cons_of_mem k mem))
      (List.append_cancel_left same)
    rw [visible, visible] at onward
    rw [visible, visible, List.filter_cons, List.filter_cons, onward]

/-- Compaction keeps what is not blank and not in a comment. -/
theorem bare_run {s : List Char} (h : Unreserved (cells s)) :
    bare (run s) = bare (sources (Glyph.dropComments (cells s))) := by
  rw [run_eq h, compacted, ← bare_sources_visible, (shrinks_tighten _).visible_eq,
    bare_sources_visible]

theorem bare_dropComments_eq_iff {s : List Char} :
    bare (sources (Glyph.dropComments (cells s))) = bare s ↔ ¬ HasComment (cells s) := by
  constructor
  · intro same
    have same' : bare (sources (Glyph.dropComments (cells s))) = bare (sources (cells s)) := by
      rw [same, sources_cells]
    exact not_hasComment_of_visible (visible_eq_of_bare (dropComments_sublist (cells s))
      (fun _ mem seen => bare_ne_nil mem seen) same')
  · intro none
    rw [dropComments_of_not_hasComment none, sources_cells]

theorem bare_run_eq_iff {s : List Char} (h : Unreserved (cells s)) :
    bare (run s) = bare s ↔ ¬ HasComment (cells s) := by
  rw [bare_run h, bare_dropComments_eq_iff]

/-! ### Texts that compaction leaves as they are -/

theorem exists_of_isBlank {k : Cell} (h : isBlank k = true) : ∃ c, k = .char c := by
  cases k with
  | char c => exact ⟨c, rfl⟩
  | literal l => cases h

theorem Glyph.Shrinks.length_sources {ks' ks : List Cell} (h : Shrinks ks' ks) :
    (sources ks').length ≤ (sources ks).length := by
  induction h with
  | nil => exact Nat.le_refl _
  | keep k _ ih =>
    rw [sources_cons, sources_cons, List.length_append, List.length_append]
    exact Nat.add_le_add_left ih _
  | space blank _ ih =>
    obtain ⟨c, rfl⟩ := exists_of_isBlank blank
    exact Nat.succ_le_succ ih
  | drop blank _ ih =>
    obtain ⟨c, rfl⟩ := exists_of_isBlank blank
    exact ih.trans (Nat.le_succ _)

/-- Cells whose text stays the same stay the same. -/
theorem Glyph.Shrinks.eq_of_sources {ks' ks : List Cell} (h : Shrinks ks' ks)
    (same : sources ks' = sources ks) : ks' = ks := by
  induction h with
  | nil => rfl
  | keep k _ ih =>
    rw [sources_cons, sources_cons] at same
    rw [ih (List.append_cancel_left same)]
  | space blank _ ih =>
    obtain ⟨c, rfl⟩ := exists_of_isBlank blank
    obtain ⟨rfl, rest⟩ := List.cons.inj same
    exact congrArg _ (ih rest)
  | drop blank rest _ =>
    obtain ⟨c, rfl⟩ := exists_of_isBlank blank
    have shorter := rest.length_sources
    rw [same] at shorter
    exact absurd shorter (Nat.not_succ_le_self _)

theorem run_eq_self_iff {s : List Char} (h : Unreserved (cells s)) :
    run s = s ↔ ¬ HasComment (cells s) ∧ Glyph.tighten (cells s) = cells s := by
  constructor
  · intro same
    have none : ¬ HasComment (cells s) := (bare_run_eq_iff h).1 (congrArg bare same)
    have whole := same
    rw [run_eq h, compacted, dropComments_of_not_hasComment none] at whole
    refine ⟨none, (shrinks_tighten (cells s)).eq_of_sources ?_⟩
    rw [whole, sources_cells]
  · rintro ⟨none, tight⟩
    rw [run_eq h, compacted, dropComments_of_not_hasComment none, tight, sources_cells]

/-! ### Reading the outcome -/

/-- Cells read back as they are: each literal is one, and no other quote stands
    among them. -/
structure Clean (ks : List Cell) : Prop where
  lexemes : ∀ l, Cell.literal l ∈ ks → IsLexeme l
  noQuotes : ∀ c, Cell.char c ∈ ks → c ∉ quotes

theorem cells_sources {ks : List Cell} (h : Clean ks) : cells (sources ks) = ks := by
  induction ks with
  | nil => rfl
  | cons k ks ih =>
    have onward := ih ⟨fun l mem => h.lexemes l (List.mem_cons_of_mem k mem),
      fun c mem => h.noQuotes c (List.mem_cons_of_mem k mem)⟩
    cases k with
    | char c =>
      have plain := recogniser_of_not_mem (h.noQuotes c List.mem_cons_self) (sources ks)
      exact (cells_of_not_read plain).trans (congrArg _ onward)
    | literal l =>
      exact (cells_of_lexeme (h.lexemes l List.mem_cons_self) (sources ks)).trans
        (congrArg _ onward)

end PageTree.Compaction
