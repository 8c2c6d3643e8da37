/-
  PageTree/Proofs/Compaction/Repetition.lean
  ==========================================
  **Compacting a text again.**

  Compacted text is tight, but it need not be free of comments: what stood around
  a comment or a gap can form one.  Nor need its literals be those of the text,
  since a quote left over in one line can pair up with one of the next line once
  the lines are joined.

    * `compact_compact_eq_iff`: when compaction changes nothing the second time;
    * `compact_changes_again`: it does change a text again.
-/
import Mathlib
import PageTree.Proofs.Compaction.Losses
import PageTree.Proofs.Compaction.Neighbours

namespace PageTree.Compaction

open Text Glyph Literal

/-- No quote stands outside the literals. -/
def NoStrayQuote (ks : List Cell) : Prop := ∀ k ∈ ks, k ∉ quotes.map Cell.char

theorem NoStrayQuote.clean {ks : List Cell} (h : NoStrayQuote ks)
    (lexemes : ∀ l, Cell.literal l ∈ ks → IsLexeme l) : Clean ks where
  lexemes := lexemes
  noQuotes c mem quote := h (.char c) mem (List.mem_map_of_mem quote)

theorem isLexeme_of_mem_compacted {s l : List Char} (h : Cell.literal l ∈ compacted (cells s)) :
    IsLexeme l := by
  rcases mem_of_mem_compacted h with mem | same
  · exact isLexeme_of_mem_cells mem
  · cases same

theorem NoStrayQuote.compacted {ks : List Cell} (h : NoStrayQuote ks) :
    NoStrayQuote (compacted ks) := by
  intro k mem
  rcases mem_of_mem_compacted mem with before | rfl
  · exact h k before
  · decide

theorem mem_of_char_mem_cells {s : List Char} {c : Char} (h : Cell.char c ∈ cells s) : c ∈ s := by
  rw [← sources_cells s]
  exact List.mem_flatMap.2 ⟨.char c, h, List.mem_singleton_self c⟩

theorem unreserved_of_not_mem {s : List Char} (h : opening ∉ s) : Unreserved (cells s) :=
  fun mem => h (mem_of_char_mem_cells mem)

/-- Compaction brings no character in but the space. -/
theorem not_mem_run {s : List Char} (h : opening ∉ s) : opening ∉ run s := by
  rw [run_eq (unreserved_of_not_mem h)]
  intro mem
  obtain ⟨k, found, within⟩ := List.mem_flatMap.1 mem
  rcases mem_of_mem_compacted found with before | rfl
  · refine h ?_
    rw [← sources_cells s]
    exact List.mem_flatMap.2 ⟨k, before, within⟩
  · exact absurd (List.mem_singleton.1 within) (by decide)

theorem run_run_eq_iff {s : List Char} (h : opening ∉ s) :
    run (run s) = run s ↔
      ¬ HasComment (cells (run s)) ∧ Glyph.tighten (cells (run s)) = cells (run s) :=
  run_eq_self_iff (unreserved_of_not_mem (not_mem_run h))

/-- The literals and characters of compacted text are read back, unless a quote
    is left over. -/
theorem cells_run {s : List Char} (h : opening ∉ s)
    (noQuotes : NoStrayQuote (compacted (cells s))) : cells (run s) = compacted (cells s) := by
  rw [run_eq (unreserved_of_not_mem h)]
  exact cells_sources (noQuotes.clean fun _ => isLexeme_of_mem_compacted)

theorem run_run_eq_iff_of_noStrayQuote {s : List Char} (h : opening ∉ s)
    (noQuotes : NoStrayQuote (compacted (cells s))) :
    run (run s) = run s ↔ ¬ HasComment (compacted (cells s)) := by
  rw [run_run_eq_iff h, cells_run h noQuotes, compacted, tighten_idem]
  exact and_iff_left rfl

theorem run_run_of_calm {s : List Char} (h : opening ∉ s) (noQuotes : NoStrayQuote (cells s))
    (noMarkup : ¬ chars "<!--".toList <:+: cells s) (calm : Calm (cells s)) :
    run (run s) = run s := by
  have none : ¬ HasComment (cells s) :=
    not_hasComment_of_openers noMarkup calm.noBlock calm.noLine
  rw [run_run_eq_iff_of_noStrayQuote h noQuotes.compacted, compacted,
    dropComments_of_not_hasComment none]
  exact calm.not_hasComment_tighten noMarkup

/-- Compacting a text without the opening of a placeholder once more changes
    nothing exactly if its compaction has, outside literals, no comment and no
    needless blanks.  If the compaction leaves no quote outside literals, the
    blanks are tight, and it is exactly the comments that matter; and there are
    none if the text opened none. -/
theorem compact_compact_eq_iff (s : String) (unreserved : opening ∉ s.toList) :
    (compact (compact s) = compact s ↔
      ¬ HasComment (cells (compact s).toList) ∧
        Glyph.tighten (cells (compact s).toList) = cells (compact s).toList) ∧
    (NoStrayQuote (compacted (cells s.toList)) →
      (compact (compact s) = compact s ↔ ¬ HasComment (compacted (cells s.toList)))) ∧
    (NoStrayQuote (cells s.toList) → ¬ chars "<!--".toList <:+: cells s.toList →
      Calm (cells s.toList) → compact (compact s) = compact s) := by
  have same : compact (compact s) = compact s ↔ run (run s.toList) = run s.toList := by
    rw [compact, compact, String.toList_ofList, String.ofList_inj]
  rw [same, compact, String.toList_ofList]
  exact ⟨run_run_eq_iff unreserved, run_run_eq_iff_of_noStrayQuote unreserved,
    run_run_of_calm unreserved⟩

/-- Some source with a literal, whose lines are joined. -/
def twoLines : String := "let a = 'x  y';\n  let b = 2;"

theorem twoLines_compacted_once :
    opening ∉ twoLines.toList ∧ NoStrayQuote (cells twoLines.toList) ∧
      ¬ chars "<!--".toList <:+: cells twoLines.toList ∧ Calm (cells twoLines.toList) ∧
      compact (compact twoLines) = compact twoLines := by
  have unreserved : opening ∉ twoLines.toList := by decide +kernel
  have noQuotes : NoStrayQuote (cells twoLines.toList) := by
    unfold NoStrayQuote
    decide +kernel
  have noSlash : Cell.char '/' ∉ cells twoLines.toList := by decide +kernel
  have noOpen : Cell.char '<' ∉ cells twoLines.toList := by decide +kernel
  have noMarkup : ¬ chars "<!--".toList <:+: cells twoLines.toList :=
    fun h => noOpen (h.subset List.mem_cons_self)
  have calm : Calm (cells twoLines.toList) := {
    noBlock := fun h => noSlash (h.subset List.mem_cons_self)
    noLine := fun h => noSlash (h.subset List.mem_cons_self)
    noClose := fun _ _ h => noSlash (h.subset List.mem_cons_self) }
  exact ⟨unreserved, noQuotes, noMarkup, calm,
    (compact_compact_eq_iff twoLines unreserved).2.2 noQuotes noMarkup calm⟩

/-- A comment comes about around a comment, and two quotes pair up across
    lines. -/
theorem compact_changes_again :
    compact (compact "<!<!-- -->-- x -->") ≠ compact "<!<!-- -->-- x -->" ∧
      compact (compact "can't\n\"it's  x\"") ≠ compact "can't\n\"it's  x\"" := by
  decide +kernel

end PageTree.Compaction
