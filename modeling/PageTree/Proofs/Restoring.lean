/-
  PageTree/Proofs/Restoring.lean
  ==============================
  **Taking literals out and putting them back.**

  Digits and literals that stand next to each other never make up a placeholder,
  but a source can contain the two characters around a number itself.  Then the
  literal of that number is put there, although it was taken from elsewhere.

    * `exchanges_protect`: what is put back, for every text;
    * `restore_protect`: which texts come back as they were.
-/
import Mathlib
import PageTree.Proofs.Shortening.Passes

namespace PageTree.Compaction

open Text Literal
open Glyph (chars)
open NameTable (literals)

variable {ls : List (List Char)} {ks : List Cell} {t : List Char}

/-! ### What is put back -/

/-- No mark with the number of a literal stands at the front. -/
def Unnumbered (ls : List (List Char)) (ks : List Cell) : Prop :=
  ∀ n w, Mark n w → chars w <+: ks → ls.length ≤ n

/-- The text that putting `ls` back makes of cells.  A literal becomes its source, a
    mark outside literals becomes the literal of its number, if there is one, and
    any other character stays. -/
inductive Exchanges (ls : List (List Char)) : List Cell → List Char → Prop where
  | nil : Exchanges ls [] []
  | literal (l : List Char) {ks : List Cell} {t : List Char} :
      Exchanges ls ks t → Exchanges ls (.literal l :: ks) (l ++ t)
  | mark {n : Nat} {w l : List Char} {ks : List Cell} {t : List Char} :
      Mark n w → ls[n]? = some l → Exchanges ls ks t → Exchanges ls (chars w ++ ks) (l ++ t)
  | char (c : Char) {ks : List Cell} {t : List Char} :
      Unnumbered ls (.char c :: ks) → Exchanges ls ks t → Exchanges ls (.char c :: ks) (c :: t)

theorem head?_mark {n : Nat} {w : List Char} (mark : Mark n w) (ks : List Cell) :
    (chars w ++ ks).head? = some (.char opening) := by
  obtain ⟨v, rfl, -⟩ := mark.exists_cons
  rfl

theorem Unnumbered.getElem?_eq_none {n : Nat} {w : List Char} (h : Unnumbered ls (chars w ++ ks))
    (mark : Mark n w) : ls[n]? = none :=
  List.getElem?_eq_none (h n w mark (List.prefix_append _ _))

theorem Exchanges.unique_of_eq {ks' : List Cell} {t' : List Char} (h : Exchanges ls ks t)
    (h' : Exchanges ls ks' t') (same : ks = ks') : t = t' := by
  induction h generalizing ks' t' with
  | nil =>
    cases h' with
    | nil => rfl
    | mark mark _ _ => simpa [head?_mark mark] using congrArg List.head? same
    | literal | char => cases same
  | literal l _ ih =>
    cases h' with
    | literal _ later =>
      obtain ⟨rfl, rest⟩ := by simpa using same
      rw [ih later rest]
    | mark mark _ _ => simpa [head?_mark mark] using congrArg List.head? same
    | nil | char => cases same
  | @mark n w l ks t mark known _ ih =>
    cases h' with
    | @mark n' w' l' ks' t' mark' known' later =>
      have texts := congrArg sources same
      rw [sources_append, sources_append, sources_chars, sources_chars] at texts
      obtain ⟨rfl, rfl⟩ := mark.unique mark' texts
      obtain rfl := Option.some.inj (known.symm.trans known')
      rw [ih later (List.append_cancel_left same)]
    | char c unnumbered _ =>
      rw [← same] at unnumbered
      cases known.symm.trans (unnumbered.getElem?_eq_none mark)
    | nil | literal => simpa [head?_mark mark] using congrArg List.head? same
  | char c unnumbered _ ih =>
    cases h' with
    | char _ _ later =>
      obtain ⟨rfl, rest⟩ := by simpa using same
      rw [ih later rest]
    | mark mark known _ =>
      rw [same] at unnumbered
      cases known.symm.trans (unnumbered.getElem?_eq_none mark)
    | nil | literal => cases same

/-- Cells have one outcome. -/
theorem Exchanges.unique {t' : List Char} (h : Exchanges ls ks t) (h' : Exchanges ls ks t') :
    t = t' :=
  h.unique_of_eq h' rfl

/-! ### Marks between places -/

theorem prefix_of_prefix_text {v : List Char} (plain : opening ∉ v) {hs : List Hole}
    (h : v <+: hs.flatMap Hole.text) : chars v <+: hs := by
  induction v generalizing hs with
  | nil => exact List.nil_prefix
  | cons c cs ih =>
    obtain ⟨here, later⟩ := not_or.1 (mt List.mem_cons.2 plain)
    cases hs with
    | nil => cases List.prefix_nil.1 h
    | cons x hs =>
      cases x with
      | char d =>
        obtain ⟨rfl, onward⟩ := List.cons_prefix_cons.1 h
        exact List.cons_prefix_cons.2 ⟨rfl, ih later onward⟩
      | place n => exact absurd (List.cons_prefix_cons.1 h).1.symm here

/-- Between places, a mark of the text is a mark of the source. -/
theorem Mark.prefix_of_prefix_text {n : Nat} {w : List Char} (mark : Mark n w) {c : Char}
    {hs : List Hole} (h : w <+: c :: hs.flatMap Hole.text) : chars w <+: Hole.char c :: hs := by
  obtain ⟨v, rfl, plain⟩ := mark.exists_cons
  obtain ⟨rfl, onward⟩ := List.cons_prefix_cons.1 h
  exact List.cons_prefix_cons.2 ⟨rfl, Compaction.prefix_of_prefix_text plain onward⟩

theorem prefix_of_prefix_fill {w : List Char} {hs : List Hole}
    (h : chars w <+: hs.map (Hole.fill ls)) : chars w <+: hs := by
  induction w generalizing hs with
  | nil => exact List.nil_prefix
  | cons c cs ih =>
    cases hs with
    | nil => cases List.prefix_nil.1 h
    | cons x hs =>
      obtain ⟨same, onward⟩ := List.cons_prefix_cons.1 h
      cases x with
      | char d =>
        obtain rfl := Cell.char.inj same
        exact List.cons_prefix_cons.2 ⟨rfl, ih onward⟩
      | place n => cases same

theorem text_chars (w : List Char) : (chars w).flatMap Hole.text = w := by
  induction w with
  | nil => rfl
  | cons c cs ih => exact congrArg (c :: ·) ih

theorem fill_chars (w : List Char) : (chars w).map (Hole.fill ls) = chars w := by
  simp [chars, Glyph.ofChar, Hole.fill]

/-- Putting literals back exchanges places for their literals, and the marks
    between them, too. -/
theorem exchanges_holes {hs : List Hole} (places : ∀ n, Hole.place n ∈ hs → n < ls.length) :
    Exchanges ls (hs.map (Hole.fill ls)) (restore ls (hs.flatMap Hole.text)) := by
  induction length : hs.length using Nat.strong_induction_on generalizing hs with
  | _ k ih =>
    cases hs with
    | nil => exact .nil
    | cons x hs =>
      have onward := ih hs.length (by simp [← length])
        (fun n mem => places n (List.mem_cons_of_mem x mem)) rfl
      cases x with
      | place n =>
        have known : ls[n]? = some (ls.getD n []) := by
          simp [places n List.mem_cons_self]
        change Exchanges ls (.literal (ls.getD n []) :: _) (restore ls (placeholder n ++ _))
        rw [restore_placeholder known]
        exact .literal _ onward
      | char c =>
        by_cases marked : ∃ n w, Mark n w ∧ n < ls.length ∧ chars w <+: Hole.char c :: hs
        · obtain ⟨n, w, mark, within, rest, front⟩ := marked
          have known : ls[n]? = some ls[n] := List.getElem?_eq_getElem within
          have shorter : rest.length < k := by
            obtain ⟨v, rfl, -⟩ := mark.exists_cons
            rw [← length, ← front, List.length_append]
            simp [chars]
          have later := ih rest.length shorter
            (fun m mem => places m (front ▸ List.mem_append_right _ mem)) rfl
          rw [← front, List.map_append, List.flatMap_append, fill_chars, text_chars,
            restore_mark mark known]
          exact .mark mark known later
        · have unnumbered (n : Nat) (w : List Char) (mark : Mark n w)
              (front : chars w <+: Hole.char c :: hs) : ls.length ≤ n :=
            Nat.le_of_not_lt fun within => marked ⟨n, w, mark, within, front⟩
          change Exchanges ls (.char c :: _) (restore ls (c :: hs.flatMap Hole.text))
          rw [restore_of_unknown fun n w mark front =>
            unnumbered n w mark (Mark.prefix_of_prefix_text mark front)]
          have free : Unnumbered ls ((Hole.char c :: hs).map (Hole.fill ls)) :=
            fun n w mark front => unnumbered n w mark (prefix_of_prefix_fill front)
          exact .char c free onward

/-! ### Texts that come back -/

theorem chars_infix_literal_cons {n : Nat} {w l : List Char} (mark : Mark n w) :
    chars w <:+: Cell.literal l :: ks ↔ chars w <:+: ks := by
  obtain ⟨v, rfl, -⟩ := mark.exists_cons
  rw [List.infix_cons_iff, or_iff_right]
  intro front
  cases (List.cons_prefix_cons.1 front).1

/-- Cells become their sources if no mark among them has the number of a literal.
    Otherwise a quote stands where the first such mark opened. -/
theorem Exchanges.eq_sources_iff (quoted : ∀ l ∈ ls, IsLexeme l) (h : Exchanges ls ks t) :
    t = sources ks ↔ ∀ n w, Mark n w → chars w <:+: ks → ls.length ≤ n := by
  induction h with
  | nil =>
    refine iff_of_true rfl fun n w mark inside => ?_
    obtain ⟨v, rfl, -⟩ := mark.exists_cons
    cases List.infix_nil.1 inside
  | @literal l ks t _ ih =>
    have same : l ++ t = sources (.literal l :: ks) ↔ t = sources ks := List.append_right_inj l
    rw [same, ih]
    refine forall₂_congr fun n w => forall_congr' fun mark => ?_
    rw [chars_infix_literal_cons mark]
  | @mark n w l ks t mark known _ _ =>
    refine iff_of_false (fun same => ?_) fun all => ?_
    · obtain ⟨quote, isQuote, body, rfl⟩ := (quoted l (List.mem_of_getElem? known)).quoted
      obtain ⟨v, rfl, -⟩ := mark.exists_cons
      rw [sources_append, sources_chars] at same
      obtain rfl : quote = opening := (List.cons.inj same).1
      exact absurd isQuote (by decide)
    · have beyond := all n w mark (List.prefix_append _ _).isInfix
      rw [List.getElem?_eq_none beyond] at known
      cases known
  | @char c ks t unnumbered _ ih =>
    have same : c :: t = sources (.char c :: ks) ↔ t = sources ks := List.cons_inj_right c
    rw [same, ih]
    refine forall₂_congr fun n w => forall_congr' fun mark => ?_
    rw [List.infix_cons_iff]
    exact ⟨fun later inside => inside.elim (unnumbered n w mark) later,
      fun all inside => all (.inr inside)⟩

theorem isLexeme_of_mem_literals {s l : List Char} (h : l ∈ literals (cells s)) : IsLexeme l := by
  obtain ⟨k, mem, same⟩ := List.mem_filterMap.1 h
  cases k with
  | char c => cases same
  | literal l' =>
    obtain rfl := Option.some.inj same
    exact isLexeme_of_mem_cells mem

theorem exchanges_protect (s : List Char) :
    Exchanges (protect s).2 (cells s) (restore (protect s).2 (protect s).1) := by
  let pieces := scan recogniser s
  have filled : (holes 0 pieces).map (Hole.fill (lexemes pieces)) = cells s := fill_holes [] pieces
  have places (n : Nat) (mem : Hole.place n ∈ holes 0 pieces) : n < (lexemes pieces).length := by
    simpa using lt_of_mem_holes mem
  have put := exchanges_holes places
  rw [filled, ← number_eq] at put
  exact put

/-- **Literals taken out and put back.**  All literals are taken.  They come back in
    their places, and besides them exactly the marks outside literals that have the
    number of a literal are replaced, by that literal.  So the text comes back if and
    only if it has no such mark. -/
theorem restore_protect (s : List Char) :
    (protect s).2 = literals (cells s) ∧
    (∀ t, restore (protect s).2 (protect s).1 = t ↔ Exchanges (literals (cells s)) (cells s) t) ∧
    (restore (protect s).2 (protect s).1 = s ↔
      ∀ n w, Mark n w → chars w <:+: cells s → (literals (cells s)).length ≤ n) := by
  have taken : (protect s).2 = literals (cells s) := NameTable.lexemes_eq_literals _
  have exchanges := exchanges_protect s
  rw [taken] at exchanges ⊢
  have same := exchanges.eq_sources_iff fun l mem => isLexeme_of_mem_literals mem
  rw [sources_cells] at same
  exact ⟨rfl, fun t => ⟨fun outcome => outcome ▸ exchanges, exchanges.unique⟩, same⟩

/-- The literal of the source is put into the place of a placeholder that the
    source contains itself. -/
theorem placeholder_of_source_replaced :
    restore (protect "\ue0000\ue001\"a\"".toList).2 (protect "\ue0000\ue001\"a\"".toList).1
      ≠ "\ue0000\ue001\"a\"".toList := by
  decide +kernel

end PageTree.Compaction
