/-
  PageTree/Proofs/Compaction/Expansions.lean
  ==========================================
  **Dropping comments and blanks does not depend on how glyphs are written.**

  The same text can be written with different glyphs: what is one glyph in one
  writing may be several in another, if no pass looks for them.  Each pass gives
  the same result in both.

    * `compacted_expand`.
-/
import Mathlib
import PageTree.Proofs.Compaction.Glyphs

namespace PageTree.Compaction

open Text

namespace Glyph

variable {σ τ : Type} [Glyph σ] [Glyph τ]

/-! ### Glyphs that no pass looks for -/

/-- The characters that the passes look for, apart from blanks. -/
def special : List Char := ['<', '!', '-', '>', '/', '*', ':', '\\', '\n']

structure Inert (x : τ) : Prop where
  visible : isBlank x = false
  plain : ∀ c ∈ special, is c x = false

/-- A text may be written with other glyphs: each glyph becomes one that stands
    for the same character, or one that no pass looks for becomes several such
    glyphs. -/
structure Expansion (e : σ → List τ) : Prop where
  space : e (ofChar ' ') = [ofChar ' ']
  glyph : ∀ x, (∃ y, e x = [y] ∧ char? y = char? x) ∨
    (Inert x ∧ e x ≠ [] ∧ ∀ y ∈ e x, Inert y)

theorem is_congr {x : σ} {y : τ} (same : char? y = char? x) (c : Char) : is c y = is c x := by
  rw [is, is, same]

theorem isBlank_congr {x : σ} {y : τ} (same : char? y = char? x) : isBlank y = isBlank x := by
  rw [isBlank, isBlank, same]

variable {e : σ → List τ}

/-! ### Enclosed comments -/

section Enclosed

variable {word opens closes : List Char}

theorem dropWord_inert (nonempty : word ≠ []) (plain : word ⊆ special) {y : τ} (inert : Inert y)
    (ys : List τ) : dropWord word (y :: ys) = none := by
  cases word with
  | nil => exact absurd rfl nonempty
  | cons c cs => rw [dropWord, inert.plain c (plain List.mem_cons_self), if_neg Bool.false_ne_true]

theorem dropWord_expand (h : Expansion e) (plain : word ⊆ special) (xs : List σ) :
    dropWord word (xs.flatMap e) = (dropWord word xs).map (·.flatMap e) := by
  induction word generalizing xs with
  | nil => rfl
  | cons c cs ih =>
    cases xs with
    | nil => rfl
    | cons x xs =>
      rw [List.flatMap_cons]
      rcases h.glyph x with ⟨y, written, same⟩ | ⟨inert, nonempty, all⟩
      · rw [written, List.singleton_append, dropWord, dropWord, is_congr same,
          ih (List.cons_subset.1 plain).2]
        split <;> rfl
      · obtain ⟨y, ys, written⟩ := List.exists_cons_of_ne_nil nonempty
        rw [written] at all ⊢
        rw [List.cons_append, dropWord_inert (List.cons_ne_nil c cs) plain (all y (by simp)),
          dropWord_inert (List.cons_ne_nil c cs) plain inert]
        rfl

theorem after_inert (nonempty : word ≠ []) (plain : word ⊆ special) {ys : List τ}
    (inert : ∀ y ∈ ys, Inert y) (xs : List τ) : after word (ys ++ xs) = after word xs := by
  induction ys with
  | nil => rfl
  | cons y ys ih =>
    rw [List.cons_append, after, dropWord_inert nonempty plain (inert y (by simp)),
      Option.none_or, ih fun y' mem => inert y' (List.mem_cons_of_mem y mem)]

theorem after_expand (h : Expansion e) (nonempty : word ≠ []) (plain : word ⊆ special)
    (xs : List σ) : after word (xs.flatMap e) = (after word xs).map (·.flatMap e) := by
  induction xs with
  | nil => rfl
  | cons x xs ih =>
    have here := dropWord_expand h plain (x :: xs)
    rw [List.flatMap_cons] at here ⊢
    rcases h.glyph x with ⟨y, written, same⟩ | ⟨inert, _, all⟩
    · rw [written, List.singleton_append] at here ⊢
      rw [after, after, here, ih]
      cases dropWord word (x :: xs) <;> rfl
    · rw [after_inert nonempty plain all, after, dropWord_inert nonempty plain inert,
        Option.none_or, ih]

theorem dropEnclosed_inert (nonempty : opens ≠ []) (plain : opens ⊆ special) {ys : List τ}
    (inert : ∀ y ∈ ys, Inert y) (xs : List τ) :
    dropEnclosed opens closes (ys ++ xs) = ys ++ dropEnclosed opens closes xs := by
  induction ys with
  | nil => rfl
  | cons y ys ih =>
    have miss : (dropWord opens (y :: (ys ++ xs))).bind (after closes) = none := by
      rw [dropWord_inert nonempty plain (inert y (by simp))]
      rfl
    rw [List.cons_append, dropEnclosed_miss miss,
      ih fun y' mem => inert y' (List.mem_cons_of_mem y mem)]
    rfl

theorem dropEnclosed_expand (h : Expansion e) (opensNonempty : opens ≠ [])
    (closesNonempty : closes ≠ []) (opensPlain : opens ⊆ special) (closesPlain : closes ⊆ special)
    (xs : List σ) :
    dropEnclosed opens closes (xs.flatMap e) = (dropEnclosed opens closes xs).flatMap e := by
  induction length : xs.length using Nat.strong_induction_on generalizing xs with
  | _ n ih =>
    cases xs with
    | nil => rfl
    | cons x xs =>
      have shorter : xs.length < n := by rw [← length]; exact Nat.lt_succ_self _
      have here : (dropWord opens ((x :: xs).flatMap e)).bind (after closes)
          = ((dropWord opens (x :: xs)).bind (after closes)).map (·.flatMap e) := by
        rw [dropWord_expand h opensPlain]
        cases dropWord opens (x :: xs) with
        | none => rfl
        | some inner => exact after_expand h closesNonempty closesPlain inner
      rw [List.flatMap_cons] at here ⊢
      rcases h.glyph x with ⟨y, written, same⟩ | ⟨inert, _, all⟩
      · rw [written, List.singleton_append] at here ⊢
        cases found : (dropWord opens (x :: xs)).bind (after closes) with
        | none =>
          rw [found] at here
          rw [dropEnclosed_miss here, dropEnclosed_miss found, ih _ shorter xs rfl,
            List.flatMap_cons, written, List.singleton_append]
        | some rest =>
          rw [found] at here
          have less := (suffix_of_opened opensNonempty found).length_le.trans_lt shorter
          rw [dropEnclosed_hit opensNonempty here, dropEnclosed_hit opensNonempty found,
            ih _ less rest rfl]
      · have miss : (dropWord opens (x :: xs)).bind (after closes) = none := by
          rw [dropWord_inert opensNonempty opensPlain inert]
          rfl
        rw [dropEnclosed_inert opensNonempty opensPlain all, dropEnclosed_miss miss,
          ih _ shorter xs rfl, List.flatMap_cons]

end Enclosed

/-! ### Line comments -/

theorem opensLine_inert {y : τ} (inert : Inert y) : opensLine (some y) = true := by
  rw [opensLine, Option.all_some, inert.plain ':' (by decide), inert.plain '\\' (by decide)]
  rfl

theorem opensLine_congr {x : σ} {y : τ} (same : char? y = char? x) :
    opensLine (some y) = opensLine (some x) := by
  rw [opensLine, opensLine, Option.all_some, Option.all_some, is_congr same, is_congr same]

theorem dropLineFrom_true_inert {ys : List τ} (inert : ∀ y ∈ ys, Inert y) (before : Option τ)
    (xs : List τ) : dropLineFrom true before (ys ++ xs) = dropLineFrom true before xs := by
  induction ys with
  | nil => rfl
  | cons y ys ih =>
    rw [List.cons_append, dropLineFrom, (inert y (by simp)).plain '\n' (by decide),
      if_neg Bool.false_ne_true, ih fun y' mem => inert y' (List.mem_cons_of_mem y mem)]

/-- After glyphs that no pass looks for, two slashes open a comment. -/
theorem dropLineFrom_false_inert {y : τ} {ys : List τ} (inert : ∀ y' ∈ y :: ys, Inert y')
    (before : Option τ) (xs : List τ) :
    ∃ b, opensLine b = true ∧
      dropLineFrom false before (y :: ys ++ xs) = y :: ys ++ dropLineFrom false b xs := by
  have here := inert y List.mem_cons_self
  induction ys generalizing y before with
  | nil =>
    refine ⟨some y, opensLine_inert here, ?_⟩
    rw [List.singleton_append, dropLineFrom, here.plain '/' (by decide), Bool.false_and,
      Bool.false_and, if_neg Bool.false_ne_true, List.singleton_append]
  | cons y' ys ih =>
    have rest : ∀ z ∈ y' :: ys, Inert z := fun z mem => inert z (List.mem_cons_of_mem y mem)
    obtain ⟨b, opens, same⟩ := ih rest (some y) (rest y' List.mem_cons_self)
    refine ⟨b, opens, ?_⟩
    rw [List.cons_append, dropLineFrom, here.plain '/' (by decide), Bool.false_and,
      Bool.false_and, if_neg Bool.false_ne_true, same]
    rfl

theorem head?_any_expand (h : Expansion e) {c : Char} (plain : c ∈ special) (xs : List σ) :
    (xs.flatMap e).head?.any (is c) = xs.head?.any (is c) := by
  cases xs with
  | nil => rfl
  | cons x xs =>
    rw [List.flatMap_cons]
    rcases h.glyph x with ⟨y, written, same⟩ | ⟨inert, nonempty, all⟩
    · rw [written]
      exact is_congr same c
    · obtain ⟨y, ys, written⟩ := List.exists_cons_of_ne_nil nonempty
      rw [written] at all ⊢
      exact ((all y (by simp)).plain c plain).trans (inert.plain c plain).symm

theorem dropLineFrom_expand (h : Expansion e) (inside : Bool) (before : Option σ)
    (before' : Option τ) (same : opensLine before' = opensLine before) (xs : List σ) :
    dropLineFrom inside before' (xs.flatMap e) = (dropLineFrom inside before xs).flatMap e := by
  induction xs generalizing inside before before' with
  | nil => cases inside <;> rfl
  | cons x xs ih =>
    rw [List.flatMap_cons]
    rcases h.glyph x with ⟨y, written, glyph⟩ | ⟨inert, nonempty, all⟩
    · have onward := ih false (some x) (some y) (opensLine_congr glyph)
      rw [written, List.singleton_append]
      cases inside with
      | true =>
        rw [dropLineFrom, dropLineFrom, is_congr glyph, onward, ih true before before' same]
        split
        · rw [List.flatMap_cons, written, List.singleton_append]
        · rfl
      | false =>
        rw [dropLineFrom, dropLineFrom, is_congr glyph, head?_any_expand h (by decide), same,
          onward, ih true before before' same]
        split
        · rfl
        · rw [List.flatMap_cons, written, List.singleton_append]
    · cases inside with
      | true =>
        rw [dropLineFrom_true_inert all, dropLineFrom, inert.plain '\n' (by decide),
          if_neg Bool.false_ne_true, ih true before before' same]
      | false =>
        obtain ⟨y, ys, written⟩ := List.exists_cons_of_ne_nil nonempty
        rw [written] at all
        obtain ⟨b, opens, passed⟩ := dropLineFrom_false_inert all before' (xs.flatMap e)
        rw [written, passed, dropLineFrom, inert.plain '/' (by decide), Bool.false_and,
          Bool.false_and, if_neg Bool.false_ne_true, List.flatMap_cons, written,
          ih false (some x) b (opens.trans (opensLine_inert inert).symm)]

theorem dropComments_expand (h : Expansion e) (xs : List σ) :
    dropComments (xs.flatMap e) = (dropComments xs).flatMap e := by
  rw [dropComments, dropComments,
    dropEnclosed_expand h (by decide) (by decide) (by decide) (by decide),
    dropEnclosed_expand h (by decide) (by decide) (by decide) (by decide), dropLineComments,
    dropLineComments, dropLineFrom_expand h false none none rfl]

/-! ### Blanks -/

/-- What becomes of a glyph and the gap before it. -/
def expandMark (e : σ → List τ) (m : Bool × σ) : List (Bool × τ) :=
  match e m.2 with
  | [] => []
  | y :: ys => (m.1, y) :: ys.map (false, ·)

omit [Glyph σ] [Glyph τ] in
theorem expandMark_cons {x : σ} {y : τ} {ys : List τ} (written : e x = y :: ys) (gap : Bool) :
    expandMark e (gap, x) = (gap, y) :: ys.map (false, ·) := by rw [expandMark, written]

theorem spots_inert {ys : List τ} (inert : ∀ y ∈ ys, Inert y) (xs : List τ) :
    spots false (ys ++ xs) = ys.map (false, ·) ++ spots false xs := by
  induction ys with
  | nil => rfl
  | cons y ys ih =>
    rw [List.cons_append, spots, (inert y (by simp)).visible, if_neg Bool.false_ne_true,
      ih fun y' mem => inert y' (List.mem_cons_of_mem y mem)]
    rfl

theorem spots_expand (h : Expansion e) (gap : Bool) (xs : List σ) :
    spots gap (xs.flatMap e) = (spots gap xs).flatMap (expandMark e) := by
  induction xs generalizing gap with
  | nil => rfl
  | cons x xs ih =>
    rw [List.flatMap_cons]
    rcases h.glyph x with ⟨y, written, same⟩ | ⟨inert, nonempty, all⟩
    · rw [written, List.singleton_append, spots, spots, isBlank_congr same, ih, ih]
      split
      · rfl
      · rw [List.flatMap_cons, expandMark_cons written]
        rfl
    · obtain ⟨y, ys, written⟩ := List.exists_cons_of_ne_nil nonempty
      rw [written] at all ⊢
      rw [List.cons_append, spots, (all y (by simp)).visible, if_neg Bool.false_ne_true,
        spots_inert fun y' mem => all y' (List.mem_cons_of_mem y mem), ih, spots, inert.visible,
        if_neg Bool.false_ne_true, List.flatMap_cons, expandMark_cons written]
      rfl

theorem layout_map_false (ys : List τ) : layout (ys.map (false, ·)) = ys := by
  induction ys with
  | nil => rfl
  | cons y ys ih =>
    rw [List.map_cons, layout, ih]
    rfl

theorem layout_expand (h : Expansion e) (marks : List (Bool × σ)) :
    layout (marks.flatMap (expandMark e)) = (layout marks).flatMap e := by
  induction marks with
  | nil => rfl
  | cons m rest ih =>
    obtain ⟨gap, x⟩ := m
    have nonempty : e x ≠ [] := by
      rcases h.glyph x with ⟨y, written, _⟩ | ⟨_, nonempty, _⟩
      · rw [written]
        exact List.cons_ne_nil y []
      · exact nonempty
    obtain ⟨y, ys, written⟩ := List.exists_cons_of_ne_nil nonempty
    rw [List.flatMap_cons, layout_append, ih, expandMark_cons written, layout, layout_map_false,
      layout, List.flatMap_append]
    cases gap with
    | false => simp [written]
    | true => simp [written, h.space]

theorem closes_expand (h : Expansion e) (marks : List (Bool × σ)) :
    (marks.flatMap (expandMark e)).head?.any (fun y => !y.1 && is '>' y.2)
      = marks.head?.any fun y => !y.1 && is '>' y.2 := by
  cases marks with
  | nil => rfl
  | cons m rest =>
    obtain ⟨gap, x⟩ := m
    rw [List.flatMap_cons]
    rcases h.glyph x with ⟨y, written, same⟩ | ⟨inert, nonempty, all⟩
    · rw [expandMark_cons written]
      exact congrArg (!gap && ·) (is_congr same '>')
    · obtain ⟨y, ys, written⟩ := List.exists_cons_of_ne_nil nonempty
      rw [written] at all
      rw [expandMark_cons written]
      exact congrArg (!gap && ·)
        (((all y (by simp)).plain '>' (by decide)).trans (inert.plain '>' (by decide)).symm)

theorem needed_map_false (before : Option τ) (ys : List τ) (marks : List (Bool × τ)) :
    needed before (ys.map (false, ·) ++ marks)
      = ys.map (false, ·) ++ needed (ys.getLast?.or before) marks := by
  induction ys generalizing before with
  | nil => rfl
  | cons y ys ih =>
    rw [List.map_cons, List.cons_append, needed, Bool.false_and, ih, List.cons_append,
      List.getLast?_cons]
    cases ys.getLast? <;> rfl

theorem keepsGap_inert {y : τ} (inert : Inert y) (b : τ) (marks : List (Bool × τ)) :
    keepsGap b y marks = true := by
  rw [keepsGap, inert.plain '<' (by decide), inert.plain '/' (by decide), Bool.and_false,
    Bool.false_and]
  rfl

theorem keepsGap_expand (h : Expansion e) {b x : σ} {b' y : τ} (before : is '>' b' = is '>' b)
    (same : char? y = char? x) (marks : List (Bool × σ)) :
    keepsGap b' y (marks.flatMap (expandMark e)) = keepsGap b x marks := by
  rw [keepsGap, keepsGap, before, is_congr same, is_congr same, closes_expand h]

theorem needed_expand (h : Expansion e) (before : Option σ) (before' : Option τ)
    (same : before'.map (is '>') = before.map (is '>')) (marks : List (Bool × σ)) :
    needed before' (marks.flatMap (expandMark e))
      = (needed before marks).flatMap (expandMark e) := by
  induction marks generalizing before before' with
  | nil => rfl
  | cons m rest ih =>
    obtain ⟨gap, x⟩ := m
    rw [List.flatMap_cons, needed, List.flatMap_cons]
    rcases h.glyph x with ⟨y, written, glyph⟩ | ⟨inert, nonempty, all⟩
    · have gaps : (before'.any fun b => keepsGap b y (rest.flatMap (expandMark e)))
          = before.any fun b => keepsGap b x rest := by
        cases before <;> cases before' <;> try cases same
        · rfl
        · exact keepsGap_expand h (Option.some.inj same) glyph rest
      have onward := ih (some x) (some y) (congrArg some (is_congr glyph '>'))
      rw [expandMark_cons written, expandMark_cons written, List.map_nil, List.singleton_append,
        needed, gaps, onward, List.singleton_append]
    · obtain ⟨y, ys, written⟩ := List.exists_cons_of_ne_nil nonempty
      rw [written] at all
      have gaps (marks : List (Bool × τ)) : (before'.any fun b => keepsGap b y marks)
          = before.any fun b => keepsGap b x rest := by
        cases before <;> cases before' <;> try cases same
        · rfl
        · exact (keepsGap_inert (all y (by simp)) _ _).trans (keepsGap_inert inert _ _).symm
      have last : (ys.getLast?.or (some y)).map (is '>') = some (is '>' x) := by
        obtain ⟨z, mem, found⟩ : ∃ z ∈ y :: ys, ys.getLast?.or (some y) = some z := by
          cases found : ys.getLast? with
          | none => exact ⟨y, by simp, rfl⟩
          | some z => exact ⟨z, List.mem_cons_of_mem y (List.mem_of_getLast? found), rfl⟩
        rw [found, inert.plain '>' (by decide), Option.map_some,
          (all z mem).plain '>' (by decide)]
      have onward := ih (some x) (ys.getLast?.or (some y)) last
      rw [expandMark_cons written, expandMark_cons written, List.cons_append, needed, gaps,
        needed_map_false, onward]
      rfl

theorem tighten_expand (h : Expansion e) (xs : List σ) :
    tighten (xs.flatMap e) = (tighten xs).flatMap e := by
  rw [tighten, tighten, spots_expand h, needed_expand h none none rfl, layout_expand h]

theorem compacted_expand (h : Expansion e) (xs : List σ) :
    compacted (xs.flatMap e) = (compacted xs).flatMap e := by
  rw [compacted, dropComments_expand h, tighten_expand h, compacted]

end Glyph

end PageTree.Compaction
