/-
  PageTree/Proofs/Callback/Braces.lean
  ====================================
  **Braces in the body of a recovered arrow function.**

  What stands behind the arrow is a block, whose braces are taken off, or an
  expression, which is followed by a bare return.  Which of the two it is, is decided by
  its first character and by whether it mentions `return`, and then a brace at the front
  and a brace at the end are dropped, each on its own account.  If the text has its
  braces in pairs, so has the body, unless a brace is dropped without its partner: the
  expression ends in a block of its own, or something follows the block.

  What trimming and cutting drop are blanks, commas and semicolons.  So whether braces
  stand in pairs can be read off the braces alone.

    * `balanced_congr`: texts with the same brackets;
    * `balanced_dropBraces_iff`: dropping the braces at the ends;
    * `balanced_body_iff`: the body of an arrow function, and the function printed.
-/
import PageTree.Proofs.Callback.Shapes

namespace PageTree.Callback

open PageTree.Text

/-! ### Texts with the same brackets -/

section

variable {opens closes : Char} {keeps : Char → Bool}

/-- Whether brackets stand in pairs does not depend on other characters. -/
theorem balanced_filter_iff (opening : keeps opens = true) (closing : keeps closes = true)
    {s : List Char} : Balanced opens closes (s.filter keeps) ↔ Balanced opens closes s := by
  constructor
  · intro h
    constructor
    · intro t within
      have opened := h.opened _ (within.filter keeps)
      rwa [List.count_filter closing, List.count_filter opening] at opened
    · have closed := h.closed
      rwa [List.count_filter closing, List.count_filter opening] at closed
  · intro h
    constructor
    · intro t within
      obtain ⟨u, before, rfl⟩ := List.prefix_filter_iff.1 within
      rw [List.count_filter closing, List.count_filter opening]
      exact h.opened u before
    · rw [List.count_filter closing, List.count_filter opening]
      exact h.closed

theorem balanced_congr (opening : keeps opens = true) (closing : keeps closes = true)
    {s t : List Char} (same : s.filter keeps = t.filter keeps) :
    Balanced opens closes s ↔ Balanced opens closes t := by
  rw [← balanced_filter_iff opening closing, same, balanced_filter_iff opening closing]

end

theorem Balanced.append {opens closes : Char} {s t : List Char} (first : Balanced opens closes s)
    (second : Balanced opens closes t) : Balanced opens closes (s ++ t) := by
  constructor
  · intro u within
    rcases List.prefix_or_prefix_of_prefix within (List.prefix_append s t) with shorter | longer
    · exact first.opened u shorter
    · obtain ⟨v, rfl⟩ := longer
      have opened := second.opened v ((List.prefix_append_right_inj s).1 within)
      have closed := first.closed
      simp only [List.count_append]
      omega
  · rw [List.count_append, List.count_append, first.closed, second.closed]

def isBrace (c : Char) : Bool := c == '\x7b' || c == '\x7d'

/-- Every brace of the text is closed after it was opened, and none is closed that was
    not. -/
abbrev BracesPaired (s : List Char) : Prop := Balanced '\x7b' '\x7d' s

theorem bracesPaired_congr {s t : List Char} (same : s.filter isBrace = t.filter isBrace) :
    BracesPaired s ↔ BracesPaired t :=
  balanced_congr rfl rfl same

/-- A pair of braces around a text is one more pair. -/
theorem BracesPaired.blockText {s : List Char} (h : BracesPaired s) :
    BracesPaired (blockText s) := by
  constructor
  · intro t within
    rw [Callback.blockText, List.cons_append] at within
    rcases List.prefix_cons_iff.1 within with rfl | ⟨u, rfl, inside⟩
    · exact le_rfl
    · rw [List.count_cons_of_ne (by decide), List.count_cons_self]
      rcases List.prefix_concat_iff.1 inside with rfl | before
      · simp [List.count_append, h.closed]
      · exact (h.opened u before).trans (Nat.le_succ _)
  · simp [Callback.blockText, List.count_append, h.closed]

/-! ### Braces at the ends -/

/-- The text is one block: the brace at its front is closed by the one at its end. -/
def IsOneBlock (s : List Char) : Prop := ∃ inner, BracesPaired inner ∧ s = blockText inner

theorem isOneBlock_blockText_iff {inner : List Char} :
    IsOneBlock (blockText inner) ↔ BracesPaired inner := by
  constructor
  · rintro ⟨other, paired, same⟩
    obtain rfl : inner = other :=
      List.append_cancel_right (List.cons.inj same).2
    exact paired
  · intro paired
    exact ⟨inner, paired, rfl⟩

/-- One brace less than there were is not in pairs. -/
theorem BracesPaired.not_dropLast {s : List Char} (paired : BracesPaired (s ++ ['\x7d'])) :
    ¬ BracesPaired s := by
  intro without
  have closed := paired.closed
  have closed' := without.closed
  simp [List.count_append] at closed
  omega

theorem BracesPaired.not_tail {s : List Char} (paired : BracesPaired ('\x7b' :: s)) :
    ¬ BracesPaired s := by
  intro without
  have closed := paired.closed
  have closed' := without.closed
  simp at closed
  omega

/-- **Dropping the braces at the ends** leaves pairs if and only if the text has none
    there, or these are a pair. -/
theorem balanced_dropBraces_iff {s : List Char} (paired : BracesPaired s) :
    BracesPaired (dropBraces s) ↔
      (s.head? = some '\x7b' ∨ s.getLast? = some '\x7d' → IsOneBlock s) := by
  cases s with
  | nil => simp [dropBraces, dropWord, paired]
  | cons c cs =>
    by_cases front : c = '\x7b'
    · subst front
      have opened : dropWord ['\x7b'] ('\x7b' :: cs) = some cs := rfl
      rw [dropBraces, opened, Option.getD_some]
      by_cases last : cs.getLast? = some '\x7d'
      · obtain ⟨inner, rfl⟩ := List.getLast?_eq_some_iff.1 last
        have block : '\x7b' :: (inner ++ ['\x7d']) = blockText inner := rfl
        rw [block, isOneBlock_blockText_iff, getLast?_blockText]
        simp
      · have other : ¬ IsOneBlock ('\x7b' :: cs) := by
          rintro ⟨inner, -, same⟩
          exact last (List.getLast?_eq_some_iff.2 ⟨inner, (List.cons.inj same).2⟩)
        simp [last, other, paired.not_tail]
    · have unopened : dropWord ['\x7b'] (c :: cs) = none := by
        simp [dropWord, Ne.symm front]
      have other : ¬ IsOneBlock (c :: cs) := by
        rintro ⟨inner, -, same⟩
        exact front (List.cons.inj same).1
      rw [dropBraces, unopened, Option.getD_none]
      by_cases last : (c :: cs).getLast? = some '\x7d'
      · obtain ⟨inner, spelled⟩ := List.getLast?_eq_some_iff.1 last
        rw [spelled] at paired other ⊢
        simp [other, paired.not_dropLast]
      · simp [last, front, paired]

/-! ### What is dropped besides -/

theorem isBrace_of_isBlank (c : Char) (blank : isBlank c = true) : isBrace c = false := by
  simp only [isBrace, Bool.or_eq_false_iff, beq_eq_false_iff_ne]
  constructor <;> rintro rfl <;> exact absurd blank (by decide)

theorem isBrace_of_eq_semicolon (c : Char) (same : (c == ';') = true) : isBrace c = false := by
  rw [beq_iff_eq.1 same]
  rfl

theorem filter_dropTerminator (s : List Char) :
    (dropTerminator s).filter isBrace = s.filter isBrace := by
  have blanks (t : List Char) : (trimEnd t).filter isBrace = t.filter isBrace :=
    filter_dropTrailing isBrace_of_isBlank t
  rw [dropTerminator]
  split
  · next last =>
    obtain ⟨t, spelled⟩ := List.getLast?_eq_some_iff.1 last
    rw [← blanks s, spelled, List.dropLast_concat, blanks, List.filter_append]
    exact (List.append_nil _).symm
  · exact blanks s

theorem bracesPaired_trim_iff {s : List Char} : BracesPaired (trim s) ↔ BracesPaired s :=
  bracesPaired_congr (filter_trim isBrace_of_isBlank s)

/-! ### Finishing -/

/-- An expression and a bare return. -/
def returning (s : List Char) : List Char := dropTrailing (· == ';') s ++ ";\nreturn;".toList

theorem bracesPaired_returning_iff {s : List Char} :
    BracesPaired (returning s) ↔ BracesPaired s := by
  refine bracesPaired_congr ?_
  rw [returning, List.filter_append, filter_dropTrailing isBrace_of_eq_semicolon]
  exact List.append_nil _

theorem head?_returning {s : List Char} (front : s.head? ≠ some '\x7b') :
    (returning s).head? ≠ some '\x7b' := by
  have before := dropTrailing_prefix (· == ';') s
  rw [returning]
  cases kept : dropTrailing (· == ';') s with
  | nil => decide
  | cons d ds =>
    rw [kept] at before
    obtain ⟨rest, rfl⟩ := before
    exact front

theorem getLast?_returning (s : List Char) : (returning s).getLast? ≠ some '\x7d' := by
  have last : ";\nreturn;".toList.getLast? = some ';' := rfl
  rw [returning, List.getLast?_append_of_ne_nil _ (by decide), last]
  decide

/-- The text that is left when a body is finished, without the blanks at its ends: it
    loses the braces there unless it is an expression. -/
theorem bracesPaired_finishBody_iff {raw : List Char} (paired : BracesPaired raw) :
    BracesPaired (finishBody raw) ↔
      ((trim raw).head? = some '\x7b' ∨
        mentionsReturn (trim raw) = true ∧ (trim raw).getLast? = some '\x7d' →
        IsOneBlock (trim raw)) := by
  have trimmed : BracesPaired (trim raw) := bracesPaired_trim_iff.2 paired
  rw [finishBody]
  generalize trim raw = body at trimmed ⊢
  cases body with
  | nil => simpa using trimmed
  | cons c cs =>
    have nonempty : (c :: cs).isEmpty = false := rfl
    simp only [nonempty, Bool.false_eq_true, if_false]
    rw [bracesPaired_trim_iff]
    split
    · next expression =>
      obtain ⟨front, unmentioned⟩ : (c :: cs).head? ≠ some '\x7b' ∧
          mentionsReturn (c :: cs) = false := by
        simpa using expression
      have whole : BracesPaired (dropBraces (returning (c :: cs))) := by
        rw [balanced_dropBraces_iff (bracesPaired_returning_iff.2 trimmed)]
        rintro (opened | closed)
        · exact absurd opened (head?_returning front)
        · exact absurd closed (getLast?_returning _)
      refine iff_of_true whole ?_
      rintro (opened | ⟨mentioned, -⟩)
      · exact absurd opened front
      · rw [unmentioned] at mentioned
        cases mentioned
    · next kept =>
      have statements : (c :: cs).head? ≠ some '\x7b' → mentionsReturn (c :: cs) = true := by
        simpa using kept
      rw [balanced_dropBraces_iff trimmed]
      constructor
      · rintro pair (opened | ⟨-, closed⟩)
        · exact pair (.inl opened)
        · exact pair (.inr closed)
      · rintro pair (opened | closed)
        · exact pair (.inl opened)
        · by_cases front : (c :: cs).head? = some '\x7b'
          · exact pair (.inl front)
          · exact pair (.inr ⟨statements front, closed⟩)

/-! ### Arrow functions -/

/-- What stands behind an arrow, without the blanks at its ends and one semicolon. -/
def behindArrow (e : List Char) : List Char := trim (dropTerminator (trimStart e))

theorem shapeOf_arrow {params : List Char} (single : ')' ∉ params) (e : List Char) :
    shapeOf ('(' :: (params ++ ')' :: (" => ".toList ++ e)))
      = (params, dropTerminator (trimStart e)) := by
  have start : trimStart ('(' :: (params ++ ')' :: (" => ".toList ++ e)))
      = '(' :: (params ++ ')' :: (" => ".toList ++ e)) := trimStart_of_visible (by decide) _
  have plain : dropAsync ('(' :: (params ++ ')' :: (" => ".toList ++ e))) = none := rfl
  have arrow : dropWord "=>".toList (trimStart (" => ".toList ++ e)) = some (' ' :: e) := rfl
  have next : trimStart (' ' :: e) = trimStart e := rfl
  have found : arrowTail ('(' :: (params ++ ')' :: (" => ".toList ++ e)))
      = some (params, dropTerminator (trimStart e)) := by
    rw [arrowTail, takeParens, cutAt_singleton single]
    simp only [Option.some_or, Option.bind_eq_bind, Option.bind_some, arrow, next]
    rfl
  rw [shapeOf, arrow?, start, plain]
  simp only [Option.bind_none, Option.none_or, found, Option.some_or, Option.getD_some]

/-! ### Parameters keep their braces -/

theorem filter_splitAtCommas {keeps : Char → Bool} (comma : keeps ',' = false) (depth : Nat)
    (current s : List Char) :
    (splitAtCommas depth current s).flatten.filter keeps = (current.reverse ++ s).filter keeps := by
  induction s generalizing depth current with
  | nil => simp [splitAtCommas]
  | cons c cs ih =>
    rw [splitAtCommas]
    split_ifs with opening closing cut
    · simp [ih]
    · simp [ih]
    · obtain ⟨rfl, -⟩ : c = ',' ∧ depth = 0 := by simpa using cut
      simp [ih, comma]
    · simp [ih]

theorem filter_intercalate_comma {keeps : Char → Bool} (comma : keeps ',' = false)
    (ps : List (List Char)) :
    (List.intercalate [','] ps).filter keeps = ps.flatten.filter keeps := by
  induction ps with
  | nil => rfl
  | cons p ps ih =>
    cases ps with
    | nil => simp
    | cons q qs => rw [List.intercalate_cons_cons, List.filter_append, ih]; simp [comma]

theorem filter_splitParams (s : List Char) :
    (splitParams s).flatten.filter isBrace = s.filter isBrace := by
  have trimmed (ps : List (List Char)) :
      (ps.map trim).flatten.filter isBrace = ps.flatten.filter isBrace := by
    rw [List.filter_flatten, List.filter_flatten, List.map_map]
    congr 1
    exact List.map_congr_left fun p _ => filter_trim isBrace_of_isBlank p
  have nonempty : ∀ ps : List (List Char), (ps.filter (!·.isEmpty)).flatten = ps.flatten :=
    fun ps => List.flatten_filter_not_isEmpty
  rw [splitParams, nonempty, trimmed, filter_splitAtCommas rfl]
  rfl

/-! ### The body and the whole function -/

theorem expression_braces {f : Callback} {s : List Char}
    (params : f.params = (splitParams s).map String.ofList) (plain : f.isAsync = false) :
    f.expression.toList.filter isBrace
      = (s ++ blockText f.body.toList).filter isBrace := by
  have comma : ",".toList = [','] := rfl
  have heading : "function(".toList.filter isBrace = [] := rfl
  have spelled : f.expression.toList
      = "function(".toList ++ (List.intercalate [','] (splitParams s)
        ++ (')' :: blockText f.body.toList)) := by
    simp [Callback.expression, params, plain, comma, blockText]
  rw [spelled, List.filter_append, heading, List.nil_append, List.filter_append,
    filter_intercalate_comma rfl, filter_splitParams, List.filter_append]
  rfl

/-- The source text of an arrow function. -/
def arrowSource (params e : String) : String := "(" ++ params ++ ") => " ++ e

/-- **Braces of an arrow function.**  If what stands behind the arrow has its braces in
    pairs, so has the body, unless a text that begins with a brace, or mentions `return`
    and ends in one, is not one block: then a brace is dropped without its partner.  With
    the body and the parameters, the function that is printed has its braces in pairs. -/
theorem balanced_body_iff {params e : String} (plain : '(' ∉ params.toList ∧ ')' ∉ params.toList)
    (paired : BracesPaired e.toList) :
    (BracesPaired (ofSource (arrowSource params e)).body.toList ↔
        ((behindArrow e.toList).head? = some '\x7b' ∨
          mentionsReturn (behindArrow e.toList) = true ∧
            (behindArrow e.toList).getLast? = some '\x7d' →
          IsOneBlock (behindArrow e.toList))) ∧
      (BracesPaired params.toList →
        BracesPaired (ofSource (arrowSource params e)).body.toList →
        BracesPaired (ofSource (arrowSource params e)).expression.toList) := by
  have spelled : (arrowSource params e).toList
      = '(' :: (params.toList ++ ')' :: (" => ".toList ++ e.toList)) := by
    simp [arrowSource]
  have recovered : ofSource (arrowSource params e)
      = { params := (splitParams params.toList).map String.ofList
          body := String.ofList (finishBody (dropTerminator (trimStart e.toList)))
          isAsync := false } := by
    rw [ofSource, spelled, shapeOf_arrow plain.2]
    rfl
  have raw : BracesPaired (dropTerminator (trimStart e.toList)) := by
    refine (bracesPaired_congr ?_).2 paired
    rw [filter_dropTerminator, filter_trimStart isBrace_of_isBlank]
  constructor
  · rw [recovered, String.toList_ofList]
    exact bracesPaired_finishBody_iff raw
  · intro parameters body
    generalize named : ofSource (arrowSource params e) = f at body ⊢
    have params : f.params = (splitParams params.toList).map String.ofList := by
      rw [← named, recovered]
    have sync : f.isAsync = false := by
      rw [← named, recovered]
    rw [bracesPaired_congr (expression_braces params sync)]
    exact parameters.append body.blockText

/-- A block with another one inside, and a semicolon after it. -/
def guardedBlock : String := "\x7bif (a) \x7breturn \x7b\x7d;\x7d\x7d ;"

theorem guardedBlock_stays_balanced :
    BracesPaired guardedBlock.toList ∧
      BracesPaired (ofSource (arrowSource "\x7ba\x7d, b" guardedBlock)).body.toList ∧
      BracesPaired (ofSource (arrowSource "\x7ba\x7d, b" guardedBlock)).expression.toList := by
  have paired : BracesPaired guardedBlock.toList := by decide +kernel
  have plain : '(' ∉ "\x7ba\x7d, b".toList ∧ ')' ∉ "\x7ba\x7d, b".toList := by decide
  obtain ⟨body, whole⟩ := balanced_body_iff plain paired
  have block : behindArrow guardedBlock.toList
      = blockText "if (a) \x7breturn \x7b\x7d;\x7d".toList := by
    decide +kernel
  have balanced := body.2 fun _ => by
    rw [block, isOneBlock_blockText_iff]
    decide +kernel
  exact ⟨paired, balanced, whole (by decide +kernel) balanced⟩

/-- An expression that ends in a block of its own loses the end of it, and a block that
    something follows loses its front. -/
theorem lone_braces_dropped :
    BracesPaired "function(y)\x7breturn y\x7d".toList ∧
      (ofSource (arrowSource "x" "function(y)\x7breturn y\x7d")).body
        = "function(y)\x7breturn y" ∧
      ¬ BracesPaired (ofSource (arrowSource "x" "function(y)\x7breturn y\x7d")).body.toList ∧
      BracesPaired "\x7bf(x);\x7d // done".toList ∧
      (ofSource (arrowSource "x" "\x7bf(x);\x7d // done")).body = "f(x);\x7d // done" ∧
      ¬ BracesPaired (ofSource (arrowSource "x" "\x7bf(x);\x7d // done")).body.toList := by
  decide +kernel

end PageTree.Callback
