/-
  PageTree/Proofs/Compaction/Glyphs.lean
  ======================================
  **Texts of glyphs without their comments and needless blanks.**

  The passes of compaction only ask which character stands at a place, if it is a
  character.  Here they are recursions over any kind of glyph, so that they can
  be carried out on texts whose literals have become single glyphs.

  The passes over blanks are taken together: a text is written down as its glyphs
  other than blanks, each with a mark that says whether there is a gap in front
  of it, and the marks of the gaps that are not needed are crossed out.

    * `not_hasComment_of_visible`: dropping comments leaves a text as it is, or loses
      more than blanks;
    * `shrinks_tighten`: tightening drops blanks, or writes them as a space, and
      does nothing else;
    * `tighten_idem`: tightened text is tight.
-/
import Mathlib
import PageTree.Text.Blank

namespace PageTree.Compaction

/-- What a text can consist of: characters, and other things that stand in one
    piece. -/
class Glyph (τ : Type) where
  char? : τ → Option Char
  ofChar : Char → τ
  char?_eq_some_iff : ∀ {x c}, char? x = some c ↔ x = ofChar c

instance : Glyph Char := ⟨some, id, by simp⟩

namespace Glyph

variable {τ : Type} [Glyph τ]

def is (c : Char) (x : τ) : Bool := char? x == some c

def isBlank (x : τ) : Bool := (char? x).any Text.isBlank

theorem is_iff {c : Char} {x : τ} : is c x = true ↔ x = ofChar c := by
  rw [is, beq_iff_eq, char?_eq_some_iff]

@[simp] theorem is_char (c x : Char) : is c x = (x == c) := rfl

@[simp] theorem isBlank_char (x : Char) : isBlank x = Text.isBlank x := rfl

/-! ### Enclosed comments -/

/-- Drops a word from the front, if it is there. -/
def dropWord : List Char → List τ → Option (List τ)
  | [], xs => some xs
  | _ :: _, [] => none
  | c :: cs, x :: xs => if is c x then dropWord cs xs else none

/-- What follows the first occurrence of a word. -/
def after (word : List Char) : List τ → Option (List τ)
  | [] => none
  | x :: xs => (dropWord word (x :: xs)).or (after word xs)

/-- Drops what stands between an opening mark and the next closing mark, marks
    included; the first `skip` glyphs still belong to what is being dropped. -/
def dropEnclosedFrom (opens closes : List Char) : Nat → List τ → List τ
  | _, [] => []
  | skip + 1, _ :: xs => dropEnclosedFrom opens closes skip xs
  | 0, x :: xs =>
    match (dropWord opens (x :: xs)).bind (after closes) with
    | some rest => dropEnclosedFrom opens closes (xs.length - rest.length) xs
    | none => x :: dropEnclosedFrom opens closes 0 xs

def dropEnclosed (opens closes : List Char) (xs : List τ) : List τ :=
  dropEnclosedFrom opens closes 0 xs

theorem dropEnclosedFrom_eq (opens closes : List Char) (n : Nat) (xs : List τ) :
    dropEnclosedFrom opens closes n xs = dropEnclosed opens closes (xs.drop n) := by
  induction n generalizing xs with
  | zero => rfl
  | succ n ih =>
    cases xs with
    | nil => rfl
    | cons x xs => exact ih xs

theorem suffix_of_dropWord {word : List Char} {xs rest : List τ}
    (h : dropWord word xs = some rest) : rest <:+ xs ∧ rest.length + word.length = xs.length := by
  induction word generalizing xs with
  | nil =>
    obtain rfl := Option.some.inj h
    exact ⟨List.suffix_rfl, rfl⟩
  | cons c cs ih =>
    cases xs with
    | nil => cases h
    | cons x xs =>
      rw [dropWord] at h
      split at h
      · obtain ⟨suffix, length⟩ := ih h
        exact ⟨suffix.trans (List.suffix_cons x xs), by simp only [List.length_cons]; omega⟩
      · cases h

theorem suffix_of_after {word : List Char} {xs rest : List τ} (h : after word xs = some rest) :
    rest <:+ xs := by
  induction xs with
  | nil => cases h
  | cons x xs ih =>
    rcases Option.or_eq_some_iff.1 h with here | ⟨_, later⟩
    · exact (suffix_of_dropWord here).1
    · exact (ih later).trans (List.suffix_cons x xs)

/-- An opening mark that is closed later. -/
theorem suffix_of_opened {opens closes : List Char} (nonempty : opens ≠ []) {x : τ}
    {xs rest : List τ} (h : (dropWord opens (x :: xs)).bind (after closes) = some rest) :
    rest <:+ xs := by
  obtain ⟨inner, opened, closed⟩ := Option.bind_eq_some_iff.1 h
  obtain ⟨suffix, length⟩ := suffix_of_dropWord opened
  rcases List.suffix_cons_iff.1 suffix with same | suffix
  · have := List.length_pos_of_ne_nil nonempty
    rw [same] at length
    omega
  · exact (suffix_of_after closed).trans suffix

theorem dropEnclosed_hit {opens closes : List Char} (nonempty : opens ≠ []) {x : τ}
    {xs rest : List τ} (h : (dropWord opens (x :: xs)).bind (after closes) = some rest) :
    dropEnclosed opens closes (x :: xs) = dropEnclosed opens closes rest := by
  have suffix := suffix_of_opened nonempty h
  rw [dropEnclosed, dropEnclosedFrom, h]
  dsimp only
  rw [dropEnclosedFrom_eq, ← List.suffix_iff_eq_drop.1 suffix]

theorem dropEnclosed_miss {opens closes : List Char} {x : τ} {xs : List τ}
    (h : (dropWord opens (x :: xs)).bind (after closes) = none) :
    dropEnclosed opens closes (x :: xs) = x :: dropEnclosed opens closes xs := by
  rw [dropEnclosed, dropEnclosedFrom, h]
  rfl

/-! ### Comments up to the end of a line -/

/-- Whether two slashes open a comment after this glyph. -/
def opensLine (before : Option τ) : Bool := before.all fun x => !(is ':' x || is '\\' x)

/-- Drops comments up to the end of a line, given whether the text is inside one
    and what stands before it. -/
def dropLineFrom : Bool → Option τ → List τ → List τ
  | _, _, [] => []
  | true, before, x :: xs =>
    if is '\n' x then x :: dropLineFrom false (some x) xs else dropLineFrom true before xs
  | false, before, x :: xs =>
    if is '/' x && xs.head?.any (is '/') && opensLine before then dropLineFrom true before xs
    else x :: dropLineFrom false (some x) xs

def dropLineComments (xs : List τ) : List τ := dropLineFrom false none xs

/-- Inside a comment the text goes on at the end of the line. -/
theorem dropLineFrom_true (b b' : Option τ) (xs : List τ) :
    dropLineFrom true b xs = dropLineFrom false b' (xs.dropWhile fun x => !is '\n' x) := by
  induction xs with
  | nil => rfl
  | cons x xs ih =>
    rw [dropLineFrom, List.dropWhile_cons]
    by_cases newline : is '\n' x = true
    · have noSlash : is '/' x = false := by
        simp only [is, beq_iff_eq, beq_eq_false_iff_ne] at newline ⊢
        simp [newline]
      simp [newline, dropLineFrom, noSlash]
    · simpa [newline] using ih

/-! ### Blanks -/

/-- The glyphs other than blanks, each with a mark whether there is a gap before
    it; `gap` says whether there is one before the text. -/
def spots (gap : Bool) : List τ → List (Bool × τ)
  | [] => []
  | x :: xs => if isBlank x then spots true xs else (gap, x) :: spots false xs

/-- Writes glyphs with one blank for every gap. -/
def layout : List (Bool × τ) → List τ
  | [] => []
  | (gap, x) :: rest => (if gap then [ofChar ' ', x] else [x]) ++ layout rest

theorem layout_append (marks marks' : List (Bool × τ)) :
    layout (marks ++ marks') = layout marks ++ layout marks' := by
  induction marks with
  | nil => rfl
  | cons m rest ih => simp only [List.cons_append, layout, ih, List.append_assoc]

/-- Whether a gap between two glyphs is kept, given what follows them: not
    between tags and not before the end of a self-closed tag. -/
def keepsGap (before x : τ) (rest : List (Bool × τ)) : Bool :=
  !(is '>' before && is '<' x) && !(is '/' x && rest.head?.any fun y => !y.1 && is '>' y.2)

/-- Crosses out the gaps that are not kept, given the glyph before the text; the
    gap at the start of a text is none. -/
def needed : Option τ → List (Bool × τ) → List (Bool × τ)
  | _, [] => []
  | before, (gap, x) :: rest =>
    (gap && before.any fun b => keepsGap b x rest, x) :: needed (some x) rest

/-- Drops blanks that are not needed and makes one blank of those that are. -/
def tighten (xs : List τ) : List τ := layout (needed none (spots false xs))

/-- Drops the comments of a text. -/
def dropComments (xs : List τ) : List τ :=
  dropLineComments
    (dropEnclosed "/*".toList "*/".toList (dropEnclosed "<!--".toList "-->".toList xs))

/-! ### Words among glyphs -/

/-- A word as glyphs. -/
def chars (word : List Char) : List τ := word.map ofChar

theorem dropWord_eq_some_iff {word : List Char} {xs rest : List τ} :
    dropWord word xs = some rest ↔ xs = chars word ++ rest := by
  induction word generalizing xs with
  | nil => simp [dropWord, chars]
  | cons c cs ih =>
    cases xs with
    | nil => simp [dropWord, chars]
    | cons x xs =>
      rw [dropWord]
      split
      · next here =>
        rw [ih, is_iff.1 here, chars, chars, List.map_cons, List.cons_append, List.cons.injEq]
        exact (and_iff_right rfl).symm
      · next other =>
        refine ⟨nofun, fun same => absurd (is_iff.2 ?_) other⟩
        exact (List.cons.inj same).1

theorem exists_of_after {word : List Char} {xs rest : List τ} (h : after word xs = some rest) :
    ∃ front, xs = front ++ chars word ++ rest := by
  induction xs with
  | nil => cases h
  | cons x xs ih =>
    rcases Option.or_eq_some_iff.1 h with here | ⟨_, later⟩
    · exact ⟨[], dropWord_eq_some_iff.1 here⟩
    · obtain ⟨front, rfl⟩ := ih later
      exact ⟨x :: front, rfl⟩

/-- What follows a word that occurs nowhere before. -/
theorem after_eq_some {word : List Char} (nonempty : word ≠ []) {front rest : List τ}
    (first : ∀ a b, front ++ chars word ++ rest = a ++ chars word ++ b → front.length ≤ a.length) :
    after word (front ++ chars word ++ rest) = some rest := by
  induction front with
  | nil =>
    obtain ⟨c, cs, rfl⟩ := List.exists_cons_of_ne_nil nonempty
    have here : dropWord (c :: cs) (chars (c :: cs) ++ rest) = some rest :=
      dropWord_eq_some_iff.2 rfl
    exact Option.or_eq_some_iff.2 (.inl here)
  | cons x front ih =>
    have notHere : dropWord word (x :: front ++ chars word ++ rest) = none := by
      refine Option.eq_none_iff_forall_ne_some.2 fun b here => ?_
      have := first [] b (dropWord_eq_some_iff.1 here)
      exact absurd this (Nat.not_succ_le_zero _)
    refine Option.or_eq_some_iff.2 (.inr ⟨notHere, ih fun a b same => ?_⟩)
    have := first (x :: a) b (congrArg (x :: ·) same)
    exact Nat.le_of_succ_le_succ this

theorem after_ne_none {word : List Char} (nonempty : word ≠ []) (front rest : List τ) :
    after word (front ++ chars word ++ rest) ≠ none := by
  induction front with
  | nil =>
    obtain ⟨c, cs, rfl⟩ := List.exists_cons_of_ne_nil nonempty
    have here : dropWord (c :: cs) (chars (c :: cs) ++ rest) = some rest :=
      dropWord_eq_some_iff.2 rfl
    exact fun none => Option.some_ne_none rest (here ▸ (Option.or_eq_none_iff.1 none).1)
  | cons x front ih => exact fun none => ih (Option.or_eq_none_iff.1 none).2

/-! ### Texts without comments -/

/-- Somewhere an opening mark is followed by a closing mark. -/
def Encloses (opens closes : List Char) (xs : List τ) : Prop :=
  ∃ front inner rest, xs = front ++ chars opens ++ (inner ++ chars closes ++ rest)

/-- Somewhere two slashes open a comment. -/
def HasLineComment (before : Option τ) (xs : List τ) : Prop :=
  ∃ front rest, xs = front ++ chars ['/', '/'] ++ rest ∧
    opensLine (front.getLast?.or before) = true

/-- Somewhere stands a comment. -/
def HasComment (xs : List τ) : Prop :=
  Encloses "<!--".toList "-->".toList xs ∨ Encloses "/*".toList "*/".toList xs ∨
    HasLineComment none xs

/-- The glyphs other than blanks. -/
def visible (xs : List τ) : List τ := xs.filter fun x => !isBlank x

theorem Encloses.cons {opens closes : List Char} {xs : List τ} (h : Encloses opens closes xs)
    (x : τ) : Encloses opens closes (x :: xs) := by
  obtain ⟨front, inner, rest, rfl⟩ := h
  exact ⟨x :: front, inner, rest, rfl⟩

theorem opened_of_not_encloses {opens closes : List Char} {xs : List τ}
    (h : ¬ Encloses opens closes xs) : (dropWord opens xs).bind (after closes) = none := by
  refine Option.eq_none_iff_forall_ne_some.2 fun rest hit => h ?_
  obtain ⟨inner, opened, closed⟩ := Option.bind_eq_some_iff.1 hit
  obtain ⟨front, split⟩ := exists_of_after closed
  exact ⟨[], front, rest, by rw [dropWord_eq_some_iff.1 opened, split]; rfl⟩

theorem dropEnclosed_of_not_encloses {opens closes : List Char} {xs : List τ}
    (h : ¬ Encloses opens closes xs) : dropEnclosed opens closes xs = xs := by
  induction xs with
  | nil => rfl
  | cons x xs ih =>
    rw [dropEnclosed_miss (opened_of_not_encloses h), ih fun tail => h (tail.cons x)]

theorem dropEnclosed_sublist (opens closes : List Char) (xs : List τ) :
    (dropEnclosed opens closes xs).Sublist xs := by
  suffices rest : ∀ n, (dropEnclosedFrom opens closes n xs).Sublist xs from rest 0
  induction xs with
  | nil => intro n; cases n <;> exact List.Sublist.refl []
  | cons x xs ih =>
    intro n
    cases n with
    | succ n => exact (ih n).cons x
    | zero =>
      rw [dropEnclosedFrom]
      split
      · exact (ih _).cons x
      · exact (ih 0).cons_cons x

theorem dropLineFrom_sublist (inside : Bool) (before : Option τ) (xs : List τ) :
    (dropLineFrom inside before xs).Sublist xs := by
  induction xs generalizing inside before with
  | nil => cases inside <;> exact List.Sublist.refl []
  | cons x xs ih =>
    cases inside with
    | true =>
      rw [dropLineFrom]
      split
      · exact (ih false (some x)).cons_cons x
      · exact (ih true before).cons x
    | false =>
      rw [dropLineFrom]
      split
      · exact (ih true before).cons x
      · exact (ih false (some x)).cons_cons x

theorem dropComments_sublist (xs : List τ) : (dropComments xs).Sublist xs :=
  (dropLineFrom_sublist false none _).trans
    ((dropEnclosed_sublist _ _ _).trans (dropEnclosed_sublist _ _ xs))

theorem visible_sublist {xs ys : List τ} (h : xs.Sublist ys) :
    (visible xs).Sublist (visible ys) := h.filter _

theorem visible_cons_of_is {c : Char} (plain : Text.isBlank c = false) {x : τ}
    (here : is c x = true) (xs : List τ) : visible (x :: xs) = x :: visible xs := by
  have seen : isBlank x = false := by
    rw [isBlank, char?_eq_some_iff.2 (is_iff.1 here)]
    exact plain
  rw [visible, List.filter_cons, seen]
  rfl

theorem not_sublist_of_is {c : Char} (plain : Text.isBlank c = false) {x : τ} (here : is c x = true)
    {xs ys : List τ} (h : ys.Sublist xs) : visible ys ≠ visible (x :: xs) := by
  intro same
  have shorter := (visible_sublist h).length_le
  rw [same, visible_cons_of_is plain here, List.length_cons] at shorter
  omega

theorem visible_tail {x : τ} {xs ys : List τ} (h : visible (x :: xs) = visible (x :: ys)) :
    visible xs = visible ys := by
  rw [visible, visible, List.filter_cons, List.filter_cons] at h
  split at h
  · exact (List.cons.inj h).2
  · exact h

/-- Dropping enclosed comments leaves a text as it is, or loses more than
    blanks. -/
theorem not_encloses_of_visible {c : Char} {cs closes : List Char} (plain : Text.isBlank c = false)
    (nonempty : closes ≠ []) {xs : List τ}
    (h : visible (dropEnclosed (c :: cs) closes xs) = visible xs) :
    ¬ Encloses (c :: cs) closes xs := by
  induction xs with
  | nil =>
    rintro ⟨front, inner, rest, split⟩
    simp [chars] at split
  | cons x xs ih =>
    cases found : (dropWord (c :: cs) (x :: xs)).bind (after closes) with
    | some rest =>
      rw [dropEnclosed_hit (List.cons_ne_nil c cs) found] at h
      have here : is c x = true := by
        obtain ⟨inner, opened, _⟩ := Option.bind_eq_some_iff.1 found
        rw [dropWord] at opened
        split at opened
        · assumption
        · cases opened
      have kept := (dropEnclosed_sublist (c :: cs) closes rest).trans
        (suffix_of_opened (List.cons_ne_nil c cs) found).sublist
      exact absurd h (not_sublist_of_is plain here kept)
    | none =>
      rw [dropEnclosed_miss found] at h
      rintro ⟨front, inner, rest, split⟩
      cases front with
      | nil =>
        have opened : dropWord (c :: cs) (x :: xs) = some (inner ++ chars closes ++ rest) :=
          dropWord_eq_some_iff.2 split
        rw [opened] at found
        exact after_ne_none nonempty inner rest found
      | cons y front => exact ih (visible_tail h) ⟨front, inner, rest, (List.cons.inj split).2⟩

theorem opensHere_iff {before : Option τ} {x : τ} {xs : List τ} :
    (is '/' x && xs.head?.any (is '/') && opensLine before) = true ↔
      (∃ rest, x :: xs = chars ['/', '/'] ++ rest) ∧ opensLine before = true := by
  rw [Bool.and_eq_true_iff, Bool.and_eq_true_iff]
  refine and_congr_left fun _ => ⟨?_, ?_⟩
  · rintro ⟨first, second⟩
    obtain ⟨y, head, slash⟩ := (Option.any_eq_true _ _).1 second
    obtain ⟨rest, rfl⟩ := List.head?_eq_some_iff.1 head
    exact ⟨rest, by rw [is_iff.1 first, is_iff.1 slash]; rfl⟩
  · rintro ⟨rest, split⟩
    obtain ⟨rfl, rfl⟩ := List.cons.inj split
    exact ⟨is_iff.2 rfl, is_iff.2 rfl⟩

theorem hasLineComment_cons {before : Option τ} {x : τ} {xs : List τ} :
    HasLineComment before (x :: xs) ↔
      (is '/' x && xs.head?.any (is '/') && opensLine before) = true ∨
        HasLineComment (some x) xs := by
  rw [opensHere_iff]
  constructor
  · rintro ⟨front, rest, split, opens⟩
    cases front with
    | nil => exact .inl ⟨⟨rest, split⟩, opens⟩
    | cons y front =>
      obtain ⟨rfl, rfl⟩ := List.cons.inj split
      refine .inr ⟨front, rest, rfl, ?_⟩
      rw [List.getLast?_cons] at opens
      cases last : front.getLast? <;> rw [last] at opens <;> exact opens
  · rintro (⟨⟨rest, split⟩, opens⟩ | ⟨front, rest, rfl, opens⟩)
    · exact ⟨[], rest, split, opens⟩
    · refine ⟨x :: front, rest, rfl, ?_⟩
      rw [List.getLast?_cons]
      cases last : front.getLast? <;> rw [last] at opens <;> exact opens

/-- Dropping line comments leaves a text as it is, or loses more than blanks. -/
theorem not_hasLineComment_of_visible {before : Option τ} {xs : List τ}
    (h : visible (dropLineFrom false before xs) = visible xs) : ¬ HasLineComment before xs := by
  induction xs generalizing before with
  | nil =>
    rintro ⟨front, rest, split, _⟩
    simp [chars] at split
  | cons x xs ih =>
    rw [hasLineComment_cons]
    rw [dropLineFrom] at h
    split at h
    · next opens =>
      have slash : is '/' x = true := (Bool.and_eq_true_iff.1 (Bool.and_eq_true_iff.1 opens).1).1
      exact absurd h (not_sublist_of_is (by decide) slash (dropLineFrom_sublist true before xs))
    · next closed => exact not_or.2 ⟨closed, ih (visible_tail h)⟩

theorem dropLineFrom_of_not_hasLineComment {before : Option τ} {xs : List τ}
    (h : ¬ HasLineComment before xs) : dropLineFrom false before xs = xs := by
  induction xs generalizing before with
  | nil => rfl
  | cons x xs ih =>
    obtain ⟨closed, tail⟩ := not_or.1 (hasLineComment_cons.not.1 h)
    rw [dropLineFrom, if_neg closed, ih tail]

/-- Dropping comments leaves a text as it is, or loses more than blanks. -/
theorem not_hasComment_of_visible {xs : List τ} (h : visible (dropComments xs) = visible xs) :
    ¬ HasComment xs := by
  have first := visible_sublist (dropEnclosed_sublist "<!--".toList "-->".toList xs)
  have second := visible_sublist (dropEnclosed_sublist "/*".toList "*/".toList
    (dropEnclosed "<!--".toList "-->".toList xs))
  have third := visible_sublist (dropLineFrom_sublist false none (dropEnclosed "/*".toList
    "*/".toList (dropEnclosed "<!--".toList "-->".toList xs)))
  have sameMarkup := first.antisymm (h ▸ third.trans second)
  have noMarkup : ¬ Encloses "<!--".toList "-->".toList xs :=
    not_encloses_of_visible (by decide) (by decide) sameMarkup
  have markup := dropEnclosed_of_not_encloses noMarkup
  rw [dropComments] at h
  rw [markup] at h second third
  have noBlock : ¬ Encloses "/*".toList "*/".toList xs :=
    not_encloses_of_visible (by decide) (by decide) (second.antisymm (h ▸ third))
  rw [dropEnclosed_of_not_encloses noBlock] at h
  have noLine : ¬ HasLineComment none xs := not_hasLineComment_of_visible h
  exact not_or.2 ⟨noMarkup, not_or.2 ⟨noBlock, noLine⟩⟩

theorem dropComments_of_not_hasComment {xs : List τ} (h : ¬ HasComment xs) :
    dropComments xs = xs := by
  obtain ⟨noMarkup, noScript⟩ := not_or.1 h
  obtain ⟨noBlock, noLine⟩ := not_or.1 noScript
  rw [dropComments, dropEnclosed_of_not_encloses noMarkup, dropEnclosed_of_not_encloses noBlock,
    dropLineComments, dropLineFrom_of_not_hasLineComment noLine]

/-! ### Tightening -/

/-- A text loses some of its blanks, and some others are written as a space. -/
inductive Shrinks : List τ → List τ → Prop where
  | nil : Shrinks [] []
  | keep (x : τ) {xs ys : List τ} : Shrinks xs ys → Shrinks (x :: xs) (x :: ys)
  | space {x : τ} {xs ys : List τ} : isBlank x = true → Shrinks xs ys →
      Shrinks (ofChar ' ' :: xs) (x :: ys)
  | drop {x : τ} {xs ys : List τ} : isBlank x = true → Shrinks xs ys → Shrinks xs (x :: ys)

/-- The front of a marked text shrinks to the text with its gaps crossed out. -/
theorem shrinks_layout (before : Option τ) (xs : List τ) :
    Shrinks (layout (needed before (spots false xs))) xs ∧
      ∀ b, isBlank b = true → Shrinks (layout (needed before (spots true xs))) (b :: xs) := by
  induction xs generalizing before with
  | nil => exact ⟨.nil, fun b blank => .drop blank .nil⟩
  | cons x xs ih =>
    rw [spots, spots]
    by_cases blank : isBlank x = true
    · rw [if_pos blank, if_pos blank]
      exact ⟨(ih before).2 x blank, fun b blank' => .drop blank' ((ih before).2 x blank)⟩
    · rw [if_neg blank, if_neg blank, needed, needed, layout, layout, Bool.false_and]
      have rest := ((ih (some x)).1).keep x
      refine ⟨rest, fun b blank' => ?_⟩
      rw [Bool.true_and]
      split
      · exact .space blank' rest
      · exact .drop blank' rest

theorem shrinks_tighten (xs : List τ) : Shrinks (tighten xs) xs := (shrinks_layout none xs).1

theorem isBlank_space : isBlank (ofChar ' ' : τ) = true := by
  rw [isBlank, char?_eq_some_iff.2 rfl]
  rfl

theorem Shrinks.visible_eq {xs ys : List τ} (h : Shrinks xs ys) : visible xs = visible ys := by
  induction h with
  | nil => rfl
  | keep x _ ih =>
    rw [visible] at ih ⊢
    rw [List.filter_cons, ih, visible, visible, List.filter_cons]
  | space blank _ ih => simpa [visible, blank, isBlank_space] using ih
  | drop blank _ ih => simpa [visible, blank] using ih

theorem Shrinks.mem {xs ys : List τ} (h : Shrinks xs ys) {x : τ} (mem : x ∈ xs) :
    x ∈ ys ∨ x = ofChar ' ' := by
  induction h with
  | nil => cases mem
  | keep y _ ih =>
    rcases List.mem_cons.1 mem with rfl | later
    · exact .inl List.mem_cons_self
    · exact (ih later).imp_left (List.mem_cons_of_mem y)
  | @space y _ _ _ _ ih =>
    rcases List.mem_cons.1 mem with same | later
    · exact .inr same
    · exact (ih later).imp_left (List.mem_cons_of_mem y)
  | @drop y _ _ _ _ ih => exact (ih mem).imp_left (List.mem_cons_of_mem y)

/-! ### Tightened text is tight -/

theorem visible_spots (gap : Bool) (xs : List τ) :
    ∀ m ∈ spots gap xs, isBlank m.2 = false := by
  induction xs generalizing gap with
  | nil => nofun
  | cons x xs ih =>
    rw [spots]
    split
    · exact ih true
    · next seen =>
      intro m mem
      rcases List.mem_cons.1 mem with rfl | later
      · exact Bool.eq_false_iff.2 seen
      · exact ih false m later

theorem visible_needed {before : Option τ} {marks : List (Bool × τ)}
    (h : ∀ m ∈ marks, isBlank m.2 = false) : ∀ m ∈ needed before marks, isBlank m.2 = false := by
  induction marks generalizing before with
  | nil => nofun
  | cons m rest ih =>
    obtain ⟨gap, x⟩ := m
    intro m' mem
    rcases List.mem_cons.1 mem with rfl | later
    · exact h (gap, x) List.mem_cons_self
    · exact ih (fun m mem => h m (List.mem_cons_of_mem _ mem)) m' later

/-- A written text is read back. -/
theorem spots_layout {marks : List (Bool × τ)} (h : ∀ m ∈ marks, isBlank m.2 = false) :
    spots false (layout marks) = marks := by
  induction marks with
  | nil => rfl
  | cons m rest ih =>
    obtain ⟨gap, x⟩ := m
    have seen : isBlank x = false := h (gap, x) List.mem_cons_self
    have onward := ih fun m mem => h m (List.mem_cons_of_mem _ mem)
    cases gap with
    | false => simp [layout, spots, seen, onward]
    | true => simp [layout, spots, seen, onward, isBlank_space]

/-- A gap before the end of a tag is kept, unless it is in front of the text. -/
theorem keepsGap_of_close {b y : τ} (close : is '>' y = true) (marks : List (Bool × τ)) :
    keepsGap b y marks = true := by
  have noOpen : is '<' y = false := by
    rw [is, char?_eq_some_iff.2 (is_iff.1 close)]
    rfl
  have noSlash : is '/' y = false := by
    rw [is, char?_eq_some_iff.2 (is_iff.1 close)]
    rfl
  rw [keepsGap, noOpen, noSlash, Bool.and_false, Bool.false_and]
  rfl

theorem closes_needed (b : τ) (marks : List (Bool × τ)) :
    ((needed (some b) marks).head?.any fun y => !y.1 && is '>' y.2)
      = marks.head?.any fun y => !y.1 && is '>' y.2 := by
  cases marks with
  | nil => rfl
  | cons m rest =>
    obtain ⟨gap, y⟩ := m
    rw [needed, List.head?_cons, Option.any_some, List.head?_cons, Option.any_some]
    by_cases close : is '>' y = true
    · rw [Option.any_some, keepsGap_of_close close, Bool.and_true]
    · rw [Bool.eq_false_iff.2 close, Bool.and_false, Option.any_some, Bool.eq_false_iff.2 close,
        Bool.and_false]

theorem needed_needed (before : Option τ) (marks : List (Bool × τ)) :
    needed before (needed before marks) = needed before marks := by
  induction marks generalizing before with
  | nil => rfl
  | cons m rest ih =>
    obtain ⟨gap, x⟩ := m
    have same (b : τ) : keepsGap b x (needed (some x) rest) = keepsGap b x rest := by
      rw [keepsGap, closes_needed, keepsGap]
    have gaps : (before.any fun b => keepsGap b x (needed (some x) rest))
        = before.any fun b => keepsGap b x rest := by
      cases before with
      | none => rfl
      | some b => exact same b
    rw [needed, needed, ih, gaps, Bool.and_assoc, Bool.and_self]

theorem tighten_idem (xs : List τ) : tighten (tighten xs) = tighten xs := by
  have seen : ∀ m ∈ needed none (spots false xs), isBlank m.2 = false :=
    visible_needed (visible_spots false xs)
  rw [tighten, tighten, spots_layout seen, needed_needed]

/-! ### Both together -/

/-- Drops the comments and the needless blanks. -/
def compacted (xs : List τ) : List τ := tighten (dropComments xs)

theorem mem_of_mem_compacted {x : τ} {xs : List τ} (h : x ∈ compacted xs) :
    x ∈ xs ∨ x = ofChar ' ' :=
  ((shrinks_tighten _).mem h).imp_left fun mem => (dropComments_sublist xs).subset mem

end Glyph

end PageTree.Compaction
