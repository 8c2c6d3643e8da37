/-
  PageTree/Proofs/Compaction/Neighbours.lean
  ==========================================
  **What can come to stand together when a text is tightened.**

  Tightening brings glyphs together that had a gap between them, but only between
  tags and before the end of a self-closed tag.  So a text in which no mark opens
  a comment is given one in one way only: the two slashes of `/ />` meet.

    * `suffix_of_tighten`, `exists_of_layout`: what follows a glyph of tightened
      text, and what followed it before;
    * `Calm.not_hasComment_tighten`: a calm text stays without comments.
-/
import Mathlib
import PageTree.Proofs.Compaction.Glyphs

namespace PageTree.Compaction.Glyph

variable {τ : Type} [Glyph τ]

/-- What follows a glyph of tightened text is what followed it before,
    tightened. -/
theorem suffix_of_layout {x : τ} (seen : isBlank x = false) {xs l : List τ} {before : Option τ}
    {gap : Bool} (h : x :: l <:+ layout (needed before (spots gap xs))) :
    ∃ tail, x :: tail <:+ xs ∧ l = layout (needed (some x) (spots false tail)) := by
  induction xs generalizing before gap with
  | nil => exact absurd (List.suffix_nil.1 h) (List.cons_ne_nil x l)
  | cons z zs ih =>
    have onward {before gap} (h : x :: l <:+ layout (needed before (spots gap zs))) :
        ∃ tail, x :: tail <:+ z :: zs ∧ l = layout (needed (some x) (spots false tail)) := by
      obtain ⟨tail, suffix, same⟩ := ih h
      exact ⟨tail, suffix.trans (List.suffix_cons z zs), same⟩
    rw [spots] at h
    split at h
    · exact onward h
    · have fromGlyph (h : x :: l <:+ z :: layout (needed (some z) (spots false zs))) :
          ∃ tail, x :: tail <:+ z :: zs ∧ l = layout (needed (some x) (spots false tail)) := by
        rcases List.suffix_cons_iff.1 h with same | later
        · obtain ⟨rfl, rfl⟩ := List.cons.inj same
          exact ⟨zs, List.suffix_rfl, rfl⟩
        · exact onward later
      rw [needed, layout] at h
      split at h
      · rcases List.suffix_cons_iff.1 h with same | later
        · rw [(List.cons.inj same).1, isBlank_space] at seen
          cases seen
        · exact fromGlyph later
      · exact fromGlyph h

theorem suffix_of_tighten {x : τ} (seen : isBlank x = false) {xs l : List τ}
    (h : x :: l <:+ tighten xs) :
    ∃ tail, x :: tail <:+ xs ∧ l = layout (needed (some x) (spots false tail)) :=
  suffix_of_layout seen h

theorem spots_eq_cons {gap gap' : Bool} {y : τ} {xs : List τ} {rest : List (Bool × τ)}
    (h : spots gap xs = (gap', y) :: rest) :
    ∃ blanks tail, xs = blanks ++ y :: tail ∧ (∀ b ∈ blanks, isBlank b = true) ∧
      gap' = (gap || !blanks.isEmpty) ∧ rest = spots false tail := by
  induction xs generalizing gap with
  | nil => cases h
  | cons x xs ih =>
    rw [spots] at h
    split at h
    · next blank =>
      obtain ⟨blanks, tail, rfl, all, rfl, same⟩ := ih h
      refine ⟨x :: blanks, tail, rfl, fun b mem => ?_, (Bool.or_true gap).symm, same⟩
      rcases List.mem_cons.1 mem with rfl | later
      · exact blank
      · exact all b later
    · obtain ⟨same, rfl⟩ := List.cons.inj h
      obtain ⟨rfl, rfl⟩ := Prod.mk.inj same
      exact ⟨[], xs, rfl, by simp, (Bool.or_false _).symm, rfl⟩

/-- Two glyphs that stand together in tightened text either stood together, or
    had a gap between them that was not kept. -/
theorem exists_of_layout {x y : τ} (seen : isBlank y = false) {xs l : List τ}
    (h : y :: l = layout (needed (some x) (spots false xs))) :
    ∃ blanks tail, xs = blanks ++ y :: tail ∧ (∀ b ∈ blanks, isBlank b = true) ∧
      (blanks = [] ∨ keepsGap x y (spots false tail) = false) ∧
      l = layout (needed (some y) (spots false tail)) := by
  cases marks : spots false xs with
  | nil =>
    rw [marks] at h
    cases h
  | cons m rest =>
    obtain ⟨gap, z⟩ := m
    obtain ⟨blanks, tail, split, all, marked, rfl⟩ := spots_eq_cons marks
    rw [marks, needed, layout, Option.any_some] at h
    split at h
    · rw [(List.cons.inj h).1, isBlank_space] at seen
      cases seen
    · next dropped =>
      obtain ⟨rfl, rfl⟩ := List.cons.inj h
      refine ⟨blanks, tail, split, all, ?_, rfl⟩
      cases blanks with
      | nil => exact .inl rfl
      | cons b blanks =>
        rw [marked] at dropped
        exact .inr (Bool.eq_false_iff.2 dropped)

/-- Which gaps are not kept. -/
theorem of_keepsGap_eq_false {x y : τ} {tail : List τ}
    (h : keepsGap x y (spots false tail) = false) :
    x = ofChar '>' ∧ y = ofChar '<' ∨ y = ofChar '/' ∧ ∃ rest, tail = ofChar '>' :: rest := by
  rw [keepsGap, Bool.and_eq_false_iff, Bool.not_eq_false', Bool.not_eq_false',
    Bool.and_eq_true_iff, Bool.and_eq_true_iff] at h
  rcases h with ⟨tag, opens⟩ | ⟨slash, closes⟩
  · exact .inl ⟨is_iff.1 tag, is_iff.1 opens⟩
  · refine .inr ⟨is_iff.1 slash, ?_⟩
    cases marks : spots false tail with
    | nil =>
      rw [marks] at closes
      cases closes
    | cons m rest =>
      obtain ⟨gap, z⟩ := m
      rw [marks, List.head?_cons, Option.any_some, Bool.and_eq_true_iff] at closes
      obtain ⟨near, close⟩ := closes
      obtain ⟨blanks, more, rfl, _, marked, _⟩ := spots_eq_cons marks
      cases blanks with
      | nil => exact ⟨more, by rw [← is_iff.1 close]; rfl⟩
      | cons b blanks =>
        have marked : gap = true := marked
        rw [marked] at near
        cases near

theorem ofChar_injective {c d : Char} (h : (ofChar c : τ) = ofChar d) : c = d := by
  have same := char?_eq_some_iff.2 h
  rw [char?_eq_some_iff.2 rfl] at same
  exact Option.some.inj same

theorem isBlank_ofChar (c : Char) : isBlank (ofChar c : τ) = Text.isBlank c := by
  rw [isBlank, char?_eq_some_iff.2 rfl]
  rfl

/-- A word without the characters that gaps are dropped before is not brought
    together. -/
theorem prefix_of_layout {word : List Char} (plain : word.all (!Text.isBlank ·) = true)
    (kept : '<' ∉ word ∧ '/' ∉ word) {x : τ} {xs : List τ}
    (h : chars word <+: layout (needed (some x) (spots false xs))) : chars word <+: xs := by
  induction word generalizing x xs with
  | nil => exact List.nil_prefix
  | cons c cs ih =>
    obtain ⟨l, split⟩ := h
    obtain ⟨plainHere, plainRest⟩ := Bool.and_eq_true_iff.1 plain
    have seen : isBlank (ofChar c : τ) = false := by
      rw [isBlank_ofChar]
      exact Bool.not_eq_eq_eq_not.1 plainHere
    obtain ⟨blanks, tail, rfl, _, near, rest⟩ := exists_of_layout seen split
    have noBlanks : blanks = [] := by
      refine near.resolve_right fun dropped => ?_
      rcases of_keepsGap_eq_false dropped with ⟨_, opens⟩ | ⟨slash, _⟩
      · exact kept.1 (by rw [ofChar_injective opens]; exact List.mem_cons_self)
      · exact kept.2 (by rw [ofChar_injective slash]; exact List.mem_cons_self)
    subst noBlanks
    have onward : chars cs <+: tail :=
      ih plainRest
        ⟨fun mem => kept.1 (List.mem_cons_of_mem c mem),
          fun mem => kept.2 (List.mem_cons_of_mem c mem)⟩ ⟨l, rest⟩
    exact (List.prefix_cons_inj _).2 onward

theorem infix_of_tighten {c : Char} {cs : List Char}
    (plain : (c :: cs).all (!Text.isBlank ·) = true) (kept : '<' ∉ cs ∧ '/' ∉ cs) {xs : List τ} (h : chars (c :: cs) <:+: tighten xs) :
    chars (c :: cs) <:+: xs := by
  obtain ⟨front, l, split⟩ := h
  obtain ⟨plainHere, plainRest⟩ := Bool.and_eq_true_iff.1 plain
  have seen : isBlank (ofChar c : τ) = false := by
    rw [isBlank_ofChar]
    exact Bool.not_eq_eq_eq_not.1 plainHere
  have suffix : (ofChar c : τ) :: (chars cs ++ l) <:+ tighten xs :=
    ⟨front, by rw [← split, List.append_assoc]; rfl⟩
  obtain ⟨tail, found, same⟩ := suffix_of_tighten seen suffix
  have onward : chars cs <+: tail :=
    prefix_of_layout plainRest kept ⟨l, same⟩
  exact (((List.prefix_cons_inj (ofChar c : τ)).2 onward).isInfix).trans found.isInfix

/-! ### Texts that open no comment -/

/-- No mark that opens a comment of a script, and no slash to meet that of a
    self-closed tag. -/
structure Calm (xs : List τ) : Prop where
  noBlock : ¬ chars "/*".toList <:+: xs
  noLine : ¬ chars "//".toList <:+: xs
  noClose : ∀ blanks, (∀ b ∈ blanks, isBlank b = true) →
    ¬ ofChar '/' :: (blanks ++ chars "/>".toList) <:+: xs

theorem Encloses.infix {opens closes : List Char} {xs : List τ} (h : Encloses opens closes xs) :
    chars opens <:+: xs := by
  obtain ⟨front, inner, rest, rfl⟩ := h
  exact ⟨front, _, rfl⟩

theorem HasLineComment.infix {before : Option τ} {xs : List τ} (h : HasLineComment before xs) :
    chars "//".toList <:+: xs := by
  obtain ⟨front, rest, rfl, _⟩ := h
  exact ⟨front, rest, rfl⟩

theorem not_hasComment_of_openers {xs : List τ} (noMarkup : ¬ chars "<!--".toList <:+: xs)
    (noBlock : ¬ chars "/*".toList <:+: xs) (noLine : ¬ chars "//".toList <:+: xs) :
    ¬ HasComment xs := by
  rintro (markup | block | line)
  · exact noMarkup markup.infix
  · exact noBlock block.infix
  · exact noLine line.infix

/-- Two slashes that stand together in tightened text stood together, or one of
    them began the end of a self-closed tag. -/
theorem Calm.noLine_tighten {xs : List τ} (h : Calm xs) : ¬ chars "//".toList <:+: tighten xs := by
  rintro ⟨front, l, split⟩
  have seen : isBlank (ofChar '/' : τ) = false := isBlank_ofChar '/'
  have suffix : (ofChar '/' : τ) :: ofChar '/' :: l <:+ tighten xs :=
    ⟨front, by rw [← split, List.append_assoc]; rfl⟩
  obtain ⟨tail, found, same⟩ := suffix_of_tighten seen suffix
  obtain ⟨blanks, rest, rfl, all, near, _⟩ := exists_of_layout seen same
  rcases near with rfl | dropped
  · have together : chars "//".toList <+: (ofChar '/' : τ) :: ([] ++ ofChar '/' :: rest) :=
      ⟨rest, rfl⟩
    exact h.noLine (together.isInfix.trans found.isInfix)
  · rcases of_keepsGap_eq_false dropped with ⟨tag, _⟩ | ⟨_, more, rfl⟩
    · exact absurd (ofChar_injective tag) (by decide)
    · have together : ofChar '/' :: (blanks ++ chars "/>".toList)
          <+: ofChar '/' :: (blanks ++ ofChar '/' :: ofChar '>' :: more) :=
        ⟨more, by simp [chars]⟩
      exact h.noClose blanks all (together.isInfix.trans found.isInfix)

theorem Calm.noBlock_tighten {xs : List τ} (h : Calm xs) : ¬ chars "/*".toList <:+: tighten xs :=
  fun block => h.noBlock (infix_of_tighten (by decide) (by decide) block)

theorem Calm.not_hasComment_tighten {xs : List τ} (h : Calm xs)
    (noMarkup : ¬ chars "<!--".toList <:+: xs) : ¬ HasComment (tighten xs) :=
  not_hasComment_of_openers
    (fun markup => noMarkup (infix_of_tighten (by decide) (by decide) markup))
    h.noBlock_tighten h.noLine_tighten

end PageTree.Compaction.Glyph
