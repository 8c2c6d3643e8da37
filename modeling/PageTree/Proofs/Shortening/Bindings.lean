/-
  PageTree/Proofs/Shortening/Bindings.lean
  ========================================
  **Which bound globals are left alone.**

  Shortening leaves a global alone everywhere if its name stands in one of the
  binding lists it finds.  It finds the first declarator of a declaration and the
  parameters of functions and arrows, as far as the first closing bracket, unless
  it reads the place as part of an earlier list; it looks for neither later
  declarators nor the names of functions.

    * `mem_identifiers`: whole identifiers of a list are found;
    * `Binds.recognised`: the forms that are looked for;
    * `bound_globals_kept_iff`: the globals that are left alone.
-/
import Mathlib
import PageTree.Proofs.Scanning
import PageTree.Proofs.Shortening.Binders

namespace PageTree.NameTable

open Text Compaction
open Glyph (chars char?)

/-! ### Identifiers in a list -/

/-- A name that an identifier can be. -/
def IsName (w : List Char) : Prop := w ≠ [] ∧ identifier w = w

instance (w : List Char) : Decidable (IsName w) := inferInstanceAs (Decidable (_ ∧ _))

theorem isIdentPart_of_mem_lexeme {before : Option Char} {skip : Nat} {s a l : List Char}
    (h : .hit a l ∈ scanFrom identifiers before skip s) {c : Char} (mem : c ∈ l) :
    isIdentPart c = true := by
  obtain ⟨b, t, n, found, rfl⟩ := exists_of_mem_scanFrom h
  unfold identifiers at found
  split at found
  · cases found
  · obtain ⟨rfl, rfl⟩ := Prod.mk.inj (Option.some.inj found)
    have front := identifier_prefix t
    rw [← List.prefix_iff_eq_take.1 front] at mem
    exact isIdentPart_of_mem_identifier mem

/-- A whole identifier of a list is found in it. -/
theorem mem_identifiers {w x y : List Char} (name : IsName w)
    (starts : x.getLast?.any isIdentPart = false) (ends : y.head?.any isIdentPart = false) :
    w ∈ findAll identifiers (x ++ (w ++ y)) := by
  have whole := identifier_append name.2 ends
  obtain ⟨c, cs, rfl⟩ := List.exists_cons_of_ne_nil name.1
  have hit : identifiers (x.getLast?.or none) (c :: cs ++ y) = some (c :: cs, cs.length + 1) := by
    rw [identifiers, whole]
    rfl
  rcases mem_scanFrom_or_covered (by simp) (Nat.zero_le _) hit with ⟨l, mem⟩ | covered
  · exact List.mem_filterMap.2 ⟨_, mem, rfl⟩
  · -- the last character before the name would belong to another identifier
    exfalso
    obtain ⟨qs, a, l, rs, pieces, before, after⟩ := covered
    have parts (d : Char) (mem : d ∈ l) : isIdentPart d = true :=
      isIdentPart_of_mem_lexeme (a := a) (pieces ▸ List.mem_append_right qs List.mem_cons_self) mem
    have text := sources_scanFrom identifiers none 0 (x ++ (c :: cs ++ y))
    rw [pieces, List.flatMap_append, List.flatMap_cons, List.drop_zero] at text
    obtain ⟨inside, rfl, rest⟩ : ∃ inside, x = qs.flatMap Piece.source ++ inside ∧
        l ++ rs.flatMap Piece.source = inside ++ (c :: cs ++ y) := by
      rcases List.append_eq_append_iff.1 text with ⟨inside, split, rest⟩ | ⟨beyond, split, _⟩
      · exact ⟨inside, split, rest⟩
      · have length := congrArg List.length split
        rw [List.length_append] at length
        omega
    rw [List.length_append] at before after
    obtain ⟨others, rfl⟩ : inside <+: l := by
      have left : inside <+: l ++ rs.flatMap Piece.source := ⟨_, rest.symm⟩
      apply List.prefix_of_prefix_length_le left
      · exact List.prefix_append l _
      · omega
    obtain rfl | ⟨front, last, rfl⟩ := List.eq_nil_or_concat inside
    · simp at before
    · have letter : isIdentPart last = true := parts last (by simp)
      simp [letter] at starts

/-! ### Cells and their text -/

theorem outline_append (n : Nat) (ks ks' : List Cell) :
    outline n (ks ++ ks') = outline n ks ++ outline (n + (literals ks).length) ks' := by
  induction ks generalizing n with
  | nil => rfl
  | cons k ks ih =>
    cases k with
    | char c => exact congrArg (c :: ·) (ih n)
    | literal l =>
      have more : (literals (.literal l :: ks)).length = (literals ks).length + 1 := rfl
      have count : n + (literals (.literal l :: ks)).length = n + 1 + (literals ks).length := by
        omega
      rw [count]
      change Literal.placeholder n ++ outline (n + 1) (ks ++ ks') = _
      rw [ih, ← List.append_assoc]
      rfl

/-- At the end of a text the placeholder of a literal counts as no character. -/
theorem getLast?_outline {p : Char → Bool} (closes : p Literal.closing = false) (n : Nat)
    (ks : List Cell) : (outline n ks).getLast?.any p = (ks.getLast?.bind char?).any p := by
  obtain rfl | ⟨ks, c | l, rfl⟩ := List.eq_nil_or_concat ks
  · rfl
  · rw [List.concat_eq_append, outline_append]
    simp [outline, written, char?]
  · have placeholder (m : Nat) : outline m [.literal l]
        = (Literal.opening :: Nat.toDigits 10 m) ++ [Literal.closing] := by
      simp [outline, written, Literal.placeholder]
    rw [List.concat_eq_append, outline_append, placeholder, ← List.append_assoc,
      List.getLast?_concat, List.getLast?_concat, Option.any_some, closes]
    rfl

theorem head?_outline {p : Char → Bool} (opens : p Literal.opening = false) (n : Nat)
    (ks : List Cell) : (outline n ks).head?.any p = (ks.head?.bind char?).any p := by
  obtain _ | ⟨c | l, ks⟩ := ks
  · rfl
  · rfl
  · exact opens

theorem not_mem_outline {c : Char} (plain : c ∉ [Literal.opening, Literal.closing])
    (notDigit : c.isDigit = false) {n : Nat} {ks : List Cell} (h : .char c ∉ ks) :
    c ∉ outline n ks := by
  induction ks generalizing n with
  | nil => exact List.not_mem_nil
  | cons k ks ih =>
    obtain ⟨here, later⟩ := not_or.1 (mt List.mem_cons.2 h)
    cases k with
    | char d =>
      have other : c ≠ d := fun same => here (congrArg Cell.char same)
      exact List.not_mem_cons_of_ne_of_not_mem other (ih later)
    | literal l =>
      change c ∉ Literal.placeholder n ++ outline (n + 1) ks
      rw [List.mem_append, not_or]
      refine ⟨fun mem => ?_, ih later⟩
      rcases cases_of_mem_placeholder mem with rfl | digit | rfl
      · exact plain (by simp)
      · rw [digit] at notDigit
        cases notDigit
      · exact plain (by simp)

/-- No identifier goes on at a placeholder. -/
theorem not_isIdentPart_placeholder :
    isIdentPart Literal.opening = false ∧ isIdentPart Literal.closing = false := by
  constructor <;> decide +kernel

theorem Whole.mem_identifiers {w : List Char} (name : IsName w) {ks : List Cell} (h : Whole w ks)
    (n : Nat) : w ∈ findAll identifiers (outline n ks) := by
  obtain ⟨x, y, rfl, before, next⟩ := h
  rw [outline_append, outline_chars]
  apply NameTable.mem_identifiers name
  · rw [getLast?_outline not_isIdentPart_placeholder.2]
    exact before
  · rw [head?_outline not_isIdentPart_placeholder.1]
    exact next

/-! ### Recognising a binding -/

theorem takeWhile_blanks {gap : List Char} (blank : gap.all isBlank = true) (rest : List Char)
    (ends : rest.head?.any isBlank = false) : (gap ++ rest).takeWhile isBlank = gap := by
  have stops : rest.takeWhile isBlank = [] := by
    cases rest with
    | nil => rfl
    | cons c cs => simpa using ends
  rw [List.takeWhile_append_of_pos (List.all_eq_true.1 blank), stops, List.append_nil]

section Declared

variable {keyword gap : List Char} {before : Option Char} (apart : before.any isWord = false)
  (nonempty : gap ≠ []) (blank : gap.all isBlank = true)

include apart nonempty blank

theorem declared_name {w back : List Char} (name : IsName w)
    (ends : back.head?.any isIdentPart = false) :
    declared keyword before (keyword ++ (gap ++ (w ++ back)))
      = some (w, keyword.length + gap.length + w.length) := by
  have whole := identifier_append name.2 ends
  have positive := List.length_pos_of_ne_nil nonempty
  have found : dropWord keyword (keyword ++ (gap ++ (w ++ back))) = some (gap ++ (w ++ back)) :=
    dropWord_eq_some_iff.2 rfl
  obtain ⟨c, cs, rfl⟩ := List.exists_cons_of_ne_nil name.1
  have starts : isIdentStart c = true := by
    have same := name.2
    rw [identifier] at same
    split at same
    · next starts => exact starts
    · cases same
  have visible : isBlank c = false := by
    by_contra blank
    have part := not_isIdentPart_of_isBlank (Bool.eq_true_of_not_eq_false blank)
    rw [isIdentPart_of_isIdentStart starts] at part
    cases part
  have spaces := takeWhile_blanks blank (c :: cs ++ back) (by simpa using visible)
  unfold declared
  rw [apart, found, if_neg Bool.false_ne_true, Option.bind_some, spaces]
  dsimp only
  rw [if_neg (by simpa using nonempty), List.drop_left]
  split
  · next same =>
    obtain rfl := (List.cons.inj same).1
    exact absurd starts (by decide)
  · next same =>
    obtain rfl := (List.cons.inj same).1
    exact absurd starts (by decide)
  · rw [whole]
    rfl

theorem declared_pattern {opens closes : Char} (brackets : (opens, closes) ∈ patternBrackets)
    {inner : List Char} (flat : closes ∉ inner) (back : List Char) :
    declared keyword before (keyword ++ (gap ++ (opens :: (inner ++ closes :: back))))
      = some (opens :: (inner ++ [closes]), keyword.length + gap.length + (inner.length + 2)) := by
  have found : dropWord keyword (keyword ++ (gap ++ (opens :: (inner ++ closes :: back))))
      = some (gap ++ (opens :: (inner ++ closes :: back))) := dropWord_eq_some_iff.2 rfl
  have visible : isBlank opens = false := by
    have plain : ∀ b ∈ patternBrackets, isBlank b.1 = false := by decide
    exact plain (opens, closes) brackets
  have spaces := takeWhile_blanks blank (opens :: (inner ++ closes :: back))
    (by simpa using visible)
  have cut := cutAt_singleton flat back
  unfold declared
  rw [apart, found, if_neg Bool.false_ne_true, Option.bind_some, spaces]
  dsimp only
  rw [if_neg (by simpa using nonempty), List.drop_left]
  simp only [patternBrackets, List.mem_cons, Prod.mk.injEq, List.not_mem_nil, or_false] at brackets
  rcases brackets with ⟨rfl, rfl⟩ | ⟨rfl, rfl⟩ <;> simp [cut]

end Declared

theorem declared_eq_none {keyword s : List Char} (h : dropWord keyword s = none)
    (before : Option Char) : declared keyword before s = none := by
  simp [declared, h]

theorem bindings_of_declared {keyword : List Char} (known : keyword ∈ keywords)
    {before : Option Char} {t : List Char} {hit : List Char × Nat}
    (h : declared keyword before (keyword ++ t) = some hit) :
    bindings before (keyword ++ t) = some hit := by
  simp only [keywords, List.mem_cons, List.not_mem_nil, or_false] at known
  unfold bindings
  rcases known with rfl | rfl | rfl
  · rw [h, Option.some_or]
  · have notConst : declared "const".toList before ("let".toList ++ t) = none :=
      declared_eq_none rfl before
    rw [notConst, Option.none_or, h, Option.some_or]
  · have notConst : declared "const".toList before ("var".toList ++ t) = none :=
      declared_eq_none rfl before
    have notLet : declared "let".toList before ("var".toList ++ t) = none :=
      declared_eq_none rfl before
    rw [notConst, Option.none_or, notLet, Option.none_or, h, Option.some_or]

/-- A declaring keyword begins with one of three letters. -/
theorem no_keyword_of_head {c : Char} (h : c ∉ ['c', 'l', 'v']) (cs : List Char) :
    ∀ keyword ∈ keywords, dropWord keyword (c :: cs) = none := by
  intro keyword known
  simp only [List.mem_cons, List.not_mem_nil, or_false, not_or] at h
  obtain ⟨notConst, notLet, notVar⟩ := h
  simp only [keywords, List.mem_cons, List.not_mem_nil, or_false] at known
  rcases known with rfl | rfl | rfl
  · simp [dropWord, Ne.symm notConst]
  · simp [dropWord, Ne.symm notLet]
  · simp [dropWord, Ne.symm notVar]

/-- Where no declaring keyword stands, nothing is declared. -/
theorem bindings_of_no_keyword {s : List Char} (h : ∀ keyword ∈ keywords, dropWord keyword s = none)
    (before : Option Char) :
    bindings before s = (functionParams before s).or ((arrowParams s).or (arrowParam s)) := by
  have none (keyword : List Char) (known : keyword ∈ keywords) : declared keyword before s = none :=
    declared_eq_none (h keyword known) before
  unfold bindings
  rw [none _ (by simp [keywords]), Option.none_or, none _ (by simp [keywords]), Option.none_or,
    none _ (by simp [keywords]), Option.none_or]

theorem functionParams_eq_none {s : List Char} (h : dropWord "function".toList s = none)
    (before : Option Char) : functionParams before s = none := by
  unfold functionParams wholeWord
  split
  · rfl
  · rw [h]
    rfl

theorem bindings_function {before : Option Char} (apart : before.any isWord = false)
    {name inner : List Char} (ends : name.head?.any isWord = false) (noOpen : '(' ∉ name)
    (flat : ')' ∉ inner) (back : List Char) :
    bindings before ("function".toList ++ (name ++ '(' :: (inner ++ ')' :: back)))
      = some (inner, 8 + name.length + inner.length + 2) := by
  have found : dropWord "function".toList
      ("function".toList ++ (name ++ '(' :: (inner ++ ')' :: back)))
        = some (name ++ '(' :: (inner ++ ')' :: back)) := dropWord_eq_some_iff.2 rfl
  have apart' : (name ++ '(' :: (inner ++ ')' :: back)).head?.any isWord = false := by
    cases name with
    | nil => exact (by decide : isWord '(' = false)
    | cons c cs => exact ends
  have whole : wholeWord "function".toList before
      ("function".toList ++ (name ++ '(' :: (inner ++ ')' :: back)))
        = some (name ++ '(' :: (inner ++ ')' :: back)) := by
    unfold wholeWord
    rw [apart, found, if_neg Bool.false_ne_true, Option.bind_some, apart',
      if_neg Bool.false_ne_true]
  have params : functionParams before
      ("function".toList ++ (name ++ '(' :: (inner ++ ')' :: back)))
        = some (inner, 8 + name.length + inner.length + 2) := by
    unfold functionParams
    rw [whole, Option.bind_some, cutAt_singleton noOpen, Option.bind_some]
    dsimp only
    rw [cutAt_singleton flat]
    rfl
  rw [bindings_of_no_keyword, params, Option.some_or]
  exact no_keyword_of_head (by decide : 'f' ∉ ['c', 'l', 'v']) _

theorem arrowLength_blanks {gap : List Char} (blank : gap.all isBlank = true) (back : List Char) :
    arrowLength (gap ++ ("=>".toList ++ back)) = some (gap.length + 2) := by
  have spaces := takeWhile_blanks blank ("=>".toList ++ back)
    (by decide : isBlank '=' = false)
  have found : dropWord "=>".toList ("=>".toList ++ back) = some back := dropWord_eq_some_iff.2 rfl
  unfold arrowLength
  dsimp only
  rw [spaces, List.drop_left, found]
  rfl

theorem bindings_arrowList {inner gap : List Char} (flat : '(' ∉ inner ∧ ')' ∉ inner)
    (blank : gap.all isBlank = true) (before : Option Char) (back : List Char) :
    bindings before ('(' :: (inner ++ ')' :: (gap ++ ("=>".toList ++ back))))
      = some (inner, inner.length + 2 + (gap.length + 2)) := by
  have list : (inner ++ ')' :: (gap ++ ("=>".toList ++ back))).takeWhile
      (fun c => c != '(' && c != ')') = inner := by
    have plain : ∀ c ∈ inner, (c != '(' && c != ')') = true := by
      intro c mem
      have notOpen : c ≠ '(' := fun same => flat.1 (same ▸ mem)
      have notClose : c ≠ ')' := fun same => flat.2 (same ▸ mem)
      simp [notOpen, notClose]
    rw [List.takeWhile_append_of_pos plain]
    simp
  have params : arrowParams ('(' :: (inner ++ ')' :: (gap ++ ("=>".toList ++ back))))
      = some (inner, inner.length + 2 + (gap.length + 2)) := by
    simp only [arrowParams, list, List.drop_left, arrowLength_blanks blank, Option.map_some]
  rw [bindings_of_no_keyword, functionParams_eq_none rfl, Option.none_or, params, Option.some_or]
  exact no_keyword_of_head (by decide) _

/-- No global begins with a keyword. -/
theorem dropWord_global (i : Fin globals.length) {keyword : List Char}
    (known : keyword ∈ "function".toList :: keywords) (rest : List Char) :
    dropWord keyword (spelling globals i ++ rest) = none := by
  simp only [keywords, List.mem_cons, List.not_mem_nil, or_false] at known
  rcases known with rfl | rfl | rfl | rfl <;> fin_cases i <;> rfl

theorem isName_global (i : Fin globals.length) : IsName (spelling globals i) := by
  fin_cases i <;> decide

theorem bindings_arrow {i : Fin globals.length} {gap : List Char} (blank : gap.all isBlank = true)
    (before : Option Char) (back : List Char) :
    bindings before (spelling globals i ++ (gap ++ ("=>".toList ++ back)))
      = some (spelling globals i, (spelling globals i).length + (gap.length + 2)) := by
  have ends : (gap ++ ("=>".toList ++ back)).head?.any isIdentPart = false := by
    cases gap with
    | nil => exact (by decide : isIdentPart '=' = false)
    | cons c cs =>
      have first : isBlank c = true := List.all_eq_true.1 blank c List.mem_cons_self
      exact not_isIdentPart_of_isBlank first
  have whole := identifier_append (isName_global i).2 ends
  have nonempty : (spelling globals i).isEmpty = false := by
    simpa using (isName_global i).1
  have param : arrowParam (spelling globals i ++ (gap ++ ("=>".toList ++ back)))
      = some (spelling globals i, (spelling globals i).length + (gap.length + 2)) := by
    unfold arrowParam
    rw [whole, nonempty, if_neg Bool.false_ne_true, List.drop_left, arrowLength_blanks blank]
    rfl
  have noList : arrowParams (spelling globals i ++ (gap ++ ("=>".toList ++ back))) = none := by
    fin_cases i <;> rfl
  rw [bindings_of_no_keyword, functionParams_eq_none, noList, Option.none_or, Option.none_or, param]
  · exact dropWord_global i (by simp) _
  · intro keyword known
    exact dropWord_global i (List.mem_cons_of_mem _ known) _

/-- Whether a binding list with a name is recognised at the front of a text. -/
def Recognised (w : List Char) (before : Option Char) (s : List Char) : Prop :=
  ∃ list length, bindings before s = some (list, length + 1) ∧ w ∈ findAll identifiers list

theorem recognised_of_bindings {w list s : List Char} {before : Option Char} {length : Nat}
    (hit : bindings before s = some (list, length)) (positive : 0 < length)
    (found : w ∈ findAll identifiers list) : Recognised w before s := by
  obtain ⟨n, rfl⟩ := Nat.exists_eq_add_one.2 positive
  exact ⟨list, n, hit, found⟩

theorem apart_of_partBefore {front : List Cell} (h : partBefore front = false) (n : Nat) :
    (outline n front).getLast?.any isWord = false := by
  have plain : isWord Literal.closing = false := by decide +kernel
  rw [getLast?_outline plain]
  unfold partBefore at h
  cases last : front.getLast?.bind char? with
  | none => rfl
  | some c =>
    rw [last] at h
    simp [isIdentPart] at h
    exact h.1

theorem outline_enclosed (n : Nat) (opens closes : Char) (inner back : List Cell) :
    outline n (.char opens :: (inner ++ .char closes :: back))
      = opens :: (outline n inner ++ closes :: outline (n + (literals inner).length) back) := by
  change opens :: outline n (inner ++ .char closes :: back) = _
  rw [outline_append]
  rfl

/-- A name at the front of a text goes on with an identifier. -/
theorem partNext_of_isName {w : List Char} (h : IsName w) : partNext (chars w) = true := by
  obtain ⟨nonempty, same⟩ := h
  obtain ⟨c, cs, rfl⟩ := List.exists_cons_of_ne_nil nonempty
  exact isIdentPart_of_mem_identifier (s := c :: cs) (by simp [same])

/-- The binding forms that shortening looks for. -/
theorem Binds.recognised {i : Fin globals.length} {front ks : List Cell}
    (h : Binds true (spelling globals i) front ks) (m n : Nat) :
    Recognised (spelling globals i) (outline m front).getLast? (outline n ks) := by
  have name := isName_global i
  have found : spelling globals i ∈ findAll identifiers (spelling globals i) := by
    simpa using mem_identifiers name (x := []) (y := []) rfl rfl
  cases h with
  | @name keyword items gap back known fresh _ blank ends next first =>
    obtain rfl := first rfl
    have nonempty : gap ≠ [] := by
      rintro rfl
      have goesOn := partNext_of_isName name
      rw [List.nil_append] at ends
      exact absurd (ends.symm.trans goesOn) Bool.false_ne_true
    have next' : (outline n back).head?.any isIdentPart = false := by
      rw [head?_outline not_isIdentPart_placeholder.1]
      exact next
    have hit := bindings_of_declared known (declared_name
      (apart_of_partBefore fresh.1 m) nonempty blank name next')
    rw [outline_chars, List.nil_append, outline_chars, outline_chars]
    have positive := List.length_pos_of_ne_nil nonempty
    exact recognised_of_bindings hit (by omega) found
  | @pattern keyword items gap opens closes inner back known fresh _ blank _ brackets listed seen =>
    obtain ⟨rfl, nonempty, flat⟩ := seen rfl
    have plain : ∀ b ∈ patternBrackets, b.2 ∉ [Literal.opening, Literal.closing] ∧
        b.2.isDigit = false ∧ isIdentPart b.1 = false ∧ isIdentPart b.2 = false := by decide
    obtain ⟨notMark, notDigit, opensPlain, closesPlain⟩ := plain (opens, closes) brackets
    have flat' : closes ∉ outline n inner := not_mem_outline notMark notDigit flat
    have whole : Whole (spelling globals i) ([.char opens] ++ (inner ++ [.char closes])) := by
      apply Whole.prepend
      · exact opensPlain
      · exact listed.whole.append closesPlain
    have inList := whole.mem_identifiers name n
    have enclosed := outline_enclosed n opens closes inner []
    rw [List.singleton_append, enclosed] at inList
    have hit := bindings_of_declared known (declared_pattern
      (apart_of_partBefore fresh.1 m) nonempty blank brackets flat'
      (outline (n + (literals inner).length) back))
    rw [outline_chars, List.nil_append, outline_chars, outline_enclosed]
    exact recognised_of_bindings hit (by omega) inList
  | function _ _ _ _ _ unseen => cases unseen
  | @parameter header inner back fresh plain ends listed flat =>
    have noOpen : '(' ∉ header := by
      intro mem
      have known := List.all_eq_true.1 plain '(' mem
      exact absurd known (by decide)
    have ends' : header.head?.any isWord = false := by
      cases header with
      | nil => rfl
      | cons c cs => exact (Bool.or_eq_false_iff.1 ends).1
    have flat' : ')' ∉ outline n inner := not_mem_outline (by decide) (by decide) (flat rfl)
    have hit := bindings_function (apart_of_partBefore fresh.1 m) ends' noOpen flat'
      (outline (n + (literals inner).length) back)
    rw [outline_chars, outline_chars, outline_enclosed]
    exact recognised_of_bindings hit (by omega) (listed.whole.mem_identifiers name n)
  | @arrowList inner gap back listed blank flat =>
    obtain ⟨noOpen, noClose⟩ := flat rfl
    have flat' : '(' ∉ outline n inner ∧ ')' ∉ outline n inner :=
      ⟨not_mem_outline (by decide) (by decide) noOpen,
        not_mem_outline (by decide) (by decide) noClose⟩
    have hit := bindings_arrowList flat' blank (outline m front).getLast?
      (outline (n + (literals inner).length) back)
    rw [outline_enclosed, outline_chars, outline_chars]
    exact recognised_of_bindings hit (by omega) (listed.whole.mem_identifiers name n)
  | @arrow gap back _ blank =>
    have hit := bindings_arrow (i := i) blank (outline m front).getLast? (outline n back)
    rw [outline_chars, outline_chars, outline_chars]
    exact recognised_of_bindings hit (by omega) found

/-! ### Globals that are left alone -/

/-- Whether shortening leaves a global alone everywhere in a text. -/
def LeftAlone (s : List Char) (i : Fin globals.length) : Prop :=
  ∀ front back, ¬ Rewrites s front (.global i) back

/-- Whether a global stands between these cells of a text as a whole word, after no
    dollar sign and no dot. -/
structure Free (s : List Char) (i : Fin globals.length) (front back : List Cell) : Prop where
  here : cells s = front ++ (chars (spelling globals i) ++ back)
  ends : (sources back).head?.any isWord = false
  starts : (sources front).getLast?.all mayPrecede = true

theorem rewrites_global_iff {s : List Char} {i : Fin globals.length} {front back : List Cell} :
    Rewrites s front (.global i) back ↔
      Free s i front back ∧ globals.get i ∉ shadowed (Literal.protect s).1 := by
  rw [rewrites_iff]
  constructor
  · rintro ⟨here, ends, starts, unbound⟩
    exact ⟨⟨here, ends, starts i rfl⟩, unbound i rfl⟩
  · rintro ⟨⟨here, ends, starts⟩, unbound⟩
    refine ⟨here, ends, ?_, ?_⟩
    · rintro j ⟨⟩
      exact starts
    · rintro j ⟨⟩
      exact unbound

theorem leftAlone_iff {s : List Char} {i : Fin globals.length} :
    LeftAlone s i ↔
      globals.get i ∈ shadowed (Literal.protect s).1 ∨ ∀ front back, ¬ Free s i front back := by
  constructor
  · intro alone
    by_cases bound : globals.get i ∈ shadowed (Literal.protect s).1
    · exact .inl bound
    · refine .inr fun front back free => ?_
      exact alone front back (rewrites_global_iff.2 ⟨free, bound⟩)
  · intro reason front back rewritten
    obtain ⟨free, unbound⟩ := rewrites_global_iff.1 rewritten
    rcases reason with bound | none
    · exact unbound bound
    · exact none front back free

theorem mem_shadowed_iff {t : List Char} {i : Fin globals.length} :
    globals.get i ∈ shadowed t ↔
      ∃ list ∈ findAll bindings t, spelling globals i ∈ findAll identifiers list := by
  have tabulated : globals.get i ∈ globals := List.get_mem globals i
  have spelled : String.ofList (spelling globals i) = globals.get i := String.ofList_toList
  rw [shadowed, List.mem_filter, List.contains_iff_mem, List.mem_map]
  constructor
  · rintro ⟨_, w, found, same⟩
    obtain ⟨list, mem, inList⟩ := List.mem_flatMap.1 found
    have word : spelling globals i = w := String.ofList_injective (spelled.trans same.symm)
    exact ⟨list, mem, word ▸ inList⟩
  · rintro ⟨list, mem, inList⟩
    exact ⟨tabulated, _, List.mem_flatMap.2 ⟨list, mem, inList⟩, spelled⟩

theorem recognised_ne_nil {w s : List Char} {before : Option Char} (h : Recognised w before s) :
    s ≠ [] := by
  rintro rfl
  obtain ⟨list, length, hit, _⟩ := h
  rw [bindings_of_no_keyword (by decide), functionParams_eq_none rfl] at hit
  cases hit

/-- A binding that shortening looks for is found unless it begins inside an earlier
    one. -/
theorem mem_shadowed_or_covered {s : List Char} {i : Fin globals.length} {front ks : List Cell}
    (split : cells s = front ++ ks) (h : Binds true (spelling globals i) front ks) :
    globals.get i ∈ shadowed (Literal.protect s).1 ∨
      Covered (scan bindings (Literal.protect s).1) (outline 0 front).length := by
  have text : (Literal.protect s).1
      = outline 0 front ++ outline (0 + (literals front).length) ks := by
    rw [← outline_append, ← split]
    exact number_eq_outline 0 _
  have recognised := h.recognised 0 (0 + (literals front).length)
  have nonempty := recognised_ne_nil recognised
  obtain ⟨list, length, hit, mem⟩ := recognised
  rw [← Option.or_none (o := (outline 0 front).getLast?)] at hit
  rw [mem_shadowed_iff, text]
  rcases mem_scanFrom_or_covered nonempty (Nat.zero_le _) hit with ⟨lexeme, found⟩ | covered
  · exact .inl ⟨list, List.mem_filterMap.2 ⟨_, found, rfl⟩, mem⟩
  · exact .inr covered

/-- Shortened code consists of what is kept and of accesses.  A global is left alone
    exactly if its name is an identifier in a binding list that is found, or if it
    nowhere stands free.  Where the code binds a global in a form that is looked
    for, the global is left alone, unless the place lies inside an earlier list that
    is found. -/
theorem bound_globals_kept_iff (code : String) (i : Fin globals.length) :
    (shorten code).toList = declaration.toList
        ++ Literal.restore (Literal.protect code.toList).2 (written 0 (uses code.toList)) ∧
      (LeftAlone code.toList i ↔
        (∃ list ∈ findAll bindings (Literal.protect code.toList).1,
          spelling globals i ∈ findAll identifiers list) ∨
        ∀ front back, ¬ Free code.toList i front back) ∧
      ∀ front ks, cells code.toList = front ++ ks → Binds true (spelling globals i) front ks →
        LeftAlone code.toList i ∨
          Covered (scan bindings (Literal.protect code.toList).1) (outline 0 front).length := by
  refine ⟨?_, ?_, ?_⟩
  · rw [shorten, String.toList_append, String.toList_ofList, body_eq]
  · rw [leftAlone_iff, mem_shadowed_iff]
  · intro front ks split binds
    rcases mem_shadowed_or_covered split binds with found | covered
    · exact .inl (leftAlone_iff.2 (.inl found))
    · exact .inr covered

/-- Some code that binds a global in a pattern and another one as a parameter. -/
def titled : String := "const \x7btop\x7d = $[0]; window.x = top; (self) => self + top;"

/-- The place of `top` in the table. -/
def topIndex : Fin globals.length := ⟨4, by decide⟩

theorem listed_alone (w : List Char) : Listed w (chars w) :=
  ⟨[], chars w, [], (List.append_nil _).symm, .none, .name, .inl rfl⟩

theorem titled_keeps_top :
    (∃ ks, cells titled.toList = [] ++ ks ∧ Binds true (spelling globals topIndex) [] ks) ∧
      LeftAlone titled.toList topIndex := by
  have binds (back : List Cell) : Binds true (spelling globals topIndex) []
      (chars "const".toList ++ ([] ++ (chars " ".toList
        ++ (.char '\x7b' :: (chars "top".toList ++ .char '\x7d' :: back))))) :=
    .pattern (by decide) ⟨rfl, by decide⟩ .none (by decide) (by decide) (by decide)
      (listed_alone _) fun _ => ⟨rfl, by decide, by decide⟩
  have split : cells titled.toList = [] ++ (chars "const".toList ++ ([] ++ (chars " ".toList
      ++ (.char '\x7b' :: (chars "top".toList ++ .char '\x7d'
        :: cells " = $[0]; window.x = top; (self) => self + top;".toList))))) := by
    decide +kernel
  refine ⟨⟨_, split, binds _⟩, ?_⟩
  rcases (bound_globals_kept_iff titled topIndex).2.2 [] _ split (binds _) with alone | covered
  · exact alone
  · obtain ⟨_, _, _, _, _, before, _⟩ := covered
    exact absurd before (Nat.not_lt_zero _)

/-- Whether code is shortened to this text and a global is rewritten that is bound in
    the code. -/
def Breaks (code text : String) : Prop :=
  shorten code = declaration ++ text ∧ ∃ i front ks, cells code.toList = front ++ ks ∧
    Binds false (spelling globals i) front ks ∧ ¬ LeftAlone code.toList i

theorem breaks {code text : String} {i : Fin globals.length} {front front' back ks : List Cell}
    (binds : Binds false (spelling globals i) front ks)
    (split : cells code.toList = front ++ ks)
    (stands : Stands code.toList front' (.global i) back)
    (written : shorten code = declaration ++ text) : Breaks code text :=
  ⟨written, i, front, ks, split, binds, fun alone => alone _ _ (rewrites_iff.2 stands)⟩

theorem items_singleton {stops gap : List Char} {item : List Cell}
    (blank : gap.all isBlank = true) (balanced : closed (',' :: stops) 0 item = true) :
    Items stops (chars gap ++ (item ++ [.char ','])) := by
  have nothing : ([] : List Char).all isBlank = true := rfl
  exact Items.snoc .none blank balanced nothing

/-- A name after another item of a list. -/
theorem listed_second {item : List Cell} (balanced : closed [','] 0 item = true) (w : List Char) :
    Listed w (item ++ .char ',' :: .char ' ' :: chars w) := by
  refine ⟨item ++ [.char ','], .char ' ' :: chars w, [], ?_, ?_, ?_, .inl rfl⟩
  · simp
  · have nothing : ([] : List Char).all isBlank = true := rfl
    exact items_singleton nothing balanced
  · exact .afterBlank (by decide) .name

/-- A later declarator is rewritten, the name of a function, a name after a bracket
    inside a list, a pattern next to its keyword, and a binding inside an earlier
    list or what seems to be one. -/
theorem bound_but_rewritten :
    Breaks "let a, top; top = 1;" "let a, $g[4]; $g[4] = 1;" ∧
      Breaks "function top() \x7b\x7d top();" "function $g[4]() \x7b\x7d $g[4]();" ∧
      Breaks "const \x7ba: \x7bb\x7d, top\x7d = p; top;"
        "const \x7ba: \x7bb\x7d, $g[4]\x7d = p; $g[4];" ∧
      Breaks "const\x7btop\x7d = p; top;" "const\x7b$g[4]\x7d = p; $g[4];" ∧
      Breaks "(a = f(), top) => top;" "(a = f(), $g[4]) => $g[4];" ∧
      Breaks "const \x7ba = function(\x7bb\x7d, top) \x7b top; \x7d\x7d = p;"
        "const \x7ba = function(\x7bb\x7d, $g[4]) \x7b $g[4]; \x7d\x7d = p;" ∧
      Breaks "/* function */ let top = 1; top();" "/* function */ let $g[4] = 1; $g[4]();" := by
  let name : List Cell := chars "top".toList
  let w : List Char := spelling globals topIndex
  refine ⟨?_, ?_, ?_, ?_, ?_, ?_, ?_⟩
  · have others : Items [';', '\n'] (chars " ".toList ++ (chars "a".toList ++ [.char ','])) :=
      items_singleton (by decide) (by decide)
    have binds : Binds false w [] (chars "let".toList
        ++ ((chars " ".toList ++ (chars "a".toList ++ [.char ',']))
          ++ (chars " ".toList ++ (name ++ chars "; top = 1;".toList)))) :=
      .name (by decide) ⟨rfl, by decide⟩ others (by decide) (by decide) (by decide) nofun
    have stands : Stands "let a, top; top = 1;".toList (chars "let a, ".toList)
        (.global topIndex) (chars "; top = 1;".toList) := by decide +kernel
    exact breaks binds (by decide +kernel) stands (by decide +kernel)
  · have binds : Binds false w [] (chars "function".toList ++ (chars " ".toList
        ++ (name ++ (chars "".toList ++ .char '(' :: chars ") \x7b\x7d top();".toList)))) :=
      .function ⟨rfl, by decide⟩ (by decide) (by decide) (by decide) (by decide) rfl
    have stands : Stands "function top() \x7b\x7d top();".toList (chars "function ".toList)
        (.global topIndex) (chars "() \x7b\x7d top();".toList) := by decide +kernel
    exact breaks binds (by decide +kernel) stands (by decide +kernel)
  · have binds : Binds false w [] (chars "const".toList ++ ([] ++ (chars " ".toList
        ++ (.char '\x7b' :: ((chars "a: \x7bb\x7d".toList ++ .char ',' :: .char ' ' :: name)
          ++ .char '\x7d' :: chars " = p; top;".toList))))) :=
      .pattern (by decide) ⟨rfl, by decide⟩ .none (by decide) (by decide) (by decide)
        (listed_second (by decide) _) nofun
    have stands : Stands "const \x7ba: \x7bb\x7d, top\x7d = p; top;".toList
        (chars "const \x7ba: \x7bb\x7d, ".toList) (.global topIndex)
        (chars "\x7d = p; top;".toList) := by decide +kernel
    exact breaks binds (by decide +kernel) stands (by decide +kernel)
  · have binds : Binds false w [] (chars "const".toList ++ ([] ++ (chars "".toList
        ++ (.char '\x7b' :: (name ++ .char '\x7d' :: chars " = p; top;".toList))))) :=
      .pattern (by decide) ⟨rfl, by decide⟩ .none (by decide) (by decide) (by decide)
        (listed_alone _) nofun
    have stands : Stands "const\x7btop\x7d = p; top;".toList (chars "const\x7b".toList)
        (.global topIndex) (chars "\x7d = p; top;".toList) := by decide +kernel
    exact breaks binds (by decide +kernel) stands (by decide +kernel)
  · have binds : Binds false w [] (.char '('
        :: ((chars "a = f()".toList ++ .char ',' :: .char ' ' :: name)
          ++ .char ')' :: (chars " ".toList ++ (chars "=>".toList ++ chars " top;".toList)))) :=
      .arrowList (listed_second (by decide) _) (by decide) nofun
    have stands : Stands "(a = f(), top) => top;".toList (chars "(a = f(), ".toList)
        (.global topIndex) (chars ") => top;".toList) := by decide +kernel
    exact breaks binds (by decide +kernel) stands (by decide +kernel)
  · have binds : Binds false w (chars "const \x7ba = ".toList) (chars "function".toList
        ++ (chars "".toList ++ (.char '('
          :: ((chars "\x7bb\x7d".toList ++ .char ',' :: .char ' ' :: name)
            ++ .char ')' :: chars " \x7b top; \x7d\x7d = p;".toList)))) :=
      .parameter ⟨by decide, by decide⟩ (by decide) (by decide) (listed_second (by decide) _) nofun
    have stands : Stands "const \x7ba = function(\x7bb\x7d, top) \x7b top; \x7d\x7d = p;".toList
        (chars "const \x7ba = function(\x7bb\x7d, ".toList) (.global topIndex)
        (chars ") \x7b top; \x7d\x7d = p;".toList) := by decide +kernel
    exact breaks binds (by decide +kernel) stands (by decide +kernel)
  · have binds : Binds false w (chars "/* function */ ".toList) (chars "let".toList
        ++ ([] ++ (chars " ".toList ++ (name ++ chars " = 1; top();".toList)))) :=
      .name (by decide) ⟨by decide, by decide⟩ .none (by decide) (by decide) (by decide) nofun
    have stands : Stands "/* function */ let top = 1; top();".toList
        (chars "/* function */ let ".toList) (.global topIndex)
        (chars " = 1; top();".toList) := by decide +kernel
    exact breaks binds (by decide +kernel) stands (by decide +kernel)

end PageTree.NameTable
