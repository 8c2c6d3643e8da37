/-
  PageTree/Proofs/Callback/Literals.lean
  ======================================
  **String literals in parameter lists.**

  A default value may contain string literals.  Outside of them brackets stand in pairs,
  and commas between brackets.  But a parameter list is cut by counting brackets and
  looking for commas in every character.  So a comma in a literal cuts a parameter in
  two, unless the literal stands between brackets, and a bracket in a literal may keep
  two parameters together.

    * `fronted_textOf`: a parameter does not begin with a comma;
    * `commasInside_textOf_iff`: literals without brackets;
    * `declared_parameters_intact_iff`: the parameters of a joined list.
-/
import PageTree.Proofs.Callback.Shapes

namespace PageTree.Callback

open PageTree.Text

/-! ### Texts with literals -/

/-- What a string literal stands between. -/
inductive Quote where
  | single
  | double
  | back
deriving DecidableEq, Repr

def Quote.char : Quote → Char
  | single => '\''
  | double => '"'
  | back => '`'

/-- A part of a parameter. -/
inductive Lexeme where
  | plain (c : Char)
  | literal (quote : Quote) (content : List Char)
deriving DecidableEq, Repr

namespace Lexeme

def chars : Lexeme → List Char
  | plain c => [c]
  | literal quote content => quote.char :: content ++ [quote.char]

/-- The characters outside of literals. -/
def code : Lexeme → List Char
  | plain c => [c]
  | literal .. => []

end Lexeme

def textOf (ls : List Lexeme) : List Char := ls.flatMap Lexeme.chars

def codeOf (ls : List Lexeme) : List Char := ls.flatMap Lexeme.code

/-- More brackets of some kind were opened than closed. -/
def Unclosed (s : List Char) : Prop :=
  s.count '\x7d' < s.count '\x7b' ∨ s.count ']' < s.count '[' ∨ s.count ')' < s.count '('

/-- A parameter as it may be written: a name, a pattern, or either with a default value,
    and blanks around.  Outside of literals its brackets stand in pairs, and its commas
    between brackets. -/
structure IsDeclared (p : List Lexeme) : Prop where
  visible : trim (textOf p) ≠ []
  paired : BracketsPaired (codeOf p)
  commas : ∀ before after, p = before ++ .plain ',' :: after → Unclosed (codeOf before)

instance (s : List Char) : Decidable (BracketsPaired s) :=
  decidable_of_iff
    (Balanced '\x7b' '\x7d' s ∧ Balanced '[' ']' s ∧ Balanced '(' ')' s)
    ⟨fun ⟨braces, brackets, parens⟩ => ⟨braces, brackets, parens⟩,
      fun h => ⟨h.braces, h.brackets, h.parens⟩⟩

instance (s : List Char) : Decidable (Unclosed s) := inferInstanceAs (Decidable (_ ∨ _ ∨ _))

instance (p : List Lexeme) : Decidable (IsDeclared p) :=
  decidable_of_iff (trim (textOf p) ≠ [] ∧ BracketsPaired (codeOf p) ∧
      ∀ before ∈ p.inits, before ++ [.plain ','] <+: p → Unclosed (codeOf before))
    ⟨fun ⟨visible, paired, commas⟩ => ⟨visible, paired, fun before after whole =>
        commas before ((List.mem_inits _ _).2 ⟨_, whole.symm⟩) ⟨after, by simp [whole]⟩⟩,
      fun h => ⟨h.visible, h.paired, fun before _ ⟨after, whole⟩ =>
        h.commas before after (by rw [← whole]; simp)⟩⟩

theorem textOf_append (before after : List Lexeme) :
    textOf (before ++ after) = textOf before ++ textOf after := by
  simp [textOf]

/-- Every character of a text belongs to a lexeme. -/
theorem exists_lexeme {p : List Lexeme} {c : Char} {t u : List Char}
    (spelled : textOf p = t ++ c :: u) :
    ∃ before l after v w, p = before ++ l :: after ∧ l.chars = v ++ c :: w ∧
      t = textOf before ++ v := by
  induction p generalizing t with
  | nil => simp [textOf] at spelled
  | cons l ls ih =>
    have front : textOf (l :: ls) = l.chars ++ textOf ls := rfl
    have further (rest : List Char) (later : textOf ls = rest ++ c :: u)
        (same : t = l.chars ++ rest) : ∃ before l' after v w, l :: ls = before ++ l' :: after ∧
          l'.chars = v ++ c :: w ∧ t = textOf before ++ v := by
      obtain ⟨before, l', after, v, w, rfl, chars, rfl⟩ := ih later
      refine ⟨l :: before, l', after, v, w, rfl, chars, ?_⟩
      rw [same, ← List.append_assoc]
      rfl
    rw [front] at spelled
    rcases List.append_eq_append_iff.1 spelled with ⟨rest, same, later⟩ | ⟨rest, here, later⟩
    · exact further rest later same
    · cases rest with
      | nil => exact further [] later.symm (by rw [here, List.append_nil, List.append_nil])
      | cons d rest =>
        obtain ⟨rfl, rfl⟩ := List.cons.inj later
        exact ⟨[], l, ls, t, rest, rfl, here, rfl⟩

theorem codeOf_sublist (p : List Lexeme) : (codeOf p).Sublist (textOf p) := by
  induction p with
  | nil => exact .refl _
  | cons l ls ih =>
    refine List.Sublist.append ?_ ih
    cases l with
    | plain c => exact .refl _
    | literal quote content => exact List.nil_sublist _

theorem codeOf_initial {p before after : List Lexeme} (whole : p = before ++ after) :
    codeOf before <+: codeOf p :=
  ⟨codeOf after, by simp [whole, codeOf]⟩

theorem Quote.visible (quote : Quote) : isBlank quote.char = false := by
  cases quote <;> decide

theorem Quote.char_ne_comma (quote : Quote) : quote.char ≠ ',' := by
  cases quote <;> decide

/-- Something visible stands in front of every comma of a parameter. -/
theorem fronted_textOf {p : List Lexeme} (declared : IsDeclared p) : Fronted (textOf p) := by
  intro t u spelled empty
  have blank {c : Char} (mem : c ∈ t) : isBlank c = true := isBlank_of_trim_eq_nil empty mem
  obtain ⟨before, l, after, v, w, rfl, chars, rfl⟩ := exists_lexeme spelled
  cases l with
  | plain d =>
    obtain ⟨rfl, rfl, -⟩ : v = [] ∧ ',' = d ∧ w = [] := by
      simpa [Lexeme.chars, List.singleton_eq_append_iff] using chars
    have none {c : Char} (visible : isBlank c = false) : (codeOf before).count c = 0 := by
      refine List.count_eq_zero.2 fun mem => ?_
      rw [blank (List.mem_append_left _ ((codeOf_sublist before).subset mem))] at visible
      cases visible
    have unclosed := declared.commas before after rfl
    rw [Unclosed, none (c := '\x7b') (by decide), none (c := '[') (by decide),
      none (c := '(') (by decide)] at unclosed
    omega
  | literal quote content =>
    cases v with
    | nil => exact quote.char_ne_comma (List.cons.inj chars).1
    | cons d v =>
      obtain ⟨rfl, -⟩ := List.cons.inj chars
      have visible := quote.visible
      rw [blank (List.mem_append_right _ List.mem_cons_self)] at visible
      cases visible

/-! ### Literals without brackets -/

def isBracket (c : Char) : Bool := "\x7b\x7d[]()".toList.contains c

/-- No literal of the parameter contains a bracket. -/
def PlainLiterals (p : List Lexeme) : Prop :=
  ∀ quote content, .literal quote content ∈ p → ∀ c ∈ content, isBracket c = false

theorem depthAfter_of_unbracketed {s : List Char} (unbracketed : ∀ c ∈ s, isBracket c = false)
    (depth : Nat) : depthAfter depth s = depth := by
  induction s with
  | nil => rfl
  | cons c cs ih =>
    obtain ⟨here, later⟩ := List.forall_mem_cons.1 unbracketed
    have same : depthStep depth c = depth := by
      have other : c ≠ '\x7b' ∧ c ≠ '\x7d' ∧ c ≠ '[' ∧ c ≠ ']' ∧ c ≠ '(' ∧ c ≠ ')' := by
        simpa [isBracket] using here
      simp [depthStep, other]
    rw [depthAfter, List.foldl_cons, same]
    exact ih later

theorem Quote.isBracket_char (quote : Quote) : isBracket quote.char = false := by
  cases quote <;> decide

theorem unbracketed_chars (quote : Quote) {content : List Char}
    (unbracketed : ∀ c ∈ content, isBracket c = false) :
    ∀ c ∈ (Lexeme.literal quote content).chars, isBracket c = false := by
  intro c mem
  simp only [Lexeme.chars, List.cons_append, List.mem_cons, List.mem_append, List.not_mem_nil,
    or_false] at mem
  rcases mem with rfl | inside | rfl
  · exact quote.isBracket_char
  · exact unbracketed c inside
  · exact quote.isBracket_char

theorem depthAfter_textOf {p : List Lexeme} (literals : PlainLiterals p) (depth : Nat) :
    depthAfter depth (textOf p) = depthAfter depth (codeOf p) := by
  induction p generalizing depth with
  | nil => rfl
  | cons l ls ih =>
    have later : PlainLiterals ls := fun quote content mem =>
      literals quote content (List.mem_cons_of_mem l mem)
    have same : depthAfter depth l.chars = depthAfter depth l.code := by
      cases l with
      | plain c => rfl
      | literal quote content =>
        exact depthAfter_of_unbracketed
          (unbracketed_chars quote (literals quote content List.mem_cons_self)) depth
    have split (f : Lexeme → List Char) : depthAfter depth ((l :: ls).flatMap f)
        = depthAfter (depthAfter depth (f l)) (ls.flatMap f) := by
      rw [List.flatMap_cons, depthAfter, List.foldl_append]
      rfl
    rw [textOf, codeOf, split, split, same]
    exact ih later _

theorem BracketsPaired.depthAfter_pos_iff {s t : List Char} (paired : BracketsPaired s)
    (within : t <+: s) : 0 < depthAfter 0 t ↔ Unclosed t := by
  have depth := paired.depthAfter_eq within
  have braces := paired.braces.opened _ within
  have brackets := paired.brackets.opened _ within
  have parens := paired.parens.opened _ within
  rw [Unclosed]
  omega

theorem PlainLiterals.of_append {before after : List Lexeme}
    (literals : PlainLiterals (before ++ after)) : PlainLiterals before :=
  fun quote content mem => literals quote content (List.mem_append_left after mem)

/-- With brackets outside of literals only, a comma of a parameter is between brackets
    unless it belongs to a literal that is not. -/
theorem commasInside_textOf_iff {p : List Lexeme} (declared : IsDeclared p)
    (literals : PlainLiterals p) :
    CommasInside 0 (textOf p) ↔ ∀ before quote content after,
      p = before ++ .literal quote content :: after → ',' ∈ content → Unclosed (codeOf before) := by
  -- within a lexeme the depth is the one in front of it
  have within {before after : List Lexeme} {l : Lexeme} (whole : p = before ++ l :: after)
      {v w : List Char} {c : Char} (chars : l.chars = v ++ c :: w) (unbracketed : v = [] ∨
        ∃ quote content, l = .literal quote content) :
      0 < depthAfter 0 (textOf before ++ v) ↔ Unclosed (codeOf before) := by
    have front : depthAfter 0 (textOf before ++ v) = depthAfter 0 (codeOf before) := by
      rw [depthAfter, List.foldl_append, ← depthAfter, ← depthAfter,
        depthAfter_textOf (whole ▸ literals).of_append]
      refine depthAfter_of_unbracketed (fun d mem => ?_) _
      rcases unbracketed with rfl | ⟨quote, content, rfl⟩
      · cases mem
      · have plain := literals quote content (by simp [whole])
        exact unbracketed_chars quote plain d (by rw [chars]; exact List.mem_append_left _ mem)
    rw [front, declared.paired.depthAfter_pos_iff (codeOf_initial whole)]
  constructor
  · intro inside before quote content after whole comma
    obtain ⟨x, y, rfl⟩ := List.append_of_mem comma
    have chars : (Lexeme.literal quote (x ++ ',' :: y)).chars
        = (quote.char :: x) ++ ',' :: (y ++ [quote.char]) := by
      simp [Lexeme.chars]
    refine (within whole chars (.inr ⟨quote, _, rfl⟩)).1 (inside _ ?_)
    rw [whole, textOf_append, List.append_assoc]
    refine (List.prefix_append_right_inj _).2 ⟨y ++ [quote.char] ++ textOf after, ?_⟩
    simp [textOf, Lexeme.chars]
  · intro inside t comma
    obtain ⟨u, spelled⟩ := comma
    obtain ⟨before, l, after, v, w, whole, chars, rfl⟩ :=
      exists_lexeme (p := p) (c := ',') (t := t) (u := u) (by rw [← spelled]; simp)
    cases l with
    | plain d =>
      obtain ⟨rfl, rfl, -⟩ : v = [] ∧ ',' = d ∧ w = [] := by
        simpa [Lexeme.chars, List.singleton_eq_append_iff] using chars
      exact (within whole chars (.inl rfl)).2 (declared.commas before after whole)
    | literal quote content =>
      refine (within whole chars (.inr ⟨quote, content, rfl⟩)).2
        (inside before quote content after whole ?_)
      have mem : ',' ∈ (Lexeme.literal quote content).chars := by
        rw [chars]
        simp
      simpa [Lexeme.chars, quote.char_ne_comma.symm] using mem

/-! ### Lists of parameters -/

/-- **Parameters with literals** come back from a joined list if and only if each comma
    stands between brackets, and the brackets of each but the last are closed at its end,
    those in literals being counted.  If literals contain no brackets, this means that a
    literal that stands outside of brackets contains no comma. -/
theorem declared_parameters_intact_iff {ps : List (List Lexeme)}
    (declared : ∀ p ∈ ps, IsDeclared p) :
    (splitParams (List.intercalate [','] (ps.map textOf)) = ps.map (trim ∘ textOf) ↔
        (∀ p ∈ ps, CommasInside 0 (textOf p)) ∧
          ∀ p ∈ ps.dropLast, depthAfter 0 (textOf p) = 0) ∧
      ((∀ p ∈ ps, PlainLiterals p) →
        (splitParams (List.intercalate [','] (ps.map textOf)) = ps.map (trim ∘ textOf) ↔
          ∀ p ∈ ps, ∀ before quote content after, p = before ++ .literal quote content :: after →
            ',' ∈ content → Unclosed (codeOf before))) := by
  have parameters : ∀ r ∈ ps.map textOf, trim r ≠ [] ∧ Fronted r := by
    simpa using fun p mem => And.intro (declared p mem).visible (fronted_textOf (declared p mem))
  have cut : splitParams (List.intercalate [','] (ps.map textOf)) = ps.map (trim ∘ textOf) ↔
      (∀ p ∈ ps, CommasInside 0 (textOf p)) ∧
        ∀ p ∈ ps.dropLast, depthAfter 0 (textOf p) = 0 := by
    have joined := splitParams_join_iff parameters
    rwa [List.map_map, ← List.map_dropLast, List.forall_mem_map, List.forall_mem_map] at joined
  refine ⟨cut, fun literals => ?_⟩
  have closed : ∀ p ∈ ps.dropLast, depthAfter 0 (textOf p) = 0 := by
    intro p mem
    have mem := List.dropLast_subset ps mem
    rw [depthAfter_textOf (literals p mem)]
    exact (declared p mem).paired.depthAfter_self
  rw [cut, and_iff_left closed]
  exact forall₂_congr fun p mem => commasInside_textOf_iff (declared p mem) (literals p mem)

/-- A name, a pattern with a default value, and a name with a default value. -/
def labelParameters : List (List Lexeme) :=
  ["el ".toList.map .plain,
    " \x7bcount, label\x7d = \x7blabel: ".toList.map .plain
      ++ [.literal .single "x, y".toList, .plain '\x7d'],
    " end = ".toList.map .plain ++ [.literal .double ";".toList]]

theorem labelParameters_intact :
    (∀ p ∈ labelParameters, IsDeclared p) ∧
      splitParams (List.intercalate [','] (labelParameters.map textOf))
        = ["el".toList, "\x7bcount, label\x7d = \x7blabel: 'x, y'\x7d".toList,
          "end = \";\"".toList] ∧
      (∀ p ∈ labelParameters, CommasInside 0 (textOf p)) ∧
      ∀ p ∈ labelParameters.dropLast, depthAfter 0 (textOf p) = 0 := by
  have declared : ∀ p ∈ labelParameters, IsDeclared p := by decide +kernel
  have cut : splitParams (List.intercalate [','] (labelParameters.map textOf))
      = labelParameters.map (trim ∘ textOf) := by
    decide +kernel
  refine ⟨declared, ?_, (declared_parameters_intact_iff declared).1.1 cut⟩
  rw [cut]
  decide +kernel

/-- The parameters `a = "x,y"`, which is cut in two, and `a = "("` and `b`, which are
    kept together. -/
theorem literals_cut_and_join :
    IsDeclared ("a = ".toList.map .plain ++ [.literal .double "x,y".toList]) ∧
      splitParams "a = \"x,y\"".toList = ["a = \"x".toList, "y\"".toList] ∧
      IsDeclared ("a = ".toList.map .plain ++ [.literal .double "(".toList]) ∧
      IsDeclared ("b".toList.map .plain) ∧
      splitParams "a = \"(\",b".toList = ["a = \"(\",b".toList] := by
  decide +kernel

end PageTree.Callback
