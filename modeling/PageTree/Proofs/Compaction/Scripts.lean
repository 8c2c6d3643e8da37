/-
  PageTree/Proofs/Compaction/Scripts.lean
  =======================================
  **When compaction keeps the code of a script.**

  Compaction looks for literals first, then for block comments and for line
  comments last, and each time anywhere in what is left of the script.  So what it
  takes for a comment need not be one: a quote in a comment can take code into a
  literal, a block comment can seem to open in a line comment, slashes after a
  colon or a backslash are not taken for a comment, although the line then goes
  on after it, and slashes can meet when what was between them is gone.  A script
  is orderly if none of this happens, and then its code is kept.

    * `dropBlocks_parts`, `dropLines_parts`: what the passes drop from an orderly
      script;
    * `compact_keeps_code`: the code is kept;
    * `compact_changes_code`: in scripts that are not orderly it is not.
-/
import Mathlib
import PageTree.Proofs.Compaction.Repetition
import PageTree.Proofs.Compaction.ScriptParts

namespace PageTree.Compaction

open Text Glyph Literal

/-! ### The cells of parts -/

/-- The cells of a part that is read alone. -/
def partCells (p : Piece Part) : List Cell := cells p.source

def isBlock : Piece Part → Bool
  | .hit .block _ => true
  | _ => false

/-- The cells of parts without block comments. -/
def unblocked (ps : List (Piece Part)) : List Cell :=
  (ps.filter fun p => !isBlock p).flatMap partCells

/-- No line comment follows a character that keeps slashes from opening one, and
    no block comment seems to open in a line comment, given the last cell kept
    before. -/
def linesSound : Option Cell → List (Piece Part) → Bool
  | _, [] => true
  | _, .plain c :: ps => linesSound (some (.char c)) ps
  | _, .hit .literal l :: ps => linesSound (some (.literal l)) ps
  | before, .hit .block _ :: ps => linesSound before ps
  | before, .hit .line l :: ps =>
    opensLine before && !before.any (is '/') &&
      (cells l).tails.all (fun tail => ((Glyph.dropWord "/*".toList tail).bind fun inner =>
        after "*/".toList (inner ++ ps.flatMap partCells)).isNone) &&
      linesSound before ps

theorem linesSound_line {before : Option Cell} {l : List Char} {ps : List (Piece Part)}
    (h : linesSound before (.hit .line l :: ps) = true) :
    ((opensLine before = true ∧ before.any (is '/') = false) ∧
      ∀ tail, tail <:+ cells l → ((Glyph.dropWord "/*".toList tail).bind fun inner =>
        after "*/".toList (inner ++ ps.flatMap partCells)) = none) ∧
      linesSound before ps = true := by
  obtain ⟨here, rest⟩ := Bool.and_eq_true_iff.1 h
  obtain ⟨starts, unopened⟩ := Bool.and_eq_true_iff.1 here
  obtain ⟨opens, noSlash⟩ := Bool.and_eq_true_iff.1 starts
  refine ⟨⟨⟨opens, Bool.not_eq_eq_eq_not.1 noSlash⟩, fun tail suffix => ?_⟩, rest⟩
  have listed : tail ∈ (cells l).tails := (List.mem_tails _ _).2 suffix
  exact Option.isNone_iff_eq_none.1 (List.all_eq_true.1 unopened tail listed)

/-- A script in which compaction recognises the comments. -/
structure Orderly (s : List Char) : Prop where
  /-- No literal begins in a comment and ends after it. -/
  literals : cells s = (parts s).flatMap partCells
  lines : linesSound none (parts s) = true
  noQuotes : NoStrayQuote (kept (parts s))
  calm : Calm (kept (parts s))

theorem cells_of_plain {c : Char} (plain : c ∉ quotes) (cs : List Char) :
    cells (c :: cs) = .char c :: cells cs :=
  cells_of_not_read (recogniser_of_not_mem plain cs)

theorem cells_singleton (c : Char) : cells [c] = [.char c] := by
  refine cells_of_not_read ?_
  by_cases quote : c ∈ quotes
  · obtain ⟨⟨c, spansLines⟩, kind, rfl⟩ := List.mem_map.1 quote
    exact recogniser_of_mem kind []
  · exact recogniser_of_not_mem quote []

/-- A character that is no quote is in no literal at the end of a text. -/
theorem cells_concat {c : Char} (plain : c ∉ quotes) (s : List Char) :
    cells (s ++ [c]) = cells s ++ [.char c] := by
  induction s using cells_induction with
  | nil => exact cells_singleton c
  | char d cs read ih =>
    have stillNotRead : recogniser none (d :: cs ++ [c]) = none := by
      refine Option.eq_none_iff_forall_ne_some.2 fun hit found => ?_
      obtain ⟨l, rest, split, _, lexeme⟩ := isLexeme_of_recogniser (n := hit.2) found
      obtain ⟨quote, isQuote, body, same⟩ := lexeme.quoted
      rcases List.eq_nil_or_concat rest with rfl | ⟨front, last, rfl⟩
      · rw [List.append_nil, same, ← List.cons_append] at split
        obtain ⟨rfl⟩ := List.cons.inj (List.append_inj' split rfl).2
        exact plain isQuote
      · rw [List.concat_eq_append, ← List.append_assoc] at split
        have before := List.append_inj_left' split rfl
        rw [before, lexeme.read] at read
        cases read
    rw [List.cons_append] at stillNotRead ⊢
    rw [cells_of_not_read stillNotRead, ih, cells_of_not_read read, List.cons_append]
  | literal l rest lexeme ih =>
    rw [List.append_assoc, cells_of_lexeme lexeme, cells_of_lexeme lexeme, ih, List.cons_append]

theorem cells_lexeme {l : List Char} (h : IsLexeme l) : cells l = [.literal l] := by
  have read := cells_of_lexeme h []
  rwa [List.append_nil] at read

theorem IsBlock.cells_eq {l inner rest : List Char} (h : IsBlock l inner rest) :
    cells l = chars "/*".toList ++ (cells inner ++ chars "*/".toList) := by
  have closes : cells (inner ++ "*/".toList) = cells inner ++ chars "*/".toList := by
    have star := cells_concat (c := '*') (by decide) inner
    have slash := cells_concat (c := '/') (by decide) (inner ++ ['*'])
    rw [star, List.append_assoc, List.append_assoc] at slash
    exact slash
  rw [h.text, List.append_assoc]
  exact (cells_of_plain (by decide) _).trans (congrArg _ ((cells_of_plain (by decide) _).trans
    (congrArg _ closes)))

theorem IsLine.cells_eq {l body rest : List Char} (h : IsLine l body rest) :
    cells l = chars "//".toList ++ cells body := by
  rw [h.text]
  exact (cells_of_plain (by decide) _).trans (congrArg _ (cells_of_plain (by decide) _))

theorem sources_flatMap_partCells (ps : List (Piece Part)) :
    sources (ps.flatMap partCells) = ps.flatMap Piece.source := by
  induction ps with
  | nil => rfl
  | cons p ps ih =>
    rw [List.flatMap_cons, List.flatMap_cons, sources_append, ih, partCells, sources_cells]

theorem sources_partCells (s : List Char) : sources ((parts s).flatMap partCells) = s := by
  rw [sources_flatMap_partCells]
  exact sources_scan part s

theorem partCells_cons (c : Char) (cs : List Char) (h : parts (c :: cs) = .plain c :: parts cs) :
    (parts (c :: cs)).flatMap partCells = .char c :: (parts cs).flatMap partCells := by
  rw [h, List.flatMap_cons, partCells]
  exact congrArg (· ++ _) (cells_singleton c)

/-! ### Block comments -/

theorem length_le_of_cutAt {word s front rest a b : List Char}
    (h : cutAt word s = some (front, rest)) (found : s = a ++ word ++ b) : front.length ≤ a.length := by
  induction s generalizing front a with
  | nil =>
    unfold cutAt at h
    split at h
    · obtain ⟨rfl, _⟩ := Prod.mk.inj (Option.some.inj h)
      exact Nat.zero_le _
    · cases h
  | cons c cs ih =>
    unfold cutAt at h
    split at h
    · obtain ⟨rfl, _⟩ := Prod.mk.inj (Option.some.inj h)
      exact Nat.zero_le _
    · next notHere =>
      obtain ⟨⟨front, rest⟩, later, same⟩ := Option.map_eq_some_iff.1 h
      obtain ⟨rfl, rfl⟩ := Prod.mk.inj same
      cases a with
      | nil =>
        have here : Text.dropWord word (c :: cs) = some b := Text.dropWord_eq_some_iff.2 found
        rw [here] at notHere
        cases notHere
      | cons d a => exact Nat.succ_le_succ (ih later (List.cons.inj found).2)

theorem sources_ne_nil {s : List Char} {k : Cell} (mem : k ∈ cells s) : k.source ≠ [] := by
  cases k with
  | char c => exact List.cons_ne_nil c []
  | literal l =>
    obtain ⟨quote, _, body, rfl⟩ := (isLexeme_of_mem_cells mem).quoted
    exact List.cons_ne_nil quote _

/-- A block comment is dropped as far as its closing mark. -/
theorem IsBlock.after_eq {l inner rest : List Char} (h : IsBlock l inner rest) {ks : List Cell}
    (same : sources ks = rest) :
    after "*/".toList (cells inner ++ chars "*/".toList ++ ks) = some ks := by
  refine after_eq_some (by decide) fun a b split => ?_
  by_contra shorter
  obtain ⟨d, inside⟩ : a <+: cells inner := by
    have prefixes : a <+: cells inner ++ (chars "*/".toList ++ ks) :=
      ⟨chars "*/".toList ++ b, by rw [← List.append_assoc, ← split, List.append_assoc]⟩
    have whole : cells inner <+: cells inner ++ (chars "*/".toList ++ ks) := ⟨_, rfl⟩
    exact List.prefix_of_prefix_length_le prefixes whole (by omega)
  have nonempty : d ≠ [] := by
    rintro rfl
    rw [List.append_nil] at inside
    exact shorter (by rw [inside])
  obtain ⟨k, d, rfl⟩ := List.exists_cons_of_ne_nil nonempty
  have isCell : k ∈ cells inner := by
    rw [← inside]
    exact List.mem_append_right a List.mem_cons_self
  have positive := List.length_pos_of_ne_nil (sources_ne_nil isCell)
  have text := congrArg sources split
  rw [sources_append, sources_append, sources_append, sources_append, sources_cells,
    sources_chars, same] at text
  have first := length_le_of_cutAt h.first text
  have whole : inner = sources a ++ (k.source ++ sources d) := by
    rw [← sources_cells inner, ← inside, sources_append]
    rfl
  rw [whole, List.length_append, List.length_append] at first
  omega

/-- Glyphs at which no comment opens that is closed are passed over. -/
theorem dropEnclosed_append {τ : Type} [Glyph τ] {opens closes : List Char} {xs ys : List τ}
    (h : ∀ tail, tail ≠ [] → tail <:+ xs →
      (Glyph.dropWord opens (tail ++ ys)).bind (after closes) = none) :
    Glyph.dropEnclosed opens closes (xs ++ ys) = xs ++ Glyph.dropEnclosed opens closes ys := by
  induction xs with
  | nil => rfl
  | cons x xs ih =>
    have miss := h (x :: xs) (List.cons_ne_nil x xs) List.suffix_rfl
    rw [List.cons_append] at miss
    rw [List.cons_append, dropEnclosed_miss miss,
      ih fun tail nonempty suffix => h tail nonempty (suffix.trans (List.suffix_cons x xs))]
    rfl

/-- What begins with an asterisk outside literals is code. -/
theorem kept_of_star {s : List Char} {ks : List Cell}
    (h : (parts s).flatMap partCells = .char '*' :: ks) :
    ∃ rest, kept (parts s) = .char '*' :: rest := by
  have text := congrArg sources h
  rw [sources_partCells] at text
  obtain ⟨cs, rfl⟩ : ∃ cs, s = '*' :: cs := ⟨sources ks, text⟩
  have notRead : part none ('*' :: cs) = none := rfl
  exact ⟨kept (parts cs), by rw [parts_of_not_read notRead, kept_plain]⟩

/-- No block comment opens at a character of code. -/
theorem dropWord_of_not_read {c : Char} {cs : List Char} (read : part none (c :: cs) = none)
    (noBlock : ¬ chars "/*".toList <:+: kept (parts (c :: cs))) :
    Glyph.dropWord "/*".toList (.char c :: (parts cs).flatMap partCells) = none := by
  refine Option.eq_none_iff_forall_ne_some.2 fun inner opened => noBlock ?_
  obtain ⟨slash, star⟩ := List.cons.inj (Glyph.dropWord_eq_some_iff.1 opened)
  obtain ⟨ks, starts⟩ := kept_of_star star
  exact ⟨[], ks, by rw [parts_of_not_read read, kept_plain, starts, slash]; rfl⟩

theorem IsBlock.dropEnclosed_eq {l inner rest : List Char} (h : IsBlock l inner rest) :
    Glyph.dropEnclosed "/*".toList "*/".toList (cells l ++ (parts rest).flatMap partCells)
      = Glyph.dropEnclosed "/*".toList "*/".toList ((parts rest).flatMap partCells) := by
  have hit : (Glyph.dropWord "/*".toList (chars "/*".toList ++
      (cells inner ++ chars "*/".toList ++ (parts rest).flatMap partCells))).bind
      (after "*/".toList) = some ((parts rest).flatMap partCells) := by
    rw [Glyph.dropWord_eq_some_iff.2 rfl]
    exact h.after_eq (sources_partCells rest)
  rw [h.cells_eq, List.append_assoc, List.append_assoc, ← List.append_assoc (cells inner)]
  exact dropEnclosed_hit (by decide) hit

/-- What opens no block comment in a line comment opens none that ends after it. -/
theorem IsLine.dropEnclosed_eq {l body rest : List Char} (h : IsLine l body rest)
    (unopened : ∀ tail, tail <:+ cells l → ((Glyph.dropWord "/*".toList tail).bind fun inner =>
      after "*/".toList (inner ++ (parts rest).flatMap partCells)) = none) :
    Glyph.dropEnclosed "/*".toList "*/".toList (cells l ++ (parts rest).flatMap partCells)
      = cells l ++ Glyph.dropEnclosed "/*".toList "*/".toList ((parts rest).flatMap partCells) := by
  refine dropEnclosed_append fun tail nonempty suffix => ?_
  refine Option.eq_none_iff_forall_ne_some.2 fun left found => ?_
  obtain ⟨inner, opened, closed⟩ := Option.bind_eq_some_iff.1 found
  have begins : tail ++ (parts rest).flatMap partCells = .char '/' :: .char '*' :: inner :=
    Glyph.dropWord_eq_some_iff.1 opened
  rcases tail with _ | ⟨x, _ | ⟨y, tail⟩⟩
  · exact nonempty rfl
  · -- only a line break can follow the comment
    obtain ⟨_, star⟩ := List.cons.inj begins
    have text : rest = '*' :: sources inner := by
      rw [← sources_partCells rest]
      exact congrArg sources star
    have ends := h.ends
    rw [text] at ends
    cases ends
  · obtain ⟨rfl, rest'⟩ := List.cons.inj begins
    obtain ⟨rfl, rfl⟩ := List.cons.inj rest'
    have opensIn : Glyph.dropWord "/*".toList (Cell.char '/' :: .char '*' :: tail) = some tail :=
      Glyph.dropWord_eq_some_iff.2 rfl
    have unclosed := unopened _ suffix
    rw [opensIn, Option.bind_some] at unclosed
    exact Option.some_ne_none _ (closed.symm.trans unclosed)

/-- The block comments are dropped, and nothing else. -/
theorem dropBlocks_parts (s : List Char) (before : Option Cell)
    (sound : linesSound before (parts s) = true)
    (noBlock : ¬ chars "/*".toList <:+: kept (parts s)) :
    Glyph.dropEnclosed "/*".toList "*/".toList ((parts s).flatMap partCells)
      = unblocked (parts s) := by
  induction s using parts_induction generalizing before with
  | nil => rfl
  | char c cs read ih =>
    have split := parts_of_not_read read
    have unopened := dropWord_of_not_read read noBlock
    rw [split] at sound noBlock
    have onward := ih (some (.char c)) sound fun h =>
      noBlock (h.trans (List.suffix_cons _ _).isInfix)
    rw [partCells_cons c cs split, dropEnclosed_miss (by rw [unopened]; rfl), onward, unblocked,
      unblocked, split]
    exact congrArg (· ++ _) (cells_singleton c).symm
  | literal l rest lexeme ih =>
    rw [parts_of_lexeme lexeme rest] at sound noBlock ⊢
    have onward := ih (some (.literal l)) sound fun h =>
      noBlock (h.trans (List.suffix_cons _ _).isInfix)
    have here : partCells (.hit .literal l) = [.literal l] := cells_lexeme lexeme
    rw [List.flatMap_cons, here, List.singleton_append, dropEnclosed_miss rfl, onward]
    exact congrArg (· ++ unblocked (parts rest)) here.symm
  | block l inner rest isBlock split ih =>
    rw [split] at sound noBlock ⊢
    exact isBlock.dropEnclosed_eq.trans (ih before sound noBlock)
  | line l body rest isLine split ih =>
    rw [split] at sound noBlock ⊢
    obtain ⟨⟨_, unopened⟩, restSound⟩ := linesSound_line sound
    have onward := ih before restSound noBlock
    exact (isLine.dropEnclosed_eq unopened).trans (congrArg _ onward)

/-! ### Line comments -/

/-- After a slash that is kept, a slash that is no block comment is code. -/
theorem kept_of_slash {s : List Char} {ks : List Cell}
    (sound : linesSound (some (.char '/')) (parts s) = true)
    (h : unblocked (parts s) = .char '/' :: ks) : ∃ rest, kept (parts s) = .char '/' :: rest := by
  induction s using parts_induction with
  | nil => cases h
  | char c cs read _ =>
    rw [parts_of_not_read read] at h ⊢
    have first : unblocked (.plain c :: parts cs) = .char c :: unblocked (parts cs) :=
      congrArg (· ++ _) (cells_singleton c)
    rw [first] at h
    obtain ⟨rfl⟩ := Cell.char.inj (List.cons.inj h).1
    exact ⟨kept (parts cs), rfl⟩
  | literal l rest lexeme _ =>
    rw [parts_of_lexeme lexeme] at h
    have first : unblocked (.hit .literal l :: parts rest) = .literal l :: unblocked (parts rest) :=
      congrArg (· ++ _) (cells_lexeme lexeme)
    rw [first] at h
    cases (List.cons.inj h).1
  | block l inner rest _ split ih =>
    rw [split] at sound h ⊢
    exact ih sound h
  | line l body rest _ split _ =>
    rw [split] at sound
    cases (linesSound_line sound).1.1.2

theorem dropLineFrom_true_append {τ : Type} [Glyph τ] {xs : List τ}
    (oneLine : ∀ x ∈ xs, is '\n' x = false) (before : Option τ) (ys : List τ) :
    dropLineFrom true before (xs ++ ys) = dropLineFrom true before ys := by
  induction xs with
  | nil => rfl
  | cons x xs ih =>
    rw [List.cons_append, dropLineFrom, oneLine x List.mem_cons_self, if_neg Bool.false_ne_true,
      ih fun y mem => oneLine y (List.mem_cons_of_mem x mem)]

/-- A line comment is dropped as far as the end of its line. -/
theorem IsLine.dropLineFrom_eq {l body rest : List Char} (h : IsLine l body rest)
    {before : Option Cell} (opens : opensLine before = true) :
    dropLineFrom false before (cells l ++ unblocked (parts rest))
      = dropLineFrom false before (unblocked (parts rest)) := by
  have oneLine : ∀ k ∈ Cell.char '/' :: cells body, is '\n' k = false := by
    intro k mem
    rcases List.mem_cons.1 mem with rfl | inside
    · rfl
    · refine Bool.eq_false_iff.2 fun newline => h.oneLine ?_
      rw [is_iff.1 newline] at inside
      exact mem_of_char_mem_cells inside
  have stops : (unblocked (parts rest)).dropWhile (fun k => !is '\n' k)
      = unblocked (parts rest) := by
    cases rest with
    | nil => rfl
    | cons c cs =>
      obtain rfl : c = '\n' := by simpa using h.ends
      have notRead : part none ('\n' :: cs) = none := rfl
      rw [parts_of_not_read notRead]
      rfl
  have here : cells l ++ unblocked (parts rest)
      = .char '/' :: (.char '/' :: cells body ++ unblocked (parts rest)) := by
    rw [h.cells_eq]
    rfl
  have slashes : (is '/' (Cell.char '/') &&
      (Cell.char '/' :: cells body ++ unblocked (parts rest)).head?.any (is '/') &&
      opensLine before) = true := by
    rw [opens]
    rfl
  rw [here, dropLineFrom, if_pos slashes, dropLineFrom_true_append oneLine,
    dropLineFrom_true before before, stops]

theorem dropLines_parts (s : List Char) (before : Option Cell)
    (sound : linesSound before (parts s) = true)
    (noLine : ¬ chars "//".toList <:+: kept (parts s)) :
    dropLineFrom false before (unblocked (parts s)) = kept (parts s) := by
  induction s using parts_induction generalizing before with
  | nil => rfl
  | char c cs read ih =>
    rw [parts_of_not_read read] at sound noLine ⊢
    have onward := ih (some (.char c)) sound fun h =>
      noLine (h.trans (List.suffix_cons _ _).isInfix)
    have first : unblocked (.plain c :: parts cs) = .char c :: unblocked (parts cs) :=
      congrArg (· ++ _) (cells_singleton c)
    have passed : (is '/' (Cell.char c) && (unblocked (parts cs)).head?.any (is '/') &&
        opensLine before) = false := by
      refine Bool.eq_false_iff.2 fun opens => ?_
      obtain ⟨⟨rest, split⟩, _⟩ := opensHere_iff.1 opens
      obtain ⟨slash, second⟩ := List.cons.inj split
      obtain rfl : c = '/' := Cell.char.inj slash
      obtain ⟨ks, starts⟩ := kept_of_slash sound second
      exact noLine ⟨[], ks, by rw [kept_plain, starts]; rfl⟩
    rw [first, dropLineFrom, passed, if_neg Bool.false_ne_true, onward, kept_plain]
  | literal l rest lexeme ih =>
    rw [parts_of_lexeme lexeme] at sound noLine ⊢
    have onward := ih (some (.literal l)) sound fun h =>
      noLine (h.trans (List.suffix_cons _ _).isInfix)
    have first : unblocked (.hit .literal l :: parts rest) = .literal l :: unblocked (parts rest) :=
      congrArg (· ++ _) (cells_lexeme lexeme)
    have passed : (is '/' (Cell.literal l) && (unblocked (parts rest)).head?.any (is '/') &&
        opensLine before) = false := rfl
    rw [first, dropLineFrom, passed, if_neg Bool.false_ne_true, onward, kept_literal]
  | block l inner rest _ split ih =>
    rw [split] at sound noLine ⊢
    exact ih before sound noLine
  | line l body rest isLine split ih =>
    rw [split] at sound noLine ⊢
    obtain ⟨⟨⟨opens, _⟩, _⟩, restSound⟩ := linesSound_line sound
    exact (isLine.dropLineFrom_eq opens).trans (ih before restSound noLine)

/-! ### The code of compacted scripts -/

theorem dropComments_of_orderly {s : List Char} (noMarkup : ¬ "<!--".toList <:+: s)
    (h : Orderly s) : Glyph.dropComments (cells s) = kept (parts s) := by
  have markup : Glyph.dropEnclosed "<!--".toList "-->".toList (cells s) = cells s :=
    dropEnclosed_of_not_encloses fun found => noMarkup (infix_of_cells found.infix)
  rw [Glyph.dropComments, markup, h.literals, dropBlocks_parts s none h.lines h.calm.noBlock]
  exact dropLines_parts s none h.lines h.calm.noLine

/-- Compaction keeps the code of an orderly script without markup comments that
    does not use the character that opens a placeholder. -/
theorem compact_keeps_code (s : String) (noMarkup : ¬ "<!--".toList <:+: s.toList)
    (unreserved : opening ∉ s.toList) (orderly : Orderly s.toList) :
    code (compact s).toList = code s.toList := by
  have left := dropComments_of_orderly noMarkup orderly
  have outcome : run s.toList = sources (Glyph.tighten (kept (parts s.toList))) := by
    rw [run_eq (unreserved_of_not_mem unreserved), compacted, left]
  have clean : Clean (Glyph.tighten (kept (parts s.toList))) := by
    rw [← left]
    refine NoStrayQuote.clean ?_ fun l => isLexeme_of_mem_compacted
    intro k mem
    rcases (shrinks_tighten _).mem mem with before | rfl
    · rw [left] at before
      exact orderly.noQuotes k before
    · decide
  have read : kept (parts (run s.toList)) = Glyph.tighten (kept (parts s.toList)) := by
    rw [outcome]
    exact kept_parts_sources clean orderly.calm.noBlock_tighten orderly.calm.noLine_tighten
  rw [compact, String.toList_ofList, code, read, (shrinks_tighten _).visible_eq, code]

/-- Some script with quotes in its comments and slashes in its literals. -/
def annotated : String := "let url = 'http://x'; // it's a note\n/* don't */ let b = \"//\";\n"

theorem annotated_keeps_code :
    ¬ "<!--".toList <:+: annotated.toList ∧ opening ∉ annotated.toList ∧
      Orderly annotated.toList ∧ code (compact annotated).toList = code annotated.toList := by
  have noOpen : '<' ∉ annotated.toList := by decide +kernel
  have noMarkup : ¬ "<!--".toList <:+: annotated.toList :=
    fun h => noOpen (h.subset List.mem_cons_self)
  have unreserved : opening ∉ annotated.toList := by decide +kernel
  have noQuotes : NoStrayQuote (kept (parts annotated.toList)) := by
    unfold NoStrayQuote
    decide +kernel
  have noSlash : Cell.char '/' ∉ kept (parts annotated.toList) := by decide +kernel
  have orderly : Orderly annotated.toList := {
    literals := by decide +kernel
    lines := by decide +kernel
    noQuotes := noQuotes
    calm := {
      noBlock := fun h => noSlash (h.subset List.mem_cons_self)
      noLine := fun h => noSlash (h.subset List.mem_cons_self)
      noClose := fun _ _ h => noSlash (h.subset List.mem_cons_self) } }
  exact ⟨noMarkup, unreserved, orderly,
    compact_keeps_code annotated noMarkup unreserved orderly⟩

/-- A line comment after a colon takes the next line into it, a block comment
    seems to open in a line comment, and a quote in a comment pairs up with one in
    the code. -/
theorem compact_changes_code :
    code (compact "a ? b:// c\nd").toList ≠ code "a ? b:// c\nd".toList ∧
      code (compact "a(); //* b */ c\nd();").toList ≠ code "a(); //* b */ c\nd();".toList ∧
      code (compact "/* \" */ x = \"//\";").toList ≠ code "/* \" */ x = \"//\";".toList := by
  decide +kernel

end PageTree.Compaction
