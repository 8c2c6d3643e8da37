/-
  PageTree/Proofs/Compaction/Cells.lean
  =====================================
  **Compaction as a rewriting of cells.**

  Compaction works on a text in which numbered placeholders stand for literals.
  A placeholder consists of characters that no pass looks for, so nothing is lost
  if each literal is taken for one glyph that is not a character.  The text then
  is a list of cells, and compaction drops comments and blanks from that list.

    * `run_eq`: what is left of the cells of a text is what compaction answers,
      provided the text does not use the character that opens a placeholder.
-/
import Mathlib
import PageTree.Proofs.Compaction.Expansions
import PageTree.Proofs.Compaction.Passes
import PageTree.Proofs.Compaction.Placeholders

/-! ### Literals -/

namespace PageTree.Literal

open Text

theorem blind_recogniser : recogniser.Blind := fun _ _ => rfl

/-- The quotes that open a literal, and whether it may span lines. -/
def kinds : List (Char × Bool) := [('"', false), ('\'', false), ('`', true)]

/-- The characters that open a literal. -/
def quotes : List Char := kinds.map (·.1)

theorem recogniser_of_mem {quote : Char} {spansLines : Bool} (h : (quote, spansLines) ∈ kinds)
    (cs : List Char) :
    recogniser none (quote :: cs) = (restLength quote spansLines 1 cs).map ((), ·) := by
  simp only [kinds, List.mem_cons, Prod.mk.injEq, List.not_mem_nil, or_false] at h
  rcases h with ⟨rfl, rfl⟩ | ⟨rfl, rfl⟩ | ⟨rfl, rfl⟩ <;> rfl

theorem recogniser_of_not_mem {c : Char} (plain : c ∉ quotes) (cs : List Char) :
    recogniser none (c :: cs) = none := by
  simp only [quotes, kinds, List.map_cons, List.map_nil, List.mem_cons, List.not_mem_nil, or_false,
    not_or] at plain
  obtain ⟨notDouble, notSingle, notBack⟩ := plain
  unfold recogniser
  split
  · next same => exact absurd (List.cons.inj same).1 notDouble
  · next same => exact absurd (List.cons.inj same).1 notSingle
  · next same => exact absurd (List.cons.inj same).1 notBack
  · rfl

theorem restLength_cons {quote c : Char} (plain : c ≠ '\\') (spansLines : Bool) (n : Nat)
    (cs : List Char) :
    restLength quote spansLines n (c :: cs)
      = if c == quote then some (n + 1) else if c == '\n' && !spansLines then none
        else restLength quote spansLines (n + 1) cs := by
  have other : (c == '\\') = false := beq_eq_false_iff_ne.2 plain
  rw [restLength.eq_def]
  split
  · next same => cases same
  · next same => exact absurd (List.cons.inj same).1 plain
  · next same =>
    obtain ⟨rfl, rfl⟩ := List.cons.inj same
    rw [other, Bool.false_or]

/-- A literal is read as far as its closing quote, whatever follows. -/
theorem exists_of_restLength {quote : Char} (noEscape : quote ≠ '\\') {spansLines : Bool}
    {n m : Nat} {s : List Char} (h : restLength quote spansLines n s = some m) :
    ∃ body rest, s = body ++ quote :: rest ∧ m = n + body.length + 1 ∧
      ∀ t, restLength quote spansLines n (body ++ quote :: t) = some m := by
  fun_induction restLength quote spansLines n s with
  | case1 => cases h
  | case2 => cases h
  | case3 n c cs stays ih =>
    obtain ⟨body, rest, rfl, rfl, again⟩ := ih h
    refine ⟨'\\' :: c :: body, rest, rfl, ?_, fun t => ?_⟩
    · simp only [List.length_cons]
      omega
    · rw [List.cons_append, List.cons_append, restLength, if_neg stays, again]
  | case4 n c cs _ closes =>
    obtain rfl : c = quote := eq_of_beq closes
    refine ⟨[], cs, rfl, (Option.some.inj h).symm, fun t => ?_⟩
    rw [List.nil_append, restLength_cons noEscape, beq_self_eq_true, if_pos rfl, h]
  | case5 => cases h
  | case6 n c cs _ notClosed goesOn ih =>
    obtain ⟨body, rest, rfl, rfl, again⟩ := ih h
    obtain ⟨plain, notEnd⟩ := not_or.1 (mt Bool.or_eq_true_iff.2 goesOn)
    refine ⟨c :: body, rest, rfl, ?_, fun t => ?_⟩
    · simp only [List.length_cons]
      omega
    · rw [List.cons_append, restLength_cons (by simpa using plain), if_neg notClosed, if_neg notEnd,
        again]

/-- A literal, which is read in the same way whatever follows. -/
structure IsLexeme (l : List Char) : Prop where
  read : ∀ t, recogniser none (l ++ t) = some ((), l.length)
  quoted : ∃ quote ∈ quotes, ∃ body, l = quote :: (body ++ [quote])

theorem isLexeme_of_recogniser {s : List Char} {n : Nat} (h : recogniser none s = some ((), n)) :
    ∃ l rest, s = l ++ rest ∧ l.length = n ∧ IsLexeme l := by
  cases s with
  | nil => cases h
  | cons c cs =>
    by_cases quote : c ∈ quotes
    · obtain ⟨⟨c, spansLines⟩, kind, rfl⟩ := List.mem_map.1 quote
      dsimp only at h quote
      rw [recogniser_of_mem kind] at h
      obtain ⟨m, read, same⟩ := Option.map_eq_some_iff.1 h
      obtain rfl : m = n := congrArg (·.2) same
      have noEscape : c ≠ '\\' := by
        rintro rfl
        exact absurd quote (by decide)
      obtain ⟨body, rest, rfl, rfl, again⟩ := exists_of_restLength noEscape read
      have whole (t : List Char) : c :: (body ++ [c]) ++ t = c :: (body ++ c :: t) := by simp
      refine ⟨c :: (body ++ [c]), rest, (whole rest).symm, ?_, fun t => ?_, ⟨c, quote, body, rfl⟩⟩
      · simp only [List.length_cons, List.length_append, List.length_nil]
        omega
      · rw [whole, recogniser_of_mem kind, again]
        simp only [Option.map_some, List.length_cons, List.length_append, List.length_nil]
        congr 2
        omega
    · rw [recogniser_of_not_mem quote] at h
      cases h

end PageTree.Literal

namespace PageTree.Compaction

open Text Glyph Literal

/-! ### Cells -/

/-- A character outside literals, or a literal. -/
inductive Cell where
  | char (c : Char)
  | literal (source : List Char)
deriving DecidableEq, Repr

namespace Cell

instance : Glyph Cell where
  char? | .char c => some c | .literal _ => none
  ofChar := .char
  char?_eq_some_iff := by
    intro x c
    cases x <;> simp

def source : Cell → List Char
  | char c => [c]
  | literal source => source

def ofPiece : Piece Unit → Cell
  | .plain c => char c
  | .hit _ lexeme => literal lexeme

end Cell

/-- The cells of a text. -/
def cells (s : List Char) : List Cell := (scan recogniser s).map Cell.ofPiece

/-- The text of cells. -/
def sources (ks : List Cell) : List Char := ks.flatMap Cell.source

theorem sources_cells (s : List Char) : sources (cells s) = s := by
  have same : ∀ p : Piece Unit, (Cell.ofPiece p).source = p.source := by rintro (c | l) <;> rfl
  rw [sources, cells, List.flatMap_map]
  simp only [same]
  exact sources_scan recogniser s

theorem sources_append (ks ks' : List Cell) : sources (ks ++ ks') = sources ks ++ sources ks' :=
  List.flatMap_append

theorem sources_chars (word : List Char) : sources (chars word) = word := by
  induction word with
  | nil => rfl
  | cons c cs ih => exact congrArg (c :: ·) ih

/-- Words in a text of cells are words in the text. -/
theorem infix_of_cells {s word : List Char} (h : chars word <:+: cells s) : word <:+: s := by
  obtain ⟨front, rest, split⟩ := h
  refine ⟨sources front, sources rest, ?_⟩
  rw [← sources_cells s, ← split, sources_append, sources_append, sources_chars]

theorem cells_of_not_read {c : Char} {cs : List Char} (h : recogniser none (c :: cs) = none) :
    cells (c :: cs) = .char c :: cells cs := by
  rw [cells, scan_miss blind_recogniser h]
  rfl

theorem cells_of_lexeme {l : List Char} (h : IsLexeme l) (rest : List Char) :
    cells (l ++ rest) = .literal l :: cells rest := by
  obtain ⟨quote, _, body, same⟩ := h.quoted
  have nonempty : l ≠ [] := by
    rw [same]
    exact List.cons_ne_nil quote _
  rw [cells, scan_hit blind_recogniser nonempty (h.read rest)]
  rfl

/-- A text is empty, or it begins with a character outside literals, or with a
    literal. -/
theorem cells_cases (s : List Char) :
    s = [] ∨ (∃ c cs, s = c :: cs ∧ recogniser none s = none ∧ cells s = .char c :: cells cs) ∨
      ∃ l rest, s = l ++ rest ∧ IsLexeme l ∧ cells s = .literal l :: cells rest := by
  cases s with
  | nil => exact .inl rfl
  | cons c cs =>
    cases read : recogniser none (c :: cs) with
    | none => exact .inr (.inl ⟨c, cs, rfl, rfl, cells_of_not_read read⟩)
    | some hit =>
      obtain ⟨l, rest, split, _, lexeme⟩ := isLexeme_of_recogniser (n := hit.2) read
      exact .inr (.inr ⟨l, rest, split, lexeme, by rw [split, cells_of_lexeme lexeme]⟩)

/-- Texts are built up from characters outside literals and literals. -/
theorem cells_induction {P : List Char → Prop} (nil : P [])
    (char : ∀ c cs, recogniser none (c :: cs) = none → P cs → P (c :: cs))
    (literal : ∀ l rest, IsLexeme l → P rest → P (l ++ rest)) (s : List Char) : P s := by
  induction length : s.length using Nat.strong_induction_on generalizing s with
  | _ n ih =>
    rcases cells_cases s with rfl | ⟨c, cs, rfl, read, _⟩ | ⟨l, rest, rfl, lexeme, _⟩
    · exact nil
    · exact char c cs read (ih cs.length (by simp [← length]) cs rfl)
    · obtain ⟨quote, _, body, same⟩ := lexeme.quoted
      have shorter : rest.length < n := by
        rw [← length, same]
        simp only [List.cons_append, List.length_cons, List.length_append]
        omega
      exact literal l rest lexeme (ih rest.length shorter rest rfl)

theorem isLexeme_of_mem_cells {s l : List Char} (h : Cell.literal l ∈ cells s) : IsLexeme l := by
  induction s using cells_induction with
  | nil => cases h
  | char c cs read ih =>
    rw [cells_of_not_read read] at h
    rcases List.mem_cons.1 h with same | later
    · cases same
    · exact ih later
  | literal l' rest lexeme ih =>
    rw [cells_of_lexeme lexeme] at h
    rcases List.mem_cons.1 h with same | later
    · obtain rfl := Cell.literal.inj same
      exact lexeme
    · exact ih later

/-! ### Placeholders -/

/-- A character, or the place of a literal. -/
inductive Hole where
  | char (c : Char)
  | place (n : Nat)

namespace Hole

instance : Glyph Hole where
  char? | .char c => some c | .place _ => none
  ofChar := .char
  char?_eq_some_iff := by
    intro x c
    cases x <;> simp

/-- What stands for it during compaction. -/
def text : Hole → List Char
  | char c => [c]
  | place n => placeholder n

/-- The cell it stands for. -/
def fill (literals : List (List Char)) : Hole → Cell
  | char c => .char c
  | place n => .literal (literals.getD n [])

end Hole

/-- Pieces with their literals numbered. -/
def holes (n : Nat) : List (Piece Unit) → List Hole
  | [] => []
  | .plain c :: ps => .char c :: holes n ps
  | .hit _ _ :: ps => .place n :: holes (n + 1) ps

theorem number_eq (n : Nat) (ps : List (Piece Unit)) :
    number n ps = (holes n ps).flatMap Hole.text := by
  induction ps generalizing n with
  | nil => rfl
  | cons p ps ih =>
    cases p with
    | plain c => rw [number, ih]; rfl
    | hit _ _ => rw [number, ih]; rfl

theorem fill_holes (front : List (List Char)) (ps : List (Piece Unit)) :
    (holes front.length ps).map (Hole.fill (front ++ lexemes ps)) = ps.map Cell.ofPiece := by
  induction ps generalizing front with
  | nil => rfl
  | cons p ps ih =>
    cases p with
    | plain c =>
      rw [holes, List.map_cons, lexemes, ih]
      rfl
    | hit a l =>
      have onward := ih (front ++ [l])
      rw [List.length_append, List.length_singleton, List.append_assoc, List.singleton_append]
        at onward
      have here : Hole.fill (front ++ l :: lexemes ps) (.place front.length) = .literal l := by
        simp [Hole.fill]
      rw [holes, List.map_cons, lexemes, onward, here]
      rfl

theorem lt_of_mem_holes {n m : Nat} {ps : List (Piece Unit)} (h : Hole.place m ∈ holes n ps) :
    m < n + (lexemes ps).length := by
  induction ps generalizing n with
  | nil => cases h
  | cons p ps ih =>
    cases p with
    | plain c =>
      rcases List.mem_cons.1 h with same | later
      · cases same
      · exact ih later
    | hit a l =>
      rw [lexemes, List.length_cons]
      rcases List.mem_cons.1 h with same | later
      · obtain rfl := Hole.place.inj same
        omega
      · have := ih later
        omega

theorem char_mem_holes {n : Nat} {c : Char} {ps : List (Piece Unit)}
    (h : Hole.char c ∈ holes n ps) : Cell.char c ∈ ps.map Cell.ofPiece := by
  induction ps generalizing n with
  | nil => cases h
  | cons p ps ih =>
    cases p with
    | plain d =>
      rcases List.mem_cons.1 h with same | later
      · obtain rfl := Hole.char.inj same
        exact List.mem_cons_self
      · exact List.mem_cons_of_mem _ (ih later)
    | hit a l =>
      rcases List.mem_cons.1 h with same | later
      · cases same
      · exact List.mem_cons_of_mem _ (ih later)

theorem inert_of_not_special {c : Char} (visible : Text.isBlank c = false) (plain : c ∉ special) :
    Inert c where
  visible := visible
  plain := by
    intro d mem
    rw [is_char, beq_eq_false_iff_ne]
    rintro rfl
    exact plain mem

theorem inert_of_isDigit {c : Char} (digit : c.isDigit = true) : Inert c := by
  have bounds : 48 ≤ c.toNat ∧ c.toNat ≤ 57 := by
    simpa [Char.isDigit, UInt32.le_iff_toNat_le] using digit
  refine inert_of_not_special ?_ ?_
  · simp only [Text.isBlank, Bool.or_eq_false_iff, Bool.and_eq_false_iff, beq_eq_false_iff_ne,
      decide_eq_false_iff_not]
    omega
  · intro mem
    simp only [special, List.mem_cons, List.not_mem_nil, or_false] at mem
    rcases mem with rfl | rfl | rfl | rfl | rfl | rfl | rfl | rfl | rfl <;>
      revert bounds <;> decide

theorem cases_of_mem_placeholder {n : Nat} {c : Char} (h : c ∈ placeholder n) :
    c = opening ∨ c.isDigit = true ∨ c = closing := by
  rcases List.mem_cons.1 h with first | rest
  · exact .inl first
  · rcases List.mem_append.1 rest with digit | last
    · exact .inr (.inl (Nat.isDigit_of_mem_toDigits (by decide) (by decide) digit))
    · exact .inr (.inr (List.mem_singleton.1 last))

theorem inert_of_mem_placeholder {n : Nat} {c : Char} (h : c ∈ placeholder n) : Inert c := by
  rcases cases_of_mem_placeholder h with rfl | digit | rfl
  · exact inert_of_not_special (by decide) (by decide)
  · exact inert_of_isDigit digit
  · exact inert_of_not_special (by decide) (by decide)

theorem expansion_text : Expansion Hole.text where
  space := rfl
  glyph := by
    rintro (c | n)
    · exact .inl ⟨c, rfl, rfl⟩
    · refine .inr ⟨⟨rfl, fun _ _ => rfl⟩, List.cons_ne_nil _ _, fun c mem => ?_⟩
      exact inert_of_mem_placeholder mem

theorem expansion_fill (literals : List (List Char)) :
    Expansion fun x => [Hole.fill literals x] where
  space := rfl
  glyph := by
    rintro (c | n)
    · exact .inl ⟨.char c, rfl, rfl⟩
    · exact .inl ⟨.literal (literals.getD n []), rfl, rfl⟩

/-- The literals are put back in their places. -/
theorem restore_text {literals : List (List Char)} {hs : List Hole}
    (places : ∀ n, Hole.place n ∈ hs → n < literals.length)
    (chars : ∀ c, Hole.char c ∈ hs → c ≠ opening) :
    restore literals (hs.flatMap Hole.text) = sources (hs.map (Hole.fill literals)) := by
  induction hs with
  | nil => rfl
  | cons x hs ih =>
    have onward := ih (fun n mem => places n (List.mem_cons_of_mem x mem))
      fun c mem => chars c (List.mem_cons_of_mem x mem)
    rw [List.flatMap_cons, List.map_cons, sources, List.flatMap_cons]
    cases x with
    | char c =>
      have plain : opening ∉ [c] := by
        simpa using Ne.symm (chars c List.mem_cons_self)
      rw [Hole.text, restore_append plain, onward]
      rfl
    | place n =>
      have known : literals[n]? = some (literals.getD n []) := by
        simp [places n List.mem_cons_self]
      rw [Hole.text, restore_placeholder known, onward]
      rfl

/-! ### Compaction of cells -/

/-- No character outside literals opens a placeholder. -/
def Unreserved (ks : List Cell) : Prop := Cell.char opening ∉ ks

theorem run_eq {s : List Char} (h : Unreserved (cells s)) :
    run s = sources (compacted (cells s)) := by
  let pieces := scan recogniser s
  let hs := holes 0 pieces
  have filled : hs.map (Hole.fill (lexemes pieces)) = cells s := fill_holes [] pieces
  have places : ∀ n, Hole.place n ∈ compacted hs → n < (lexemes pieces).length := by
    intro n mem
    rcases mem_of_mem_compacted mem with place | same
    · simpa using lt_of_mem_holes place
    · cases same
  have chars : ∀ c, Hole.char c ∈ compacted hs → c ≠ opening := by
    rintro c mem rfl
    rcases mem_of_mem_compacted mem with char | same
    · exact h (char_mem_holes char)
    · cases same
  calc run s
      = restore (lexemes pieces)
          (Compaction.tighten (Compaction.dropComments (number 0 pieces))) := rfl
    _ = restore (lexemes pieces) (compacted (hs.flatMap Hole.text)) := by
        rw [dropComments_eq, tighten_eq, number_eq, compacted]
    _ = sources ((compacted hs).map (Hole.fill (lexemes pieces))) := by
        rw [compacted_expand expansion_text, restore_text places chars]
    _ = sources (compacted (cells s)) := by
        have fill := compacted_expand (expansion_fill (lexemes pieces)) hs
        rw [← List.map_eq_flatMap, ← List.map_eq_flatMap, filled] at fill
        rw [fill]

end PageTree.Compaction
