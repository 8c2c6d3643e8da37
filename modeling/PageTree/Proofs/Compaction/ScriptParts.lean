/-
  PageTree/Proofs/Compaction/ScriptParts.lean
  ===========================================
  **The parts of a script.**

  A script is read from left to right as literals, block comments, line comments
  and other characters; what reads like the beginning of one part inside another
  does not count.  Its code is what remains without the comments and without the
  blanks outside literals.

    * `parts_induction`: scripts are built up from such parts;
    * `code_sources`: the code of cells without comments.
-/
import Mathlib
import PageTree.Proofs.Compaction.Losses

namespace PageTree.Compaction

open Text Glyph Literal

inductive Part where
  | literal
  | block
  | line
deriving DecidableEq, Repr

/-- A comment up to the end of its line. -/
def lineLength : List Char → Option Nat
  | '/' :: '/' :: rest => some (2 + (rest.takeWhile (· != '\n')).length)
  | _ => none

/-- What begins at a position of a script, apart from code characters. -/
def part : Recogniser Part := fun before s =>
  ((recogniser before s).map fun hit => (.literal, hit.2)).or
    (((enclosed "/*".toList "*/".toList before s).map fun hit => (.block, hit.2)).or
      ((lineLength s).map (.line, ·)))

def parts (s : List Char) : List (Piece Part) := scan part s

/-- The cells of a part that is kept when comments are dropped. -/
def keptCell : Piece Part → Option Cell
  | .plain c => some (.char c)
  | .hit .literal l => some (.literal l)
  | .hit _ _ => none

/-- What remains of a script without its comments. -/
def kept (ps : List (Piece Part)) : List Cell := ps.filterMap keptCell

/-- The code of a script: its text without comments and without blanks outside
    literals. -/
def code (s : List Char) : List Char := sources (visible (kept (parts s)))

theorem blind_part : part.Blind := fun _ _ => rfl

/-! ### Reading a part -/

theorem part_eq_none_iff {s : List Char} :
    part none s = none ↔ recogniser none s = none ∧
      enclosed "/*".toList "*/".toList none s = none ∧ lineLength s = none := by
  simp [part]

theorem parts_of_not_read {c : Char} {cs : List Char} (h : part none (c :: cs) = none) :
    parts (c :: cs) = .plain c :: parts cs := scan_miss blind_part h

theorem parts_of_lexeme {l : List Char} (h : IsLexeme l) (rest : List Char) :
    parts (l ++ rest) = .hit .literal l :: parts rest := by
  obtain ⟨quote, _, body, same⟩ := h.quoted
  have nonempty : l ≠ [] := by
    rw [same]
    exact List.cons_ne_nil quote _
  exact scan_hit blind_part nonempty (by rw [part, h.read]; rfl)

/-- The text of a block comment, which ends at the first closing mark. -/
structure IsBlock (l inner rest : List Char) : Prop where
  text : l = "/*".toList ++ inner ++ "*/".toList
  first : cutAt "*/".toList (inner ++ "*/".toList ++ rest) = some (inner, rest)

/-- The text of a line comment, which ends at the end of its line. -/
structure IsLine (l body rest : List Char) : Prop where
  text : l = "//".toList ++ body
  oneLine : '\n' ∉ body
  ends : rest.head?.all (· == '\n') = true

theorem exists_of_enclosed {s : List Char} {n : Nat}
    (h : enclosed "/*".toList "*/".toList none s = some ((), n)) :
    ∃ l inner rest, s = l ++ rest ∧ l.length = n ∧ IsBlock l inner rest := by
  obtain ⟨after, opened, closed⟩ := Option.bind_eq_some_iff.1 h
  obtain ⟨⟨inner, rest⟩, cut, same⟩ := Option.map_eq_some_iff.1 closed
  obtain rfl : _ = n := congrArg (·.2) same
  have split := eq_of_cutAt cut
  rw [Text.dropWord_eq_some_iff.1 opened]
  rw [split] at cut ⊢
  refine ⟨_, inner, rest, ?_, ?_, rfl, cut⟩
  · simp only [List.append_assoc]
  · simp only [List.length_append]

theorem exists_of_lineLength {s : List Char} {n : Nat} (h : lineLength s = some n) :
    ∃ l body rest, s = l ++ rest ∧ l.length = n ∧ IsLine l body rest := by
  unfold lineLength at h
  split at h
  · next rest =>
    obtain rfl : _ = n := Option.some.inj h
    refine ⟨"//".toList ++ rest.takeWhile (· != '\n'), rest.takeWhile (· != '\n'),
      rest.dropWhile (· != '\n'), ?_, ?_, rfl, ?_, ?_⟩
    · rw [List.append_assoc, List.takeWhile_append_dropWhile]
      rfl
    · simp only [List.length_append]
      rfl
    · intro mem
      have := List.mem_takeWhile_imp mem
      simp at this
    · have stop := List.head?_dropWhile_not (· != '\n') rest
      cases head : (rest.dropWhile (· != '\n')).head? with
      | none => rfl
      | some c =>
        rw [head] at stop
        simpa using stop
  · cases h

/-- Scripts are built up from characters, literals and comments. -/
theorem parts_induction {P : List Char → Prop} (nil : P [])
    (char : ∀ c cs, part none (c :: cs) = none → P cs → P (c :: cs))
    (literal : ∀ l rest, IsLexeme l → P rest → P (l ++ rest))
    (block : ∀ l inner rest, IsBlock l inner rest →
      parts (l ++ rest) = .hit .block l :: parts rest → P rest → P (l ++ rest))
    (line : ∀ l body rest, IsLine l body rest →
      parts (l ++ rest) = .hit .line l :: parts rest → P rest → P (l ++ rest)) (s : List Char) : P s := by
  induction length : s.length using Nat.strong_induction_on generalizing s with
  | _ n ih =>
    have onward {l rest : List Char} (nonempty : l ≠ []) (split : s = l ++ rest) : P rest := by
      have positive := List.length_pos_of_ne_nil nonempty
      rw [split, List.length_append] at length
      exact ih rest.length (by omega) rest rfl
    cases read : part none s with
    | none =>
      cases s with
      | nil => exact nil
      | cons c cs => exact char c cs read (onward (List.cons_ne_nil c []) rfl)
    | some hit =>
      obtain ⟨kind, m⟩ := hit
      rcases Option.or_eq_some_iff.1 read with found | ⟨_, comment⟩
      · obtain ⟨⟨_, m⟩, found, same⟩ := Option.map_eq_some_iff.1 found
        obtain ⟨l, rest, rfl, _, lexeme⟩ := isLexeme_of_recogniser found
        obtain ⟨quote, _, body, same⟩ := lexeme.quoted
        have nonempty : l ≠ [] := by
          rw [same]
          exact List.cons_ne_nil quote _
        exact literal l rest lexeme (onward nonempty rfl)
      · rcases Option.or_eq_some_iff.1 comment with found | ⟨_, found⟩
        · obtain ⟨⟨_, m⟩, enclosed, same⟩ := Option.map_eq_some_iff.1 found
          obtain ⟨rfl, rfl⟩ := Prod.mk.inj same
          obtain ⟨l, inner, rest, rfl, rfl, isBlock⟩ := exists_of_enclosed enclosed
          have nonempty : l ≠ [] := by
            rw [isBlock.text]
            exact List.cons_ne_nil '/' _
          exact block l inner rest isBlock (scan_hit blind_part nonempty read)
            (onward nonempty rfl)
        · obtain ⟨m, ranOn, same⟩ := Option.map_eq_some_iff.1 found
          obtain ⟨rfl, rfl⟩ := Prod.mk.inj same
          obtain ⟨l, body, rest, rfl, rfl, isLine⟩ := exists_of_lineLength ranOn
          have nonempty : l ≠ [] := by
            rw [isLine.text]
            exact List.cons_ne_nil '/' _
          exact line l body rest isLine (scan_hit blind_part nonempty read) (onward nonempty rfl)

theorem isLexeme_of_mem_parts {s l : List Char} (h : Piece.hit .literal l ∈ parts s) :
    IsLexeme l := by
  induction s using parts_induction with
  | nil => cases h
  | char c cs read ih =>
    rw [parts_of_not_read read] at h
    rcases List.mem_cons.1 h with same | later
    · cases same
    · exact ih later
  | literal l' rest lexeme ih =>
    rw [parts_of_lexeme lexeme] at h
    rcases List.mem_cons.1 h with same | later
    · obtain ⟨-, rfl⟩ := Piece.hit.inj same
      exact lexeme
    · exact ih later
  | block l' inner rest _ read ih | line l' body rest _ read ih =>
    rw [read] at h
    rcases List.mem_cons.1 h with same | later
    · cases same
    · exact ih later

/-! ### The code of cells without comments -/

theorem kept_plain (c : Char) (ps : List (Piece Part)) :
    kept (.plain c :: ps) = .char c :: kept ps := rfl

theorem kept_literal (l : List Char) (ps : List (Piece Part)) :
    kept (.hit .literal l :: ps) = .literal l :: kept ps := rfl

/-- A text of cells begins with a character that is no quote only if its first
    cell is this character. -/
theorem exists_of_sources {ks : List Cell} (clean : Clean ks) {c : Char} {cs : List Char}
    (plain : c ∉ quotes) (h : sources ks = c :: cs) : ∃ rest, ks = .char c :: rest := by
  cases ks with
  | nil => cases h
  | cons k rest =>
    cases k with
    | char d =>
      obtain ⟨rfl, _⟩ := List.cons.inj h
      exact ⟨rest, rfl⟩
    | literal l =>
      obtain ⟨quote, isQuote, body, rfl⟩ := (clean.lexemes l List.mem_cons_self).quoted
      obtain ⟨rfl, _⟩ := List.cons.inj h
      exact absurd isQuote plain

theorem kept_parts_sources {ks : List Cell} (clean : Clean ks)
    (noBlock : ¬ chars "/*".toList <:+: ks) (noLine : ¬ chars "//".toList <:+: ks) :
    kept (parts (sources ks)) = ks := by
  induction ks with
  | nil => rfl
  | cons k rest ih =>
    have restClean : Clean rest := ⟨fun l mem => clean.lexemes l (List.mem_cons_of_mem k mem),
      fun c mem => clean.noQuotes c (List.mem_cons_of_mem k mem)⟩
    have onward := ih restClean (fun h => noBlock (h.trans (List.suffix_cons k rest).isInfix))
      fun h => noLine (h.trans (List.suffix_cons k rest).isInfix)
    cases k with
    | char c =>
      have notRead : part none (c :: sources rest) = none := by
        refine part_eq_none_iff.2 ⟨recogniser_of_not_mem (clean.noQuotes c List.mem_cons_self) _,
          ?_, ?_⟩
        · refine Option.eq_none_iff_forall_ne_some.2 fun hit found => ?_
          obtain ⟨l, inner, more, split, _, isBlock⟩ := exists_of_enclosed (n := hit.2) found
          rw [isBlock.text] at split
          obtain ⟨rfl, star⟩ := List.cons.inj split
          obtain ⟨rest', rfl⟩ := exists_of_sources restClean (by decide) star
          exact noBlock ⟨[], rest', rfl⟩
        · refine Option.eq_none_iff_forall_ne_some.2 fun n found => ?_
          obtain ⟨l, body, more, split, _, isLine⟩ := exists_of_lineLength found
          rw [isLine.text] at split
          obtain ⟨rfl, slash⟩ := List.cons.inj split
          obtain ⟨rest', rfl⟩ := exists_of_sources restClean (by decide) slash
          exact noLine ⟨[], rest', rfl⟩
      have read : parts (sources (.char c :: rest)) = .plain c :: parts (sources rest) :=
        parts_of_not_read notRead
      rw [read, kept_plain, onward]
    | literal l =>
      have read : parts (sources (.literal l :: rest)) = .hit .literal l :: parts (sources rest) :=
        parts_of_lexeme (clean.lexemes l List.mem_cons_self) _
      rw [read, kept_literal, onward]

end PageTree.Compaction
