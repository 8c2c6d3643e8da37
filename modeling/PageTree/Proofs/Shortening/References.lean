/-
  PageTree/Proofs/Shortening/References.lean
  ==========================================
  **Which occurrences of the tabulated names are rewritten.**

  A member is rewritten wherever it stands as a whole word after a dot, a global
  wherever it stands as a whole word after neither a word character nor a dollar
  sign nor a dot, if the code does not bind it.  A dollar sign after the name, a
  dot with blanks before it and the colon of a key are not looked at.

    * `usesFrom_split_iff`, `rewrites_iff`: the places that are rewritten;
    * `outside_of_read`: none of them lies in a literal, if no literal seems to
      begin in a comment;
    * `rewritten_reference_iff`: which of them are references.
-/
import Mathlib
import PageTree.Proofs.Compaction.Scripts
import PageTree.Proofs.Shortening.Passes

namespace PageTree.NameTable

open Text Compaction
open Glyph (chars char?)

/-! ### The places of accesses -/

/-- Whether a global may stand after some cells, given whether it may stand before
    them. -/
def follows (free : Bool) (front : List Cell) : Bool := front.getLast?.elim free frees

theorem follows_cons (free : Bool) (k : Cell) (front : List Cell) :
    follows free (k :: front) = follows (frees k) front := by
  cases front with
  | nil => rfl
  | cons k' front => simp [follows, List.getLast?_cons]

theorem follows_append (free : Bool) (front front' : List Cell) :
    follows free (front ++ front') = follows (follows free front) front' := by
  induction front generalizing free with
  | nil => rfl
  | cons k front ih => rw [List.cons_append, follows_cons, follows_cons, ih]

theorem follows_chars {w : List Char} (nonempty : w ≠ []) (plain : ∀ c ∈ w, mayPrecede c = false)
    (free : Bool) : follows free (chars w) = false := by
  obtain rfl | ⟨front, c, rfl⟩ := List.eq_nil_or_concat w
  · exact absurd rfl nonempty
  · have last : mayPrecede c = false := plain c (by simp)
    simpa [follows, chars, Glyph.ofChar, frees, char?] using last

/-- No global stands in the name of an access. -/
theorem mayPrecede_of_mem_name {a : Access} {c : Char} (h : c ∈ a.name) : mayPrecede c = false := by
  cases a with
  | member i =>
    rcases List.mem_cons.1 h with rfl | letter
    · decide
    · exact mayPrecede_of_isWord (isWord_of_mem_member i c letter)
  | global i =>
    exact mayPrecede_of_isWord (isWord_of_mem_global i c h)

/-- No access begins inside the name of another one. -/
theorem accessAt_inside {b : Access} {w w' : List Char} {c : Char} (split : b.name = w ++ c :: w')
    (later : w ≠ []) (bound : List String) (free : Bool) (ks : List Cell) :
    accessAt bound (follows free (chars w)) (.char c :: ks) = none := by
  have blocked : follows free (chars w) = false := by
    apply follows_chars later
    intro d mem
    exact mayPrecede_of_mem_name (a := b) (by simp [split, mem])
  have letter : isWord c = true := by
    obtain ⟨d, ds, rfl⟩ := List.exists_cons_of_ne_nil later
    cases b with
    | member i =>
      obtain ⟨_, spelled⟩ := List.cons.inj split
      have mem : c ∈ spelling members i := by simp [spelled]
      exact isWord_of_mem_member i c mem
    | global i =>
      have mem : c ∈ spelling globals i := by
        change c ∈ (Access.global i).name
        simp [split]
      exact isWord_of_mem_global i c mem
  rw [Option.eq_none_iff_forall_ne_some]
  intro a found
  cases a with
  | member i =>
    obtain ⟨_, dot, _⟩ := accessAt_member_iff.1 found
    obtain rfl : c = '.' := Cell.char.inj (List.cons.inj dot).1
    simp [not_isWord_dot] at letter
  | global i =>
    obtain ⟨⟨free, _⟩, _⟩ := accessAt_global_iff.1 found
    simp [blocked] at free

/-- An access that stands behind another one, or at its front, lies after it or is
    where it is. -/
theorem place_cases {bound : List String} {free : Bool} {a b : Access}
    {rest front back : List Cell} (same : chars b.name ++ rest = front ++ (chars a.name ++ back))
    (here : accessAt bound (follows free front) (chars a.name ++ back) = some a) :
    front = [] ∨
      ∃ front', front = chars b.name ++ front' ∧ rest = front' ++ (chars a.name ++ back) := by
  rcases List.append_eq_append_iff.1 same with ⟨front', rfl, after⟩ | ⟨tail, inside, same⟩
  · exact .inr ⟨front', rfl, after⟩
  · obtain ⟨w, w', split, rfl, rfl⟩ := List.map_eq_append_iff.1 inside
    obtain _ | ⟨c, w'⟩ := w'
    · rw [List.append_nil] at split
      refine .inr ⟨[], ?_, ?_⟩
      · rw [split, List.append_nil]
        rfl
      · exact same.symm
    · left
      by_contra later
      have nonempty : w ≠ [] := fun empty => later (by rw [empty]; rfl)
      have miss := accessAt_inside split nonempty bound free (chars w' ++ rest)
      rw [same] at here
      exact absurd (here.symm.trans miss) (Option.some_ne_none a)

/-- The places where some cells are rewritten. -/
theorem usesFrom_split_iff {bound : List String} {free : Bool} {ks front back : List Cell}
    {a : Access} :
    (∃ us vs, usesFrom bound free 0 ks = us ++ .access a :: vs ∧
        us.flatMap Use.source = front ∧ vs.flatMap Use.source = back) ↔
      ks = front ++ (chars a.name ++ back) ∧
        accessAt bound (follows free front) (chars a.name ++ back) = some a := by
  induction free, ks using usesFrom_induction bound generalizing front with
  | nil free =>
    constructor
    · rintro ⟨us, vs, split, _⟩
      simp [usesFrom] at split
    · rintro ⟨empty, _⟩
      simp [chars, a.name_ne_nil] at empty
  | kept free k ks miss ih =>
    rw [usesFrom_kept miss]
    constructor
    · rintro ⟨us, vs, split, rfl, rfl⟩
      obtain _ | ⟨u, us⟩ := us
      · cases split
      · obtain ⟨rfl, rest⟩ := List.cons.inj split
        obtain ⟨same, here⟩ := ih.1 ⟨us, vs, rest, rfl, rfl⟩
        constructor
        · rw [same]
          rfl
        · exact (follows_cons free k _).symm ▸ here
    · rintro ⟨same, here⟩
      obtain _ | ⟨k', front⟩ := front
      · rw [List.nil_append] at same
        rw [follows, ← same, List.getLast?_nil, Option.elim_none, miss] at here
        cases here
      · obtain ⟨rfl, after⟩ := List.cons.inj same
        rw [follows_cons] at here
        obtain ⟨us, vs, rest, rfl, rfl⟩ := ih.2 ⟨after, here⟩
        exact ⟨.kept k :: us, vs, by rw [rest]; rfl, rfl, rfl⟩
  | access free b rest hit ends ih =>
    have onward (front : List Cell) :
        follows free (chars b.name ++ front) = follows false front := by
      rw [follows_append, follows_chars b.name_ne_nil fun _ => mayPrecede_of_mem_name]
    rw [usesFrom_access hit]
    constructor
    · rintro ⟨us, vs, split, rfl, rfl⟩
      obtain _ | ⟨u, us⟩ := us
      · obtain ⟨same, rfl⟩ := List.cons.inj split
        obtain rfl := Use.access.inj same
        rw [sources_usesFrom]
        exact ⟨rfl, hit⟩
      · obtain ⟨rfl, later⟩ := List.cons.inj split
        obtain ⟨same, here⟩ := ih.1 ⟨us, vs, later, rfl, rfl⟩
        rw [List.flatMap_cons, Use.source, onward]
        exact ⟨by rw [same, List.append_assoc], here⟩
    · rintro ⟨same, here⟩
      rcases place_cases same here with rfl | ⟨front', rfl, after⟩
      · rw [same] at hit
        obtain rfl : b = a := Option.some.inj (hit.symm.trans here)
        obtain rfl := List.append_cancel_left same
        exact ⟨[], _, rfl, rfl, sources_usesFrom bound false rest⟩
      · rw [onward] at here
        obtain ⟨us, vs, later, rfl, rfl⟩ := ih.2 ⟨after, here⟩
        exact ⟨.access b :: us, vs, by rw [later]; rfl, rfl, rfl⟩

/-! ### The places in a text -/

/-- Whether shortening rewrites an access between these cells of a text. -/
def Rewrites (s : List Char) (front : List Cell) (a : Access) (back : List Cell) : Prop :=
  ∃ us vs, uses s = us ++ .access a :: vs ∧
    us.flatMap Use.source = front ∧ vs.flatMap Use.source = back

/-- Whether an access stands between these cells of a text, outside literals. -/
structure Stands (s : List Char) (front : List Cell) (a : Access) (back : List Cell) : Prop where
  here : cells s = front ++ (chars a.name ++ back)
  ends : (sources back).head?.any isWord = false
  starts : ∀ i, a = .global i → (sources front).getLast?.all mayPrecede = true
  unbound : ∀ i, a = .global i → globals[i] ∉ shadowed (Literal.protect s).1

instance (s : List Char) (front : List Cell) (a : Access) (back : List Cell) :
    Decidable (Stands s front a back) :=
  decidable_of_iff
    (cells s = front ++ (chars a.name ++ back) ∧ (sources back).head?.any isWord = false ∧
      (∀ i, a = .global i → (sources front).getLast?.all mayPrecede = true) ∧
      ∀ i, a = .global i → globals[i] ∉ shadowed (Literal.protect s).1)
    ⟨fun ⟨here, ends, starts, unbound⟩ => ⟨here, ends, starts, unbound⟩,
      fun ⟨here, ends, starts, unbound⟩ => ⟨here, ends, starts, unbound⟩⟩

/-- At a literal a word ends, and a global may follow. -/
theorem beside_literal {quote : Char} (h : quote ∈ Literal.quotes) :
    isWord quote = false ∧ mayPrecede quote = true := by
  simp only [Literal.quotes, Literal.kinds, List.map_cons, List.map_nil, List.mem_cons,
    List.not_mem_nil, or_false] at h
  rcases h with rfl | rfl | rfl <;> decide

theorem head?_sources {back : List Cell} (known : ∀ l, .literal l ∈ back → Literal.IsLexeme l) :
    (sources back).head?.any isWord = wordNext back := by
  obtain _ | ⟨c | l, back⟩ := back
  · rfl
  · rfl
  · obtain ⟨quote, mem, body, rfl⟩ := (known l List.mem_cons_self).quoted
    simp [sources, Cell.source, wordNext, char?, (beside_literal mem).1]

theorem getLast?_sources {front : List Cell}
    (known : ∀ l, .literal l ∈ front → Literal.IsLexeme l) :
    (sources front).getLast?.all mayPrecede = follows true front := by
  obtain rfl | ⟨front, c | l, rfl⟩ := List.eq_nil_or_concat front
  · rfl
  · simp [sources, Cell.source, follows, frees, char?]
  · obtain ⟨quote, mem, body, rfl⟩ := (known l (by simp)).quoted
    have last : (sources (front ++ [.literal (quote :: (body ++ [quote]))])).getLast?
        = some quote := by
      rw [sources_append]
      simp [sources, Cell.source, List.getLast?_cons]
    simp [last, follows, frees, char?, (beside_literal mem).2]

/-- Exactly the accesses that stand in a text are rewritten. -/
theorem rewrites_iff {s : List Char} {front back : List Cell} {a : Access} :
    Rewrites s front a back ↔ Stands s front a back := by
  have known (split : cells s = front ++ (chars a.name ++ back)) :
      wordNext back = (sources back).head?.any isWord ∧
        follows true front = (sources front).getLast?.all mayPrecede := by
    have lexeme {l : List Char} (mem : .literal l ∈ cells s) : Literal.IsLexeme l :=
      isLexeme_of_mem_cells mem
    rw [split] at lexeme
    constructor
    · exact (head?_sources fun l mem => lexeme (by simp [mem])).symm
    · exact (getLast?_sources fun l mem => lexeme (by simp [mem])).symm
  rw [Rewrites, uses, usesFrom_split_iff]
  constructor
  · rintro ⟨here, found⟩
    obtain ⟨ends, starts⟩ := known here
    cases a with
    | member i =>
      obtain ⟨rest, same, stop⟩ := accessAt_member_iff.1 found
      obtain rfl := List.append_cancel_left same
      refine ⟨here, ends ▸ stop, ?_, ?_⟩
      · intro j same
        cases same
      · intro j same
        cases same
    | global i =>
      obtain ⟨⟨free, unbound⟩, rest, same, stop⟩ := accessAt_global_iff.1 found
      obtain rfl := List.append_cancel_left same
      refine ⟨here, ends ▸ stop, ?_, ?_⟩
      · rintro j ⟨⟩
        rw [← starts]
        exact free
      · rintro j ⟨⟩
        simpa [spelling] using unbound
  · rintro ⟨here, ends, starts, unbound⟩
    obtain ⟨ends', starts'⟩ := known here
    refine ⟨here, ?_⟩
    rw [← ends'] at ends
    cases a with
    | member i => exact accessAt_member_iff.2 ⟨back, rfl, ends⟩
    | global i =>
      refine accessAt_global_iff.2 ⟨⟨?_, ?_⟩, back, rfl, ends⟩
      · rw [starts']
        exact starts i rfl
      · have named := unbound i rfl
        simpa [spelling] using named

/-! ### Literals and comments -/

/-- Whether a character of a script lies in a literal, where the quotes in comments
    open none. -/
def InLiteral (s : List Char) (n : Nat) : Prop :=
  ∃ ps l qs, parts s = ps ++ .hit .literal l :: qs ∧
    (ps.flatMap Piece.source).length ≤ n ∧ n < (ps.flatMap Piece.source).length + l.length

/-- If no literal seems to begin in a comment, the characters outside literals are
    outside those of the script. -/
theorem not_inLiteral {s : List Char} (read : cells s = (parts s).flatMap partCells)
    {front back : List Cell} {c : Char} (split : cells s = front ++ .char c :: back) :
    ¬ InLiteral s (sources front).length := by
  rintro ⟨ps, l, qs, found, start, stop⟩
  have lexeme : Literal.IsLexeme l := isLexeme_of_mem_parts (s := s) (by simp [found])
  have single : partCells (.hit .literal l) = [.literal l] := cells_lexeme lexeme
  rw [← sources_flatMap_partCells] at start stop
  rw [read, found, List.flatMap_append, List.flatMap_cons, single] at split
  rcases List.append_eq_append_iff.1 split with ⟨between, rfl, same⟩ | ⟨between, same, after⟩
  · -- the literal lies before the character
    obtain _ | ⟨k, between⟩ := between
    · cases same
    · obtain ⟨rfl, _⟩ := List.cons.inj same
      simp [sources, Cell.source] at stop
  · -- the literal lies after the character
    obtain _ | ⟨k, between⟩ := between
    · cases after
    · obtain ⟨rfl, _⟩ := List.cons.inj after
      simp [same, sources, Cell.source] at start

/-! ### References -/

/-- The last character of a text that is not blank. -/
def lastVisible (s : List Char) : Option Char := (s.filter fun c => !isBlank c).getLast?

/-- The first character of a text that is not blank. -/
def firstVisible (s : List Char) : Option Char := (s.filter fun c => !isBlank c).head?

/-- The dot before a member. -/
def Access.lead : Access → List Char
  | member _ => ['.']
  | global _ => []

/-- Whether an access between two texts lies outside the literals of the script. -/
def Outside (before : List Char) (a : Access) (after : List Char) : Prop :=
  ∀ n, n < a.name.length → ¬ InLiteral (before ++ (a.name ++ after)) (before.length + n)

/-- Whether what stands between two texts is the key of a property. -/
def IsKey (before after : List Char) : Prop :=
  (lastVisible before = some '\x7b' ∨ lastVisible before = some ',') ∧ firstVisible after = some ':'

instance (before after : List Char) : Decidable (IsKey before after) :=
  inferInstanceAs (Decidable (_ ∧ _))

/-- Whether the name between two texts is a whole identifier outside literals; a
    global is neither a member of something nor a key. -/
structure IsReference (before : List Char) (a : Access) (after : List Char) : Prop where
  begins : (before ++ a.lead).getLast?.any isIdentPart = false
  ends : after.head?.any isIdentPart = false
  outside : Outside before a after
  notMember : ∀ i, a = .global i → lastVisible before ≠ some '.'
  notKey : ∀ i, a = .global i → ¬ IsKey before after

theorem Stands.outside {s : List Char} {front back : List Cell} {a : Access}
    (h : Stands s front a back) (read : cells s = (parts s).flatMap partCells) :
    Outside (sources front) a (sources back) := by
  intro n inside
  have text : sources front ++ (a.name ++ sources back) = s := by
    rw [← sources_cells s, h.here, sources_append, sources_append, sources_chars]
  obtain ⟨c, name⟩ : ∃ c, a.name.drop n = c :: a.name.drop (n + 1) :=
    ⟨_, List.drop_eq_getElem_cons inside⟩
  have split : cells s = (front ++ chars (a.name.take n))
      ++ .char c :: (chars (a.name.drop (n + 1)) ++ back) := by
    have parted : chars a.name
        = chars (a.name.take n) ++ Cell.char c :: chars (a.name.drop (n + 1)) := by
      conv_lhs => rw [← List.take_append_drop n a.name, name]
      simp [chars, Glyph.ofChar]
    simp [h.here, parted]
  have place : (sources (front ++ chars (a.name.take n))).length = (sources front).length + n := by
    rw [sources_append, sources_chars, List.length_append, List.length_take]
    omega
  rw [text, ← place]
  exact not_inLiteral read split

/-- A rewritten access has no word character beside it, and a global no dollar sign
    or dot before it. -/
theorem Stands.begins {s : List Char} {front back : List Cell} {a : Access}
    (h : Stands s front a back) : (sources front ++ a.lead).getLast?.any isIdentPart = false := by
  cases a with
  | member i => simp [Access.lead, isIdentPart, not_isWord_dot]
  | global i =>
    have starts := h.starts i rfl
    rw [Access.lead, List.append_nil]
    cases last : (sources front).getLast? with
    | none => rfl
    | some c =>
      rw [last] at starts
      simp [mayPrecede] at starts
      simp [isIdentPart, starts]

theorem Stands.ends_iff {s : List Char} {front back : List Cell} {a : Access}
    (h : Stands s front a back) :
    (sources back).head?.any isIdentPart = false ↔ (sources back).head? ≠ some '$' := by
  have ends := h.ends
  cases next : (sources back).head? with
  | none => simp
  | some c =>
    rw [next] at ends
    have plain : isWord c = false := by simpa using ends
    simp [isIdentPart, plain]

theorem Stands.isReference_iff {s : List Char} {front back : List Cell} {a : Access}
    (h : Stands s front a back) :
    IsReference (sources front) a (sources back) ↔
      (sources back).head? ≠ some '$' ∧ Outside (sources front) a (sources back) ∧
        ∀ i, a = .global i → lastVisible (sources front) ≠ some '.' ∧
          ¬ IsKey (sources front) (sources back) := by
  constructor
  · intro reference
    refine ⟨h.ends_iff.1 reference.ends, reference.outside, fun i same => ?_⟩
    exact ⟨reference.notMember i same, reference.notKey i same⟩
  · rintro ⟨noDollar, outside, global⟩
    exact {
      begins := h.begins
      ends := h.ends_iff.2 noDollar
      outside := outside
      notMember := fun i same => (global i same).1
      notKey := fun i same => (global i same).2 }

/-- Shortened code consists of what is kept and of accesses, and the accesses are
    the members and globals that stand in the code.  Each of them is a reference
    exactly if no dollar sign follows it, it lies outside literals, which it does if
    no literal seems to begin in a comment, and, for a global, if neither a dot and
    blanks stand before it nor it is the key of a property. -/
theorem rewritten_reference_iff (code : String) :
    (shorten code).toList = declaration.toList
        ++ Literal.restore (Literal.protect code.toList).2 (written 0 (uses code.toList)) ∧
      (Unreserved (cells code.toList) → (shorten code).toList = declaration.toList
        ++ (uses code.toList).flatMap (Use.outcome Cell.source)) ∧
      (uses code.toList).flatMap Use.source = cells code.toList ∧
      (∀ front a back, Rewrites code.toList front a back ↔ Stands code.toList front a back) ∧
      ∀ front a back, Rewrites code.toList front a back →
        (IsReference (sources front) a (sources back) ↔
          (sources back).head? ≠ some '$' ∧ Outside (sources front) a (sources back) ∧
            ∀ i, a = .global i → lastVisible (sources front) ≠ some '.' ∧
              ¬ IsKey (sources front) (sources back)) ∧
        (cells code.toList = (parts code.toList).flatMap partCells →
          Outside (sources front) a (sources back)) := by
  have text : (shorten code).toList = declaration.toList ++ body code.toList := by
    rw [shorten, String.toList_append, String.toList_ofList]
  refine ⟨?_, ?_, sources_usesFrom _ _ _, fun _ _ _ => rewrites_iff, ?_⟩
  · rw [text, body_eq]
  · intro unreserved
    rw [text, body_eq_outcomes unreserved]
  · intro front a back rewritten
    have stands := rewrites_iff.1 rewritten
    exact ⟨stands.isReference_iff, stands.outside⟩

/-- Some code up to a global after a literal, with names in a comment and in
    literals. -/
def labelled : String := "f('top', /* \"top\" */ e0.className, 'self'+"

theorem labelled_self_is_reference :
    Unreserved (cells (labelled ++ "self);").toList) ∧
      cells (labelled ++ "self);").toList
        = (parts (labelled ++ "self);").toList).flatMap partCells ∧
      Rewrites (labelled ++ "self);").toList (cells labelled.toList) (.global ⟨3, by decide⟩)
        (chars ");".toList) ∧
      (shorten (labelled ++ "self);")).toList = declaration.toList
        ++ (uses (labelled ++ "self);").toList).flatMap (Use.outcome Cell.source) ∧
      IsReference (sources (cells labelled.toList)) (.global ⟨3, by decide⟩)
        (sources (chars ");".toList)) := by
  have unreserved : Unreserved (cells (labelled ++ "self);").toList) := by
    unfold Unreserved
    decide +kernel
  have read : cells (labelled ++ "self);").toList
      = (parts (labelled ++ "self);").toList).flatMap partCells := by decide +kernel
  obtain ⟨_, written, _, places, references⟩ := rewritten_reference_iff (labelled ++ "self);")
  have rewritten := (places (cells labelled.toList) (.global ⟨3, by decide⟩)
    (chars ");".toList)).2 (by decide +kernel)
  obtain ⟨reference, outside⟩ := references _ _ _ rewritten
  refine ⟨unreserved, read, rewritten, written unreserved, reference.2 ⟨?_, outside read, ?_⟩⟩
  · decide
  · intro i _
    decide +kernel

/-- Whether code is shortened to this text and something in it is rewritten that is
    no reference. -/
def Strays (code text : String) : Prop :=
  shorten code = declaration ++ text ∧ ∃ front a back, Rewrites code.toList front a back ∧
    ¬ IsReference (sources front) a (sources back)

/-- A dollar sign goes on with a name; a global is a key, a member after a blank, or
    stands in a literal after a quote in a comment. -/
theorem rewritten_but_no_reference :
    Strays "document$x = 1;" "$g[0]$x = 1;" ∧ Strays "e0.className$x;" "e0[$m[8]]$x;" ∧
      Strays "f(\x7btop: 1\x7d);" "f(\x7b$g[4]: 1\x7d);" ∧ Strays "e0. self;" "e0. $g[3];" ∧
      Strays "/* it's */ f('top');" "/* it's */ f('$g[4]');" := by
  refine ⟨⟨by decide +kernel, [], .global ⟨0, by decide⟩, chars "$x = 1;".toList, ?_, ?_⟩,
    ⟨by decide +kernel, chars "e0".toList, .member ⟨8, by decide⟩, chars "$x;".toList, ?_, ?_⟩,
    ⟨by decide +kernel, chars "f(\x7b".toList, .global ⟨4, by decide⟩, chars ": 1\x7d);".toList,
      ?_, ?_⟩,
    ⟨by decide +kernel, chars "e0. ".toList, .global ⟨3, by decide⟩, chars ";".toList, ?_, ?_⟩,
    ⟨by decide +kernel, cells "/* it's */ f('".toList, .global ⟨4, by decide⟩,
      cells "');".toList, ?_, ?_⟩⟩
  · exact rewrites_iff.2 (by decide +kernel)
  · exact fun reference => absurd reference.ends (by decide)
  · exact rewrites_iff.2 (by decide +kernel)
  · exact fun reference => absurd reference.ends (by decide)
  · exact rewrites_iff.2 (by decide +kernel)
  · exact fun reference => reference.notKey _ rfl (by decide +kernel)
  · exact rewrites_iff.2 (by decide +kernel)
  · exact fun reference => reference.notMember _ rfl (by decide +kernel)
  · exact rewrites_iff.2 (by decide +kernel)
  · intro reference
    apply reference.outside 0 (by decide)
    exact ⟨(parts "/* it's */ f('top');".toList).take 4, "'top'".toList,
      (parts "/* it's */ f('top');".toList).drop 5, by decide +kernel⟩

end PageTree.NameTable
