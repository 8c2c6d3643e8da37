/-
  PageTree/Proofs/Shortening/Binders.lean
  =======================================
  **Where a script binds names.**

  A name is bound by a declarator, the first one or a later one, by a pattern, by
  a parameter of a function or of an arrow, and by the declaration of a function.
  The places are read off the cells of a script, that is outside literals.

    * `Target`, `Binds`: the binding forms; of those that are `seen`, the list or
      pattern ends at the first closing bracket, and nothing is declared before it
      by the same keyword;
    * `Target.whole`: the name that is bound stands in the list as a whole
      identifier.
-/
import Mathlib
import PageTree.Proofs.Identifiers
import PageTree.Proofs.Shortening.References

namespace PageTree.NameTable

open Text Compaction
open Glyph (chars char?)

/-! ### Lists of bindings -/

/-- Whether the brackets of some cells match, of which `depth` are open before, and
    none of `stops` stands outside brackets. -/
def closed (stops : List Char) : Nat → List Cell → Bool
  | depth, [] => depth == 0
  | depth, .literal _ :: ks => closed stops depth ks
  | depth, .char c :: ks =>
    if ['(', '[', '\x7b'].contains c then closed stops (depth + 1) ks
    else if [')', ']', '\x7d'].contains c then 0 < depth && closed stops (depth - 1) ks
    else (0 < depth || !stops.contains c) && closed stops depth ks

/-- The items of a list up to the comma after one of them, blanks around them
    included. -/
inductive Items (stops : List Char) : List Cell → Prop
  | none : Items stops []
  | snoc {ks : List Cell} {before : List Char} {item : List Cell} {after : List Char} :
    Items stops ks → before.all isBlank = true → closed (',' :: stops) 0 item = true →
      after.all isBlank = true →
      Items stops (ks ++ (chars before ++ (item ++ (chars after ++ [.char ',']))))

/-- The brackets of patterns. -/
def patternBrackets : List (Char × Char) := [('\x7b', '\x7d'), ('[', ']')]

/-- What may follow an item of a list. -/
def Later (ks : List Cell) : Prop :=
  ks = [] ∨ ∃ others, ks = .char ',' :: others ∧ closed [] 0 others = true

/-- Texts that bind a name: the name, with blanks, dots or a key before it or a
    default after it, and patterns around such a text. -/
inductive Target (w : List Char) : List Cell → Prop
  | name : Target w (chars w)
  | afterBlank {c : Char} {ks : List Cell} : isBlank c = true → Target w ks →
    Target w (.char c :: ks)
  | beforeBlank {c : Char} {ks : List Cell} : isBlank c = true → Target w ks →
    Target w (ks ++ [.char c])
  | rest {ks : List Cell} : Target w ks → Target w (chars "...".toList ++ ks)
  | property {key ks : List Cell} : closed [',', '=', '?', ':'] 0 key = true → Target w ks →
    Target w (key ++ .char ':' :: ks)
  | default {ks value : List Cell} : Target w ks → closed [','] 0 value = true →
    Target w (ks ++ .char '=' :: value)
  | pattern {opens closes : Char} {items ks later : List Cell} :
    (opens, closes) ∈ patternBrackets → Items [] items → Target w ks → Later later →
      Target w (.char opens :: (items ++ (ks ++ later)) ++ [.char closes])

/-- Lists of bindings of which one binds a name. -/
def Listed (w : List Char) (ks : List Cell) : Prop :=
  ∃ items target later, ks = items ++ (target ++ later) ∧ Items [] items ∧ Target w target ∧
    Later later

/-! ### Whole identifiers -/

/-- Whether an identifier goes on before the end of some cells. -/
def partBefore (ks : List Cell) : Bool := (ks.getLast?.bind char?).any isIdentPart

/-- Whether an identifier goes on at the front of some cells. -/
def partNext (ks : List Cell) : Bool := (ks.head?.bind char?).any isIdentPart

/-- Whether a name stands in some cells with no part of an identifier beside it. -/
def Whole (w : List Char) (ks : List Cell) : Prop :=
  ∃ x y, ks = x ++ (chars w ++ y) ∧ partBefore x = false ∧ partNext y = false

theorem whole_chars (w : List Char) : Whole w (chars w) := ⟨[], [], by simp, rfl, rfl⟩

theorem Whole.prepend {w : List Char} {front ks : List Cell} (ends : partBefore front = false)
    (h : Whole w ks) : Whole w (front ++ ks) := by
  obtain ⟨x, y, rfl, before, next⟩ := h
  refine ⟨front ++ x, y, (List.append_assoc ..).symm, ?_, next⟩
  obtain rfl | ⟨x, k, rfl⟩ := List.eq_nil_or_concat x
  · rwa [List.append_nil]
  · simpa [partBefore, ← List.append_assoc] using before

theorem Whole.append {w : List Char} {ks back : List Cell} (starts : partNext back = false)
    (h : Whole w ks) : Whole w (ks ++ back) := by
  obtain ⟨x, y, rfl, before, next⟩ := h
  refine ⟨x, y ++ back, by simp only [List.append_assoc], before, ?_⟩
  cases y with
  | nil => exact starts
  | cons k y => exact next

theorem Items.ends {stops : List Char} {items : List Cell} (h : Items stops items) :
    partBefore items = false := by
  cases h with
  | none => rfl
  | snoc =>
    have comma : isIdentPart ',' = false := by decide
    simpa [partBefore, ← List.append_assoc, char?] using comma

theorem Later.starts {ks : List Cell} (h : Later ks) : partNext ks = false := by
  obtain rfl | ⟨others, rfl, _⟩ := h
  · rfl
  · have comma : isIdentPart ',' = false := by decide
    simpa [partNext, char?] using comma

/-- A name that is bound in a text stands in it. -/
theorem Target.whole {w : List Char} {ks : List Cell} (h : Target w ks) : Whole w ks := by
  have alone {c : Char} (plain : isIdentPart c = false) :
      partBefore [.char c] = false ∧ ∀ ks, partNext (.char c :: ks) = false := by
    simp [partBefore, partNext, char?, plain]
  induction h with
  | name => exact whole_chars w
  | afterBlank blank _ ih => exact ih.prepend (alone (not_isIdentPart_of_isBlank blank)).1
  | beforeBlank blank _ ih => exact ih.append ((alone (not_isIdentPart_of_isBlank blank)).2 [])
  | rest _ ih => exact ih.prepend (by decide)
  | @property key ks _ _ ih =>
    have colon : partBefore (key ++ [.char ':']) = false := by
      have plain : isIdentPart ':' = false := by decide
      simpa [partBefore, char?] using plain
    have whole := ih.prepend colon
    rwa [List.append_assoc] at whole
  | default _ _ ih => exact ih.append ((alone (by decide)).2 _)
  | @pattern opens closes items ks later brackets before _ after ih =>
    have plain : ∀ b ∈ patternBrackets, isIdentPart b.1 = false ∧ isIdentPart b.2 = false := by
      decide
    obtain ⟨plainOpens, plainCloses⟩ := plain _ brackets
    have list := (ih.append after.starts).prepend before.ends
    exact (list.prepend (alone plainOpens).1).append ((alone plainCloses).2 [])

theorem Listed.whole {w : List Char} {ks : List Cell} (h : Listed w ks) : Whole w ks := by
  obtain ⟨items, target, later, rfl, before, bound, after⟩ := h
  exact (bound.whole.append after.starts).prepend before.ends

/-! ### Binding forms -/

/-- Whether an identifier that begins after some cells is a word of its own, and no
    member. -/
def Fresh (front : List Cell) : Prop :=
  partBefore front = false ∧ lastVisible (sources front) ≠ some '.'

/-- The keywords of declarations. -/
def keywords : List (List Char) := ["const".toList, "let".toList, "var".toList]

/-- The ways to bind a name at a place of a script.  Those that are `seen` are the
    first declarator, if a blank stands before it, and lists without a bracket that
    might end them; no declaration of a function is among them. -/
inductive Binds (seen : Bool) (w : List Char) (front : List Cell) : List Cell → Prop
  | name {keyword : List Char} {items : List Cell} {gap : List Char} {back : List Cell} :
    keyword ∈ keywords → Fresh front → Items [';', '\n'] items → gap.all isBlank = true →
      partNext (items ++ chars gap ++ chars w) = false → partNext back = false →
      (seen = true → items = []) →
      Binds seen w front (chars keyword ++ (items ++ (chars gap ++ (chars w ++ back))))
  | pattern {keyword : List Char} {items : List Cell} {gap : List Char} {opens closes : Char}
      {inner back : List Cell} :
    keyword ∈ keywords → Fresh front → Items [';', '\n'] items → gap.all isBlank = true →
      partNext (items ++ chars gap) = false → (opens, closes) ∈ patternBrackets → Listed w inner →
      (seen = true → items = [] ∧ gap ≠ [] ∧ .char closes ∉ inner) →
      Binds seen w front (chars keyword
        ++ (items ++ (chars gap ++ (.char opens :: (inner ++ .char closes :: back)))))
  | function {gap gap' : List Char} {back : List Cell} :
    Fresh front → lastVisible (sources front) ∈ [none, some ';', some '\x7b', some '\x7d'] →
      gap ≠ [] → gap.all isBlank = true → gap'.all isBlank = true → seen = false →
      Binds seen w front
        (chars "function".toList ++ (chars gap ++ (chars w ++ (chars gap' ++ .char '(' :: back))))
  | parameter {name : List Char} {inner back : List Cell} :
    Fresh front → name.all (fun c => isBlank c || c == '*' || isIdentPart c) = true →
      name.head?.any isIdentPart = false → Listed w inner → (seen = true → .char ')' ∉ inner) →
      Binds seen w front
        (chars "function".toList ++ (chars name ++ (.char '(' :: (inner ++ .char ')' :: back))))
  | arrowList {inner : List Cell} {gap : List Char} {back : List Cell} :
    Listed w inner → gap.all isBlank = true →
      (seen = true → .char '(' ∉ inner ∧ .char ')' ∉ inner) →
      Binds seen w front
        (.char '(' :: (inner ++ .char ')' :: (chars gap ++ (chars "=>".toList ++ back))))
  | arrow {gap : List Char} {back : List Cell} :
    partBefore front = false → gap.all isBlank = true →
      Binds seen w front (chars w ++ (chars gap ++ (chars "=>".toList ++ back)))

end PageTree.NameTable
