/-
  PageTree/Proofs/Markup/Minified.lean
  ====================================
  **What minified markup keeps.**

  Minified markup has lost the comments of the markup, wherever they stand: a text
  that reads like a comment of a script is lost as well, and so are the tags up to
  the end of its line.  Everything else but blanks is kept.  So nothing is lost
  from a page whose texts and attribute values open no comment.

    * `opensNone`: a check that goes through a text character by character;
    * `Content.opensNone_written`: quiet pages pass it;
    * `minified_markup`: what is kept;
    * `minified_text_lost`: a text that is not.
-/
import PageTree.Proofs.Compaction.Repetition
import PageTree.Proofs.Markup.Decoding
import PageTree.Proofs.Markup.Written

namespace PageTree

open Compaction Compaction.Glyph Escape

/-! ### Texts that open no comment -/

/-- Whether the third of three characters completes the opening of a comment. -/
def opensAt (before : Option Char) (x y : Char) : Bool :=
  x == '/' && (y == '*' || y == '/' && opensLine before) || x == '<' && y == '!'

/-- Whether no comment is opened in the rest of a text, given the two characters
    before it. -/
def opensNone : Option Char → Option Char → List Char → Bool
  | _, _, [] => true
  | before, x, y :: ys => !x.any (opensAt before · y) && opensNone x (some y) ys

/-- What a text must not contain if it is to be kept as it is: `/*`, two slashes
    that do not follow a colon or a backslash, and the character that opens a
    placeholder. -/
structure Quiet (s : List Char) : Prop where
  noBlock : ¬ chars "/*".toList <:+: s
  noLine : ¬ HasLineComment none s
  unreserved : Literal.opening ∉ s

theorem not_infix_of_opensNone {before x : Option Char} {s : List Char}
    (h : opensNone before x s = true) :
    (¬ chars "/*".toList <:+: s ∧ ¬ chars "<!--".toList <:+: s) ∧ ¬ HasLineComment x s := by
  induction s generalizing before x with
  | nil =>
    refine ⟨⟨?_, ?_⟩, ?_⟩
    · intro found
      exact absurd (List.infix_nil.1 found) (List.cons_ne_nil _ _)
    · intro found
      exact absurd (List.infix_nil.1 found) (List.cons_ne_nil _ _)
    · rintro ⟨front, rest, split, _⟩
      simp [chars] at split
  | cons y ys ih =>
    obtain ⟨_, onward⟩ := Bool.and_eq_true_iff.1 h
    obtain ⟨⟨noBlock, noMarkup⟩, noLine⟩ := ih onward
    have next {z : Char} {zs : List Char} (split : ys = z :: zs) : opensAt x y z = false := by
      subst split
      obtain ⟨closed, _⟩ := Bool.and_eq_true_iff.1 onward
      simpa using closed
    refine ⟨⟨?_, ?_⟩, ?_⟩
    · intro found
      rcases List.infix_cons_iff.1 found with ⟨rest, here⟩ | later
      · have split : '/' :: '*' :: rest = y :: ys := here
        obtain ⟨rfl, star⟩ := List.cons.inj split
        exact absurd (next star.symm) (by simp [opensAt])
      · exact noBlock later
    · intro found
      rcases List.infix_cons_iff.1 found with ⟨rest, here⟩ | later
      · have split : '<' :: '!' :: '-' :: '-' :: rest = y :: ys := here
        obtain ⟨rfl, bang⟩ := List.cons.inj split
        exact absurd (next bang.symm) (by simp [opensAt])
      · exact noMarkup later
    · intro found
      rcases hasLineComment_cons.1 found with here | later
      · obtain ⟨⟨rest, here⟩, opens⟩ := opensHere_iff.1 here
        have split : y :: ys = '/' :: '/' :: rest := here
        obtain ⟨rfl, slash⟩ := List.cons.inj split
        exact absurd (next slash) (by simp [opensAt, opens])
      · exact noLine later

theorem opensLine_of_quote {c : Char} (h : c ∈ Literal.quotes) : opensLine (some c) = true := by
  simp only [Literal.quotes, Literal.kinds, List.map_cons, List.map_nil, List.mem_cons,
    List.not_mem_nil, or_false] at h
  rcases h with rfl | rfl | rfl <;> rfl

/-- Quiet texts can be found by the check. -/
theorem quiet_of_opensNone {s : List Char} (h : opensNone none none s = true)
    (unreserved : Literal.opening ∉ s) : Quiet s :=
  ⟨(not_infix_of_opensNone h).1.1, (not_infix_of_opensNone h).2, unreserved⟩

/-- What opens no comment in a text opens none in its cells, since a literal ends
    with a quote. -/
theorem not_hasComment_cells {s : List Char} (h : opensNone none none s = true) :
    ¬ HasComment (cells s) := by
  obtain ⟨⟨noBlock, noMarkup⟩, noLine⟩ := not_infix_of_opensNone h
  have sameChars (word : List Char) : (chars word : List Char) = word := List.map_id word
  rw [sameChars] at noBlock noMarkup
  rintro (markup | block | ⟨front, rest, split, opens⟩)
  · exact noMarkup (infix_of_cells markup.infix)
  · exact noBlock (infix_of_cells block.infix)
  · refine noLine ⟨sources front, sources rest, ?_, ?_⟩
    · rw [← sources_cells s, split, sources_append, sources_append, sources_chars, sameChars]
    · rcases List.eq_nil_or_concat front with rfl | ⟨first, k, rfl⟩
      · rfl
      · have mem : k ∈ cells s := by
          rw [split]
          simp
        rw [List.concat_eq_append] at opens ⊢
        rw [List.getLast?_concat] at opens
        cases k with
        | char c =>
          have text : sources (first ++ [.char c]) = sources first ++ [c] := sources_append _ _
          rw [text, List.getLast?_concat]
          exact opens
        | literal l =>
          obtain ⟨quote, isQuote, body, rfl⟩ := (isLexeme_of_mem_cells mem).quoted
          have text : sources (first ++ [.literal (quote :: (body ++ [quote]))])
              = sources first ++ quote :: body ++ [quote] := by
            rw [sources_append]
            simp [sources, Cell.source]
          rw [text, List.getLast?_concat]
          exact opensLine_of_quote isQuote

/-! ### Steps of the check -/

/-- The characters at which it matters what stands before or after them. -/
def delicate : List Char := ['/', '<', '*', '!', ':', '\\']

theorem opensNone_of_ne {y : Char} (plain : y ≠ '/') (before before' : Option Char)
    (s : List Char) : opensNone before (some y) s = opensNone before' (some y) s := by
  cases s with
  | nil => rfl
  | cons z s =>
    have other : (y == '/') = false := beq_eq_false_iff_ne.2 plain
    simp only [opensNone, Option.any_some, opensAt, other, Bool.false_and, Bool.false_or]

theorem opensNone_congr {before before' : Option Char}
    (same : opensLine before = opensLine before') (x : Option Char) (s : List Char) :
    opensNone before x s = opensNone before' x s := by
  cases s with
  | nil => rfl
  | cons z s => simp only [opensNone, opensAt, same]

/-- After a plain character the check begins anew. -/
theorem opensNone_plain {y : Char} (plain : y ∉ delicate) (before x : Option Char) (s : List Char) :
    opensNone before x (y :: s) = opensNone none none s := by
  simp only [delicate, List.mem_cons, List.not_mem_nil, or_false, not_or] at plain
  obtain ⟨notSlash, notOpen, notStar, notBang, notColon, notBackslash⟩ := plain
  have here : x.any (opensAt before · y) = false := by
    cases x <;> simp [opensAt, notSlash, notStar, notBang]
  rw [opensNone, here, Bool.not_false, Bool.true_and]
  cases s with
  | nil => rfl
  | cons z s =>
    have opens : opensLine (some y) = opensLine (none : Option Char) := by
      simp [opensLine, notColon, notBackslash]
    have passed : opensAt x y z = false := by simp [opensAt, notSlash, notOpen]
    rw [opensNone, opensNone, Option.any_some, passed, opensNone_congr opens]
    rfl

theorem opensNone_plains {ys : List Char} (nonempty : ys ≠ []) (plain : ∀ y ∈ ys, y ∉ delicate)
    (before x : Option Char) (s : List Char) :
    opensNone before x (ys ++ s) = opensNone none none s := by
  induction ys generalizing before x with
  | nil => exact absurd rfl nonempty
  | cons y ys ih =>
    rw [List.cons_append, opensNone_plain (plain y List.mem_cons_self)]
    cases ys with
    | nil => rfl
    | cons z ys => exact ih nofun (fun y' mem => plain y' (List.mem_cons_of_mem y mem)) none none

theorem opensNone_lt (before x : Option Char) (s : List Char) :
    opensNone before x ('<' :: s) = opensNone none (some '<') s := by
  have here : x.any (opensAt before · '<') = false := by cases x <;> simp [opensAt]
  rw [opensNone, here]
  exact opensNone_of_ne (by decide) x none s

/-! ### Escaped text -/

/-- An escaping writes a character as it is, or as a reference that ends with a
    semicolon. -/
structure Escaping (e : Char → List Char) : Prop where
  shape : ∀ c, (e c = [c] ∧ c ≠ '<') ∨
    (opensLine (some c) = opensLine (none : Option Char) ∧ e c ≠ [] ∧ ∀ y ∈ e c, y ∉ delicate)

theorem escaping_contentChar : Escaping contentChar where
  shape c := by
    by_cases special : c ∈ ['&', '<', '>', '"', '\'']
    · simp only [List.mem_cons, List.not_mem_nil, or_false] at special
      rcases special with rfl | rfl | rfl | rfl | rfl <;>
        exact .inr ⟨rfl, nofun, forall_mem_of_all (by decide)⟩
    · simp only [List.mem_cons, List.not_mem_nil, or_false, not_or] at special
      exact .inl ⟨by simp [contentChar, special], special.2.1⟩

theorem escaping_attributeChar : Escaping attributeChar where
  shape c := by
    by_cases special : c ∈ ['&', '"', '<', '>']
    · simp only [List.mem_cons, List.not_mem_nil, or_false] at special
      rcases special with rfl | rfl | rfl | rfl <;>
        exact .inr ⟨rfl, nofun, forall_mem_of_all (by decide)⟩
    · simp only [List.mem_cons, List.not_mem_nil, or_false, not_or] at special
      exact .inl ⟨by simp [attributeChar, special], special.2.2.1⟩

/-- A tag begins, a value ends, or the text ends. -/
def Stops (t : List Char) : Prop := t = [] ∨ ∃ y ∈ ['<', '"'], ∃ rest, t = y :: rest

theorem Stops.opensNone_eq {t : List Char} (h : Stops t) (before x : Option Char) :
    opensNone before x t = opensNone none none t := by
  rcases h with rfl | ⟨y, mem, rest, rfl⟩
  · rfl
  · simp only [List.mem_cons, List.not_mem_nil, or_false] at mem
    rcases mem with rfl | rfl
    · rw [opensNone_lt, opensNone_lt]
    · rw [opensNone_plain (by decide), opensNone_plain (by decide)]

theorem hasLineComment_congr {before before' : Option Char}
    (same : opensLine before = opensLine before') {s : List Char} (h : HasLineComment before s) :
    HasLineComment before' s := by
  obtain ⟨front, rest, split, opens⟩ := h
  refine ⟨front, rest, split, ?_⟩
  cases last : front.getLast? with
  | none =>
    rw [last] at opens
    exact same ▸ opens
  | some c =>
    rw [last] at opens
    exact opens

/-- What stands before escaped text does not go together with it. -/
structure Unopened (before x : Option Char) (s : List Char) : Prop where
  noBlock : ¬ chars "/*".toList <:+: s
  noLine : ¬ HasLineComment x s
  noMarkup : x ≠ some '<'
  noStar : x = some '/' → s.head? ≠ some '*'
  noSlash : x = some '/' → s.head? = some '/' → opensLine before = false

theorem opensNone_escaped {e : Char → List Char} (escaping : Escaping e) {s t : List Char}
    (stops : Stops t) {before x : Option Char} (h : Unopened before x s) :
    opensNone before x (s.flatMap e ++ t) = opensNone none none t := by
  induction s generalizing before x with
  | nil => exact stops.opensNone_eq before x
  | cons c cs ih =>
    have noBlock : ¬ chars "/*".toList <:+: cs := fun found =>
      h.noBlock (found.trans (List.suffix_cons c cs).isInfix)
    obtain ⟨notHere, noLine⟩ := not_or.1 (hasLineComment_cons.not.1 h.noLine)
    rw [List.flatMap_cons, List.append_assoc]
    rcases escaping.shape c with ⟨kept, notOpen⟩ | ⟨opens, nonempty, plain⟩
    · have passed : x.any (opensAt before · c) = false := by
        refine Bool.eq_false_iff.2 fun found => ?_
        obtain ⟨x, rfl, trouble⟩ := (Option.any_eq_true _ _).1 found
        have notMarkup : x ≠ '<' := fun same => h.noMarkup (by rw [same])
        have slash : x = '/' := by
          by_contra other
          simp [opensAt, other, notMarkup] at trouble
        subst slash
        have notStar : c ≠ '*' := fun same => h.noStar rfl (by rw [same]; rfl)
        have opens : c = '/' ∧ opensLine before = true := by
          simpa [opensAt, notStar] using trouble
        have closed := h.noSlash rfl (by rw [opens.1]; rfl)
        rw [opens.2] at closed
        cases closed
      rw [kept, List.singleton_append, opensNone, passed]
      refine ih ⟨noBlock, noLine, by simpa using notOpen, ?_, ?_⟩
      · intro slash star
        obtain ⟨rest, rfl⟩ := List.head?_eq_some_iff.1 star
        obtain rfl := Option.some.inj slash
        exact h.noBlock ⟨[], rest, rfl⟩
      · intro slash again
        obtain ⟨rest, rfl⟩ := List.head?_eq_some_iff.1 again
        obtain rfl := Option.some.inj slash
        refine Bool.eq_false_iff.2 fun opens => notHere ?_
        rw [opens]
        rfl
    · rw [opensNone_plains nonempty plain]
      exact ih ⟨noBlock, fun found => noLine (hasLineComment_congr opens.symm found), nofun, nofun,
        nofun⟩

/-! ### Tags -/

/-- The characters of names. -/
def IsSymbol (c : Char) : Prop := c.isAlphanum = true ∨ c = '-'

theorem IsSymbol.ne {c d : Char} (h : IsSymbol c) (other : d.isAlphanum = false)
    (hyphen : d ≠ '-') : c ≠ d := by
  rcases h with alphanum | rfl
  · exact ne_of_isAlphanum alphanum other
  · exact hyphen.symm

theorem IsSymbol.plain {c : Char} (h : IsSymbol c) : c ∉ delicate := by
  have apart : ∀ d ∈ delicate, d.isAlphanum = false ∧ d ≠ '-' := forall_mem_of_all (by decide)
  intro mem
  exact h.ne (apart c mem).1 (apart c mem).2 rfl

theorem Quiet.unopened {s : List Char} (h : Quiet s) : Unopened none none s :=
  ⟨h.noBlock, h.noLine, nofun, nofun, nofun⟩

theorem opensNone_attribute {a : ReadAttribute} (name : ∀ c ∈ a.1.toList, IsSymbol c)
    (value : ∀ v ∈ a.2, Quiet v.toList) (t : List Char) :
    opensNone none none ((attributeMarkup a).toList ++ t) = opensNone none none t := by
  obtain ⟨key, value?⟩ := a
  have blank : ' ' ∉ delicate := by decide
  cases value? with
  | none =>
    have text : (attributeMarkup (key, none)).toList ++ t = ' ' :: key.toList ++ t := by
      simp [attributeMarkup]
    rw [text, opensNone_plains (List.cons_ne_nil _ _)]
    intro c mem
    rcases List.mem_cons.1 mem with rfl | inside
    · exact blank
    · exact (name c inside).plain
  | some v =>
    have text : (attributeMarkup (key, some v)).toList ++ t
        = ' ' :: (key.toList ++ ['=', '"']) ++ (v.toList.flatMap attributeChar ++ '"' :: t) := by
      simp [attributeMarkup, Escape.attributeValue]
    have stops : Stops ('"' :: t) := .inr ⟨'"', by simp, t, rfl⟩
    rw [text, opensNone_plains (List.cons_ne_nil _ _),
      opensNone_escaped escaping_attributeChar stops (value v rfl).unopened,
      opensNone_plain (by decide)]
    intro c mem
    rcases List.mem_cons.1 mem with rfl | inside
    · exact blank
    · rcases List.mem_append.1 inside with inKey | inSign
      · exact (name c inKey).plain
      · exact forall_mem_of_all (p := (· ∉ delicate)) (by decide) c inSign

theorem opensNone_attributes {as : List ReadAttribute}
    (names : ∀ a ∈ as, ∀ c ∈ a.1.toList, IsSymbol c) (values : ∀ a ∈ as, ∀ v ∈ a.2, Quiet v.toList) (t : List Char) :
    opensNone none none ((attributesMarkup as).toList ++ t) = opensNone none none t := by
  induction as with
  | nil => rfl
  | cons a as ih =>
    have text : (attributesMarkup (a :: as)).toList ++ t
        = (attributeMarkup a).toList ++ ((attributesMarkup as).toList ++ t) := by
      simp [attributesMarkup]
    rw [text, opensNone_attribute (names a List.mem_cons_self) (values a List.mem_cons_self)]
    exact ih (fun b mem => names b (List.mem_cons_of_mem a mem))
      fun b mem => values b (List.mem_cons_of_mem a mem)

theorem opensNone_tag {tag : String} (h : IsPlainTag tag) (before x : Option Char) (t : List Char) :
    opensNone before x (tag.toList ++ t) = opensNone none none t := by
  obtain ⟨c, cs, name, _⟩ := h.exists_cons
  have nonempty : tag.toList ≠ [] := by
    rw [name]
    exact List.cons_ne_nil c cs
  exact opensNone_plains nonempty (fun c mem => IsSymbol.plain (.inl (h.alphanum c mem))) before x t

theorem opensNone_opening {tag : String} (h : IsPlainTag tag) {as : List ReadAttribute}
    (names : ∀ a ∈ as, ∀ c ∈ a.1.toList, IsSymbol c)
    (values : ∀ a ∈ as, ∀ v ∈ a.2, Quiet v.toList) (t : List Char) :
    opensNone none none ('<' :: (tag.toList ++ ((attributesMarkup as).toList ++ t)))
      = opensNone none none t := by
  rw [opensNone_lt, opensNone_tag h, opensNone_attributes names values]

theorem opensNone_closing {tag : String} (h : IsPlainTag tag) (t : List Char) :
    opensNone none none (("</" ++ tag ++ ">").toList ++ t) = opensNone none none t := by
  have text : ("</" ++ tag ++ ">").toList ++ t = '<' :: '/' :: (tag.toList ++ '>' :: t) := by simp
  have slash : opensAt none '<' '/' = false := rfl
  rw [text, opensNone_lt, opensNone, Option.any_some, slash, opensNone_tag h,
    opensNone_plain (by decide)]
  rfl

/-! ### Quiet pages -/

namespace Content

/-- Content with plain tags and names. -/
inductive Plain : Content → Prop where
  | text (s : String) : Plain (.text s)
  | element {tag : String} {attrs : List ReadAttribute} {children : List Content}
      (htag : IsPlainTag tag) (hnames : ∀ a ∈ attrs, ∀ c ∈ a.1.toList, IsSymbol c)
      (hseparated : Separated children) (hchildren : ∀ c ∈ children, Plain c) :
      Plain (.element tag attrs children)

/-- Content whose texts and attribute values are quiet. -/
inductive AllQuiet : Content → Prop where
  | text {s : String} (h : Quiet s.toList) : AllQuiet (.text s)
  | element {tag : String} {attrs : List ReadAttribute} {children : List Content}
      (hvalues : ∀ a ∈ attrs, ∀ v ∈ a.2, Quiet v.toList) (hchildren : ∀ c ∈ children, AllQuiet c) :
      AllQuiet (.element tag attrs children)

/-- A text before what is written next. -/
theorem stops_writtenAll {cs : List Content} {t : List Char} (stops : Stops t)
    (h : ∀ c ∈ cs.head?, isText c = false) : Stops (writtenAll cs ++ t) := by
  cases cs with
  | nil => exact stops
  | cons c cs =>
    cases c with
    | text s => exact absurd (h _ rfl) (by simp [isText])
    | element tag attrs children =>
      refine .inr ⟨'<', by simp, ?_⟩
      rw [writtenAll, written]
      split <;> simp

theorem opensNone_writtenAll {cs : List Content} (separated : Separated cs)
    (texts : ∀ s, .text s ∈ cs → Quiet s.toList)
    (elements : ∀ c ∈ cs, isText c = false → ∀ t,
      opensNone none none (written c ++ t) = opensNone none none t)
    {t : List Char} (stops : Stops t) :
    opensNone none none (writtenAll cs ++ t) = opensNone none none t := by
  induction cs with
  | nil => rfl
  | cons c cs ih =>
    obtain ⟨apart, rest⟩ := List.isChain_cons.1 separated
    have onward := ih rest (fun s mem => texts s (List.mem_cons_of_mem c mem))
      fun d mem => elements d (List.mem_cons_of_mem c mem)
    rw [writtenAll, List.append_assoc]
    cases c with
    | text s =>
      have stopsNext : Stops (writtenAll cs ++ t) := stops_writtenAll stops fun d mem => by
        simpa [isText] using apart d mem
      rw [written, opensNone_escaped escaping_contentChar stopsNext
        (texts s List.mem_cons_self).unopened, onward]
    | element tag attrs children => rw [elements _ List.mem_cons_self rfl, onward]

theorem opensNone_written {c : Content} (plain : c.Plain) (quiet : c.AllQuiet)
    (element : isText c = false) (t : List Char) :
    opensNone none none (written c ++ t) = opensNone none none t := by
  induction plain generalizing t with
  | text s => cases element
  | @element tag attrs children htag hnames hseparated hchildren ih =>
    cases quiet with
    | element hvalues hquiet =>
      rw [written]
      split
      · have text : ("<" ++ tag ++ attributesMarkup attrs ++ "/>").toList ++ t
            = '<' :: (tag.toList ++ ((attributesMarkup attrs).toList ++ '/' :: '>' :: t)) := by
          simp
        have slash (s : List Char) :
            opensNone none none ('/' :: '>' :: s) = opensNone none none s := by
          rw [opensNone, opensNone_plain (by decide)]
          rfl
        rw [text, opensNone_opening htag hnames hvalues, slash]
      · have text : ("<" ++ tag ++ attributesMarkup attrs ++ ">").toList ++ writtenAll children
              ++ ("</" ++ tag ++ ">").toList ++ t
            = '<' :: (tag.toList ++ ((attributesMarkup attrs).toList ++
                '>' :: (writtenAll children ++ (("</" ++ tag ++ ">").toList ++ t)))) := by
          simp
        have stops : Stops (("</" ++ tag ++ ">").toList ++ t) :=
          .inr ⟨'<', by simp, _, by simp; rfl⟩
        have inner := opensNone_writtenAll hseparated
          (fun s mem => by
            cases hquiet _ mem with
            | text h => exact h)
          (fun c mem => ih c mem (hquiet c mem)) stops
        rw [text, opensNone_opening htag hnames hvalues, opensNone_plain (by decide), inner,
          opensNone_closing htag]

theorem opensNone_tidy {cs : List Content} (plain : ∀ c ∈ tidy cs, c.Plain)
    (quiet : ∀ c ∈ tidy cs, c.AllQuiet) : opensNone none none (writtenAll (tidy cs)) = true := by
  have all := opensNone_writtenAll (separated_tidy cs)
    (fun s mem => by
      cases quiet _ mem with
      | text h => exact h)
    (fun c mem => opensNone_written (plain c mem) (quiet c mem)) (t := []) (.inl rfl)
  rwa [List.append_nil] at all

/-! ### No placeholders -/

theorem not_mem_escaped {e : Char → List Char}
    (kept : ∀ c, Literal.opening ∈ e c → c = Literal.opening) {s : List Char}
    (h : Literal.opening ∉ s) : Literal.opening ∉ s.flatMap e := by
  intro mem
  obtain ⟨c, inside, found⟩ := List.mem_flatMap.1 mem
  exact h (kept c found ▸ inside)

theorem opening_mem_contentChar (c : Char) (h : Literal.opening ∈ contentChar c) :
    c = Literal.opening := by
  unfold contentChar at h
  split at h
  · exact absurd h (by decide)
  split at h
  · exact absurd h (by decide)
  split at h
  · exact absurd h (by decide)
  split at h
  · exact absurd h (by decide)
  split at h
  · exact absurd h (by decide)
  · exact (List.mem_singleton.1 h).symm

theorem opening_mem_attributeChar (c : Char) (h : Literal.opening ∈ attributeChar c) :
    c = Literal.opening := by
  unfold attributeChar at h
  split at h
  · exact absurd h (by decide)
  split at h
  · exact absurd h (by decide)
  split at h
  · exact absurd h (by decide)
  split at h
  · exact absurd h (by decide)
  · exact (List.mem_singleton.1 h).symm

theorem opening_not_mem_attributesMarkup {as : List ReadAttribute}
    (names : ∀ a ∈ as, ∀ c ∈ a.1.toList, IsSymbol c)
    (values : ∀ a ∈ as, ∀ v ∈ a.2, Quiet v.toList) :
    Literal.opening ∉ (attributesMarkup as).toList := by
  refine not_mem_attributesMarkup (by decide) (fun a ha mem => ?_) fun a ha v hv => ?_
  · exact (names a ha _ mem).ne (by decide) (by decide) rfl
  · rw [Escape.attributeValue, String.toList_ofList]
    exact not_mem_escaped opening_mem_attributeChar (values a ha v hv).unreserved

theorem not_mem_writtenAll {cs : List Content} (h : ∀ c ∈ cs, Literal.opening ∉ written c) :
    Literal.opening ∉ writtenAll cs := by
  induction cs with
  | nil => exact List.not_mem_nil
  | cons c cs ih =>
    exact List.not_mem_append (h c List.mem_cons_self)
      (ih fun d mem => h d (List.mem_cons_of_mem c mem))

theorem not_mem_written {c : Content} (plain : c.Plain) (quiet : c.AllQuiet) :
    Literal.opening ∉ written c := by
  induction plain with
  | text s =>
    cases quiet with
    | text h => exact not_mem_escaped opening_mem_contentChar h.unreserved
  | @element tag attrs children htag hnames hseparated hchildren ih =>
    cases quiet with
    | element hvalues hquiet =>
      have inTag : Literal.opening ∉ tag.toList := fun mem =>
        absurd (htag.alphanum _ mem) (by decide)
      have inAttributes := opening_not_mem_attributesMarkup hnames hvalues
      have inChildren := not_mem_writtenAll fun c mem => ih c mem (hquiet c mem)
      rw [written]
      split
      · simp only [String.toList_append, List.mem_append, not_or]
        exact ⟨⟨⟨by decide, inTag⟩, inAttributes⟩, by decide⟩
      · simp only [String.toList_append, List.mem_append, not_or]
        exact ⟨⟨⟨⟨⟨by decide, inTag⟩, inAttributes⟩, by decide⟩, inChildren⟩,
          ⟨⟨by decide, inTag⟩, by decide⟩⟩

end Content

/-! ### Minified markup -/

namespace Page

theorem exists_of_mem_shownAll {c : Content} {ps : List Page} (h : c ∈ shownAll ps) :
    ∃ p ∈ ps, c = p.shown := by
  induction ps with
  | nil => cases h
  | cons p ps ih =>
    rcases List.mem_cons.1 h with rfl | later
    · exact ⟨p, List.mem_cons_self, rfl⟩
    · obtain ⟨q, mem, same⟩ := ih later
      exact ⟨q, List.mem_cons_of_mem p mem, same⟩

theorem WellNamed.isSymbol {attrs : Attributes} (h : WellNamed attrs) {a : ReadAttribute}
    (mem : a ∈ attrs.shown) : ∀ c ∈ a.1.toList, IsSymbol c := by
  obtain ⟨⟨key, v⟩, inEntries, shown⟩ := List.mem_filterMap.1 mem
  have isKey : key ∈ attrs.keys := List.mem_map_of_mem (f := Prod.fst) inEntries
  rw [Attributes.shownEntry_key shown, shownKey]
  intro c inName
  split at inName
  · exact forall_mem_of_all (p := fun c => c.isAlphanum = true ∨ c = '-') (by decide) c inName
  · rcases h.symbols key isKey c inName with lower | digit | hyphen
    · exact .inl (by simp [Char.isAlphanum, Char.isAlpha, lower])
    · exact .inl (by simp [Char.isAlphanum, digit])
    · exact .inr hyphen

theorem plain_shown {p : Page} (h : p.WellFormed) : p.shown.Plain := by
  induction h with
  | text s => exact .text s
  | @element tag attrs children htag hattrs _ ih =>
    rw [shown]
    refine .element htag (fun a => hattrs.isSymbol) ?_ ?_
    · split
      · exact List.isChain_nil
      · exact Content.separated_tidy _
    · split
      · nofun
      · refine Content.forall_mem_tidy .text fun c mem => ?_
        obtain ⟨p, inside, rfl⟩ := exists_of_mem_shownAll mem
        exact ih p inside

end Page

theorem minified_eq {plain mini : MarkupSettings} (hplain : plain.minify = false)
    (hmini : mini.minify = true) (w : MarkupWriter) (n : Node) (k : Nat) :
    (markupOf w mini n k).1.toList = Compaction.run (markupOf w plain n k).1.toList := by
  unfold markupOf markupText
  dsimp only
  rw [hplain, hmini, if_pos rfl, if_neg Bool.false_ne_true, compact, String.toList_ofList]

/-- **Minified markup** has lost the blanks and the comments of the markup, so
    everything else is kept exactly if the markup has, outside of what reads as
    literals, no comment.  This is so for pages whose texts and values open none. -/
theorem minified_markup {plain mini : MarkupSettings} (hplain : plain.minify = false)
    (hmini : mini.minify = true) :
    (∀ (w : MarkupWriter) (n : Node) (k : Nat),
      Literal.opening ∉ (markupOf w plain n k).1.toList →
        bare (markupOf w mini n k).1.toList
            = bare (sources (Glyph.dropComments (cells (markupOf w plain n k).1.toList))) ∧
          (bare (markupOf w mini n k).1.toList = bare (markupOf w plain n k).1.toList ↔
            ¬ HasComment (cells (markupOf w plain n k).1.toList))) ∧
    ∀ (ids : Nat → String) (k : Nat) (p : Page), p.WellFormed →
      (∀ c ∈ p.normalForm, c.AllQuiet) →
        bare (markupOf ⟨.standard, ids⟩ mini p.node k).1.toList
          = bare (markupOf ⟨.standard, ids⟩ plain p.node k).1.toList := by
  constructor
  · intro w n k unreserved
    rw [minified_eq hplain hmini]
    exact ⟨bare_run (unreserved_of_not_mem unreserved),
      bare_run_eq_iff (unreserved_of_not_mem unreserved)⟩
  · intro ids k p wellFormed quiet
    have shown : ∀ c ∈ p.normalForm, c.Plain :=
      Content.forall_mem_tidy .text fun c mem => by
        rw [List.mem_singleton.1 mem]
        exact Page.plain_shown wellFormed
    have text : (markupOf ⟨.standard, ids⟩ plain p.node k).1.toList
        = Content.writtenAll p.normalForm := by
      rw [markupOf_eq_written wellFormed.legible hplain, Page.content_node]
      rfl
    have unreserved : Literal.opening ∉ (markupOf ⟨.standard, ids⟩ plain p.node k).1.toList := by
      rw [text]
      exact Content.not_mem_writtenAll fun c mem => Content.not_mem_written (shown c mem) (quiet c mem)
    have opens : opensNone none none (markupOf ⟨.standard, ids⟩ plain p.node k).1.toList = true := by
      rw [text]
      exact Content.opensNone_tidy shown quiet
    rw [minified_eq hplain hmini, bare_run_eq_iff (unreserved_of_not_mem unreserved)]
    exact not_hasComment_cells opens

namespace Page

/-- A page with addresses and quotes in its texts and values. -/
def links : Page :=
  .element "p" ⟨[("title", .string "a://b")]⟩ [.text "c://d\n/", .text "'e'", .element "br" ∅ []]

theorem wellFormed_links : links.WellFormed := by
  refine .element ⟨by decide, forall_mem_of_all (by decide), by decide +kernel⟩
      ⟨by decide, by decide, forall_mem_toList_of_all (by decide), by decide⟩ ?_
  intro p hp
  simp only [List.mem_cons, List.not_mem_nil, or_false] at hp
  rcases hp with rfl | rfl | rfl
  · exact .text _
  · exact .text _
  · refine .element ⟨by decide, forall_mem_of_all (by decide), by decide +kernel⟩
      ⟨by decide, by decide, forall_mem_toList_of_all (by decide), by decide⟩ ?_
    intro p hp
    cases hp

theorem normalForm_links :
    links.normalForm = [.element "p" [("title", some "a://b")]
      [.text "c://d\n/'e'", .element "br" [] []]] := by
  cbv

theorem allQuiet_links : ∀ c ∈ links.normalForm, c.AllQuiet := by
  rw [normalForm_links]
  intro c mem
  rw [List.mem_singleton.1 mem]
  refine .element ?_ ?_
  · intro a mem v value
    rw [List.mem_singleton.1 mem] at value
    obtain rfl := Option.some.inj value
    exact quiet_of_opensNone (by decide +kernel) (by decide +kernel)
  · intro c mem
    simp only [List.mem_cons, List.not_mem_nil, or_false] at mem
    rcases mem with rfl | rfl
    · exact .text (quiet_of_opensNone (by decide +kernel) (by decide +kernel))
    · exact .element nofun nofun

theorem links_minified :
    ({} : MarkupSettings).minify = false ∧ ({ minify := true } : MarkupSettings).minify = true ∧
      links.WellFormed ∧ (∀ c ∈ links.normalForm, c.AllQuiet) ∧
      bare (markupOf ⟨.standard, ElementId.supply .alphanumeric⟩ { minify := true } links.node 0).1.toList
        = bare (markupOf ⟨.standard, ElementId.supply .alphanumeric⟩ {} links.node 0).1.toList :=
  ⟨rfl, rfl, wellFormed_links, allQuiet_links,
    (minified_markup rfl rfl).2 (ElementId.supply .alphanumeric) 0 links wellFormed_links
      allQuiet_links⟩

/-- A text with two slashes is lost from there on, and the tag after it. -/
theorem minified_text_lost :
    (markupOf ⟨.standard, ElementId.supply .alphanumeric⟩ {}
        (element "p" ∅ [.text "a // b"]).node 0).1 = "<p>a // b</p>" ∧
      (markupOf ⟨.standard, ElementId.supply .alphanumeric⟩ { minify := true }
        (element "p" ∅ [.text "a // b"]).node 0).1 = "<p>a" ∧
      bare "<p>a".toList ≠ bare "<p>a // b</p>".toList := by
  decide +kernel

end Page

end PageTree
