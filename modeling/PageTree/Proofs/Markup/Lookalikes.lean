/-
  PageTree/Proofs/Markup/Lookalikes.lean
  ======================================
  **Elements that are taken for parts of the document.**

  A tree without `html`, `head` and `body` is to be written as the fragments are,
  one after another.  Whether a fragment is a tag of the document is decided by its
  text, up to the end of the word with which its name begins.  So the opening tag
  of an element such as `body-panel` is taken for one as well, unless an attribute
  keeps it from ending at its first angle bracket; and a document is put together
  around it.

  Apart from such elements trees are written as they are.  The converse holds as
  well: the text of a document begins with its type declaration, with which no tag,
  text or comment begins.

    * `Marker.isSome_ofFragment_opening`, `Marker.isSome_ofFragment_closing`: which
      tags are markers;
    * `accounts_fragments`: the markers among the fragments of a tree;
    * `markupOf_eq_join_iff`: the trees that are written as they are.
-/
import PageTree.Proofs.Identifiers
import PageTree.Proofs.Live.Executions
import PageTree.Proofs.Markup.OutermostTag

namespace PageTree

open Live Text

/-! ### Words in any case -/

namespace Text

/-- No character beyond ASCII counts as a letter other than `s` and `k`. -/
theorem foldAscii_eq_iff {c w : Char} (other : w ∉ ['s', 'k', 'ſ', '\u212a']) :
    foldAscii c = w ↔ c.toLower = w := by
  simp only [List.mem_cons, List.not_mem_nil, or_false, not_or] at other
  obtain ⟨s, k, long, kelvin⟩ := other
  have long' : 'ſ'.toLower = 'ſ' := by decide
  have kelvin' : '\u212a'.toLower = '\u212a' := by decide
  unfold foldAscii
  split
  · next same =>
    rw [beq_iff_eq.1 same, long']
    exact ⟨fun h => absurd h.symm s, fun h => absurd h.symm long⟩
  · split
    · next same =>
      rw [beq_iff_eq.1 same, kelvin']
      exact ⟨fun h => absurd h.symm k, fun h => absurd h.symm kelvin⟩
    · exact Iff.rfl

theorem map_foldAscii_eq_iff {cs ws : List Char} (other : ∀ w ∈ ws, w ∉ ['s', 'k', 'ſ', '\u212a']) :
    cs.map foldAscii = ws ↔ cs.map Char.toLower = ws := by
  induction ws generalizing cs with
  | nil => simp
  | cons w ws ih =>
    obtain ⟨here, later⟩ := List.forall_mem_cons.1 other
    cases cs with
    | nil => simp
    | cons c cs =>
      rw [List.map_cons, List.map_cons, List.cons.injEq, List.cons.injEq, ih later,
        foldAscii_eq_iff here]

end Text

/-! ### Names like those of document tags -/

/-- The names that an element can have. -/
structure IsElementName (tag : String) : Prop where
  letter : ∃ c cs, tag.toList = c :: cs ∧ c.isAlpha = true
  closed : '>' ∉ tag.toList

/-- Whether a text begins like the name of a document tag; all of these have four
    letters. -/
def beginsDocument (s : List Char) : Bool :=
  documentTags.contains (String.ofList ((s.take 4).map Char.toLower))

/-- Whether a name is that of a document tag up to the end of its first word. -/
def resemblesDocument (tag : String) : Bool :=
  beginsDocument tag.toList && !(tag.toList.drop 4).head?.any isWord

namespace Marker

theorem isSome_takeSection {word : String} (document : word ∈ documentTags) {s r : List Char}
    (dropped : dropWordIgnoringCase word.toList s = some r) : (takeSection s).isSome = true := by
  simp only [documentTags, List.mem_cons, List.not_mem_nil, or_false] at document
  rw [takeSection, Option.isSome_or, Option.isSome_or, Option.isSome_map, Option.isSome_map,
    Option.isSome_map]
  rcases document with rfl | rfl | rfl
  · rw [dropped, Option.isSome_some, Bool.true_or]
  · rw [dropped, Option.isSome_some, Bool.true_or, Bool.or_true]
  · rw [dropped, Option.isSome_some, Bool.or_true, Bool.or_true]

/-- Where a section is read, a name stands in front that begins like a document
    tag. -/
theorem exists_takeSection_iff {name rest : List Char} {c : Char}
    (sign : (foldAscii c).isAlphanum = false) {r : List Char} :
    (∃ sec, takeSection (name ++ c :: rest) = some (sec, r)) ↔
      beginsDocument name = true ∧ r = name.drop 4 ++ c :: rest := by
  have letters : ∀ word ∈ documentTags, ∀ x ∈ word.toList,
      x.isAlphanum = true ∧ x ∉ ['s', 'k', 'ſ', '\u212a'] :=
    forall_mem_toList_of_all (by decide)
  have length : ∀ word ∈ documentTags, word.toList.length = 4 := by decide
  have taken {sec : Section} {r : List Char}
      (found : takeSection (name ++ c :: rest) = some (sec, r)) :
      beginsDocument name = true ∧ r = name.drop 4 ++ c :: rest := by
    obtain ⟨word, document, dropped⟩ := exists_of_takeSection found
    have absent : foldAscii c ∉ word.toList := fun mem =>
      ne_of_isAlphanum (letters word document _ mem).1 sign rfl
    obtain ⟨front, back, rfl, folded, rfl⟩ := exists_of_dropWordIgnoringCase absent dropped
    have four : front.length = 4 := by
      rw [← length word document, ← folded, List.length_map]
    rw [map_foldAscii_eq_iff fun w mem => (letters word document w mem).2] at folded
    rw [beginsDocument, List.take_left' four, List.drop_left' four, folded, String.ofList_toList]
    exact ⟨List.contains_iff_mem.2 document, rfl⟩
  constructor
  · rintro ⟨sec, found⟩
    exact taken found
  · rintro ⟨begins, rfl⟩
    rw [beginsDocument, List.contains_iff_mem] at begins
    have folded : (name.take 4).map foldAscii = (name.take 4).map Char.toLower := by
      rw [map_foldAscii_eq_iff]
      intro w mem
      exact (letters _ begins w (by rwa [String.toList_ofList])).2
    have dropped : dropWordIgnoringCase (String.ofList ((name.take 4).map Char.toLower)).toList
        (name ++ c :: rest) = some (name.drop 4 ++ c :: rest) := by
      rw [dropWordIgnoringCase_eq_some_iff, String.toList_ofList]
      exact ⟨name.take 4, by rw [← List.append_assoc, List.take_append_drop], folded⟩
    obtain ⟨⟨sec, r⟩, found⟩ := Option.isSome_iff_exists.1 (isSome_takeSection begins dropped)
    obtain ⟨-, same⟩ := taken found
    exact ⟨sec, same ▸ found⟩

/-- A tag ends at its first closing angle bracket, and so at its last character only
    if it has no other one. -/
theorem tagRest_eq_some_iff {s inner : List Char} :
    tagRest (s ++ ['>']) = some inner ↔ '>' ∉ s ∧ inner = s := by
  by_cases closed : '>' ∈ s
  · obtain ⟨front, back, rfl, first⟩ := List.eq_append_cons_of_mem closed
    have angle : (back ++ ['>']).all isBlank = false := by
      have last : ['>'].all isBlank = false := by decide
      rw [List.all_append, last, Bool.and_false]
    rw [tagRest, List.append_assoc, List.cons_append, cutAt_singleton first, Option.bind_some]
    simp [angle]
  · rw [tagRest, cutAt_singleton closed, Option.bind_some, Option.ite_none_right_eq_some,
      Option.some.injEq]
    constructor
    · rintro ⟨-, rfl⟩
      exact ⟨closed, rfl⟩
    · rintro ⟨-, rfl⟩
      exact ⟨rfl, rfl⟩

theorem isSome_tagRest {s : List Char} : (tagRest (s ++ ['>'])).isSome = true ↔ '>' ∉ s := by
  simp [Option.isSome_iff_exists, tagRest_eq_some_iff]

variable {tag : String} (name : IsElementName tag)

include name

/-- **Opening tags as markers.** -/
theorem isSome_ofTag_opening {c : Char} {rest inner : List Char} (sign : c ∈ [' ', '/', '>'])
    (whole : c :: rest = inner ++ ['>']) :
    (ofTag (tag.toList ++ c :: rest)).isSome = true ↔
      resemblesDocument tag = true ∧ '>' ∉ inner := by
  obtain ⟨sign, noWord⟩ : (foldAscii c).isAlphanum = false ∧ isWord c = false := by
    simp only [List.mem_cons, List.not_mem_nil, or_false] at sign
    rcases sign with rfl | rfl | rfl <;> exact ⟨by decide, by decide⟩
  obtain ⟨x, xs, spelled, letter⟩ := name.letter
  have slash : x ≠ '/' := by rintro rfl; exact absurd letter (by decide)
  have bang : x ≠ '!' := by rintro rfl; exact absurd letter (by decide)
  have first : tag.toList ++ c :: rest = x :: (xs ++ c :: rest) := by
    rw [spelled, List.cons_append]
  have boundary : (tag.toList.drop 4 ++ c :: rest).head?.any isWord
      = (tag.toList.drop 4).head?.any isWord := by
    cases tag.toList.drop 4 with
    | nil => simp [noWord]
    | cons => rfl
  have closed : '>' ∉ tag.toList.drop 4 ++ inner ↔ '>' ∉ inner := by
    have outside : '>' ∉ tag.toList.drop 4 := fun mem => name.closed (List.mem_of_mem_drop mem)
    rw [List.mem_append, not_or]
    exact and_iff_right outside
  have ends : (tagRest (tag.toList.drop 4 ++ c :: rest)).isSome = true ↔ '>' ∉ inner := by
    rw [whole, ← List.append_assoc, isSome_tagRest, closed]
  rw [first, ofTag_of_name slash bang, ← first, ← ends, resemblesDocument, Bool.and_eq_true,
    Bool.not_eq_true', ← boundary]
  constructor
  · intro isSome
    obtain ⟨m, marker⟩ := Option.isSome_iff_exists.1 isSome
    obtain ⟨⟨sec, r⟩, found, marker⟩ := Option.bind_eq_some_iff.1 marker
    obtain ⟨begins, rfl⟩ := (exists_takeSection_iff sign).1 ⟨sec, found⟩
    dsimp only at marker
    split at marker
    · cases marker
    · next word =>
      obtain ⟨inner, rest, -⟩ := Option.map_eq_some_iff.1 marker
      exact ⟨⟨begins, Bool.eq_false_of_not_eq_true word⟩, Option.isSome_iff_exists.2 ⟨_, rest⟩⟩
  · rintro ⟨⟨begins, word⟩, rest⟩
    obtain ⟨sec, found⟩ := (exists_takeSection_iff sign).2 ⟨begins, rfl⟩
    rw [found, Option.bind_some]
    dsimp only
    rw [word, if_neg Bool.false_ne_true, Option.isSome_map, rest]

theorem isSome_ofTag_closing :
    (ofTag ('/' :: tag.toList ++ ['>'])).isSome = true ↔
      beginsDocument tag.toList = true ∧ (tag.toList.drop 4).all isBlank = true := by
  have sign : (foldAscii '>').isAlphanum = false := by decide
  have outside : '>' ∉ tag.toList.drop 4 := fun mem => name.closed (List.mem_of_mem_drop mem)
  rw [List.cons_append, ofTag]
  constructor
  · intro isSome
    obtain ⟨m, marker⟩ := Option.isSome_iff_exists.1 isSome
    obtain ⟨⟨sec, r⟩, found, marker⟩ := Option.bind_eq_some_iff.1 marker
    obtain ⟨begins, rfl⟩ := (exists_takeSection_iff sign).1 ⟨sec, found⟩
    obtain ⟨inner, ends, marker⟩ := Option.bind_eq_some_iff.1 marker
    obtain ⟨-, rfl⟩ := tagRest_eq_some_iff.1 ends
    split at marker
    · next blank => exact ⟨begins, blank⟩
    · cases marker
  · rintro ⟨begins, blank⟩
    obtain ⟨sec, found⟩ := (exists_takeSection_iff sign).2 ⟨begins, rfl⟩
    rw [found, Option.bind_some]
    dsimp only
    rw [tagRest_eq_some_iff.2 ⟨outside, rfl⟩, Option.bind_some, if_pos blank]
    rfl

end Marker

/-! ### The fragments of an element -/

/-- Angle brackets among attributes are those of their keys. -/
theorem angle_notMem_attributesMarkup {as : List ReadAttribute} :
    '>' ∉ (attributesMarkup as).toList ↔ ∀ a ∈ as, '>' ∉ a.1.toList := by
  constructor
  · intro absent a ha mem
    obtain ⟨before, after, rfl⟩ := List.append_of_mem ha
    refine absent ?_
    have inside : '>' ∈ (attributeMarkup a).toList := by
      obtain ⟨key, value⟩ := a
      cases value <;> simp [attributeMarkup, mem]
    rw [attributesMarkup_append, attributesMarkup, attributesMarkup, List.map_cons,
      String.join_cons]
    simp [inside]
  · intro keys
    exact not_mem_attributesMarkup (by decide) keys fun _ _ v _ =>
      not_mem_attributeValue (by decide) v

/-- The attributes of an element in its opening tag, but for a generated id. -/
def Attributes.openedOwn (attrs : Attributes) : List (String × Option String) :=
  attrs.writtenKeys.filterMap attrs.openedAt

/-- A generated id has no part in it whether the tag ends early. -/
theorem Attributes.angle_notMem_opened {attrs : Attributes} (fresh : String) :
    '>' ∉ (attributesMarkup (attrs.opened fresh)).toList ↔
      ∀ a ∈ attrs.openedOwn, '>' ∉ a.1.toList := by
  rw [angle_notMem_attributesMarkup, opened, ← openedOwn, List.forall_mem_append]
  refine and_iff_right ?_
  intro a generated
  split at generated
  · have id : '>' ∉ "id".toList := by decide
    rwa [List.mem_singleton.1 generated]
  · cases generated

/-- Whether a tag of the element is taken for one of the document: the opening one
    if no angle bracket comes early, the closing one if its name goes on with blanks
    at most. -/
def isMistaken (tag : String) (attrs : Attributes) : Bool :=
  resemblesDocument tag && ((attrs.openedOwn.all fun a => !a.1.toList.contains '>')
    || (tag.toList.drop 4).all isBlank)

namespace Marker

variable {tag : String} (name : IsElementName tag)

include name

/-- Behind the attributes stands the end of the tag, with a slash in a void one. -/
theorem isSome_ofFragment_opening (as : List ReadAttribute) {slash : List Char}
    (isSlash : slash = [] ∨ slash = ['/']) :
    (ofFragment ("<" ++ tag ++ attributesMarkup as ++ String.ofList (slash ++ ['>']))).isSome = true
      ↔ resemblesDocument tag = true ∧ '>' ∉ (attributesMarkup as).toList := by
  have spelled : "<" ++ tag ++ attributesMarkup as ++ String.ofList (slash ++ ['>'])
      = String.ofList
        ('<' :: (tag.toList ++ ((attributesMarkup as).toList ++ slash ++ ['>']))) := by
    rw [← String.toList_inj]
    simp
  obtain ⟨c, rest, sign, whole⟩ : ∃ c rest, c ∈ [' ', '/', '>'] ∧
      c :: rest = (attributesMarkup as).toList ++ slash ++ ['>'] := by
    rcases attributesMarkup_head as with none | ⟨more, some⟩
    · rw [none]
      rcases isSlash with rfl | rfl
      · exact ⟨'>', [], by decide, rfl⟩
      · exact ⟨'/', ['>'], by decide, rfl⟩
    · rw [some]
      exact ⟨' ', more ++ slash ++ ['>'], by decide, rfl⟩
  have noAngle : '>' ∉ slash := by
    rcases isSlash with rfl | rfl <;> decide
  rw [spelled, ofFragment_lt, ← whole, isSome_ofTag_opening name sign whole, List.mem_append,
    not_or, and_iff_left noAngle]

theorem isSome_ofFragment_closing : (ofFragment ("</" ++ tag ++ ">")).isSome = true
    ↔ resemblesDocument tag = true ∧ (tag.toList.drop 4).all isBlank = true := by
  have spelled : "</" ++ tag ++ ">" = String.ofList ('<' :: ('/' :: tag.toList ++ ['>'])) := by
    rw [← String.toList_inj]
    simp
  have boundary (blank : (tag.toList.drop 4).all isBlank = true) :
      (tag.toList.drop 4).head?.any isWord = false := by
    cases rest : tag.toList.drop 4 with
    | nil => rfl
    | cons c cs =>
      rw [rest, List.all_cons, Bool.and_eq_true] at blank
      have part := not_isIdentPart_of_isBlank blank.1
      rw [isIdentPart, Bool.or_eq_false_iff] at part
      exact part.1
  rw [spelled, ofFragment_lt, isSome_ofTag_closing name, resemblesDocument, Bool.and_eq_true,
    Bool.not_eq_true']
  constructor
  · rintro ⟨begins, blank⟩
    exact ⟨⟨begins, boundary blank⟩, blank⟩
  · rintro ⟨⟨begins, -⟩, blank⟩
    exact ⟨begins, blank⟩

end Marker

theorem resemblesDocument_of_isVoidTag {tag : String} (void : Node.isVoidTag tag = true) :
    resemblesDocument tag = false := by
  have other : ∀ v ∈ Node.voidTags,
      documentTags.contains (String.ofList (v.toList.take 4)) = false := by decide
  have lowered := other _ (List.contains_iff_mem.1 void)
  rw [String.map_eq_internal, String.toList_ofList, ← List.map_take] at lowered
  rw [resemblesDocument, beginsDocument, lowered, Bool.false_and]

/-! ### The elements of a tree -/

/-- Whether the value of `client` takes over the children. -/
def Attributes.relocates (attrs : Attributes) : Bool :=
  ((attrs.awaited? "client").bind Behaviour.callback?).isSome

theorem Attributes.any_isRelocation (attrs : Attributes) (id : String) :
    (attrs.behaviours id).any (·.isRelocation) = attrs.relocates := by
  rw [Bool.eq_iff_iff, List.any_eq_true, relocates, Option.isSome_iff_exists]
  constructor
  · rintro ⟨b, mem, relocation⟩
    obtain ⟨key, -, found⟩ := List.mem_filterMap.1 mem
    obtain ⟨v, awaited, found⟩ := Option.bind_eq_some_iff.1 found
    rw [Behaviour.of?] at found
    split at found
    · next client =>
      obtain ⟨f, called, -⟩ := Option.map_eq_some_iff.1 found
      exact ⟨f, by rw [← client, awaited, Option.bind_some, called]⟩
    · split at found
      · obtain ⟨f, -, rfl⟩ := Option.map_eq_some_iff.1 found
        cases relocation
      · split at found
        · obtain ⟨f, -, rfl⟩ := Option.map_eq_some_iff.1 found
          cases relocation
        · cases found
  · rintro ⟨f, found⟩
    obtain ⟨v, awaited, called⟩ := Option.bind_eq_some_iff.1 found
    refine ⟨.relocate f (attrs.propsOf "client"), List.mem_filterMap.2 ⟨"client", ?_, ?_⟩, rfl⟩
    · exact mem_writtenKeys awaited (by decide)
    · rw [behaviourAt, awaited, Option.bind_some, Behaviour.of?, if_pos rfl, called,
        Option.map_some]

namespace Node

mutual

/-- The elements whose tags are written, in the order of their opening tags. -/
def writtenElements : Node → List (String × Attributes)
  | .pending n => writtenElements n
  | .array items => writtenElementsOfList items
  | .component _ _ _ result => writtenElements result
  | .element tag attrs children =>
    (tag, attrs) ::
      if isVoidTag tag || attrs.relocates then [] else writtenElementsOfList children
  | .failure _ _ _ _ => []
  | .text _ => []
  | .number _ => []
  | .bool _ => []
  | .null => []
  | .undefined => []

def writtenElementsOfList : List Node → List (String × Attributes)
  | [] => []
  | n :: ns => writtenElements n ++ writtenElementsOfList ns

end

/-- Trees whose texts hold no tags, and whose elements have names that elements can
    have and no key twice. -/
inductive Untagged : Node → Prop where
  | text {s : String} (h : '<' ∉ s.toList) : Untagged (.text s)
  | number (x : Float) : Untagged (.number x)
  | bool (b : Bool) : Untagged (.bool b)
  | null : Untagged .null
  | undefined : Untagged .undefined
  | element {tag : String} {attrs : Attributes} {children : List Node} (name : IsElementName tag)
      (distinct : attrs.keys.Nodup) (inner : ∀ n ∈ children, Untagged n) :
      Untagged (.element tag attrs children)
  | component {name : String} {attrs : Attributes} {children : List Node} {result : Node}
      (h : Untagged result) : Untagged (.component name attrs children result)
  | failure (name : String) (attrs : Attributes) (children : List Node) (message : String) :
      Untagged (.failure name attrs children message)
  | array {items : List Node} (h : ∀ n ∈ items, Untagged n) : Untagged (.array items)
  | pending {result : Node} (h : Untagged result) : Untagged (.pending result)

end Node

/-! ### The fragments of a tree -/

/-- No document begins like this fragment. -/
def Apart (f : String) : Prop := ∀ rest, ¬ "<!DOCTYPE".toList <+: f.toList ++ rest

theorem apart_of_text {f : String} {c : Char} {cs : List Char} (spelled : f.toList = c :: cs)
    (other : c ≠ '<') : Apart f := by
  intro rest document
  rw [spelled] at document
  exact other (List.cons_prefix_cons.1 document).1.symm

theorem apart_of_tag {f : String} {c : Char} {cs : List Char} (spelled : f.toList = '<' :: c :: cs)
    (other : c ≠ '!') : Apart f := by
  intro rest document
  rw [spelled] at document
  exact other (List.cons_prefix_cons.1 (List.cons_prefix_cons.1 document).2).1.symm

def isMarker (f : String) : Bool := (Marker.ofFragment f).isSome

/-- The markers among fragments are the tags of mistaken elements. -/
structure Accounts (fs : List String) (es : List (String × Attributes)) : Prop where
  apart : ∀ f ∈ fs, Apart f
  marked : fs.any isMarker = es.any fun e => isMistaken e.1 e.2

namespace Accounts

variable {fs gs : List String} {es ds : List (String × Attributes)}

theorem nil : Accounts [] [] := ⟨fun _ mem => absurd mem List.not_mem_nil, rfl⟩

theorem append (h : Accounts fs es) (h' : Accounts gs ds) : Accounts (fs ++ gs) (es ++ ds) := by
  constructor
  · exact List.forall_mem_append.2 ⟨h.apart, h'.apart⟩
  · rw [List.any_append, List.any_append, h.marked, h'.marked]

theorem plain {f : String} (apart : Apart f) (unmarked : Marker.ofFragment f = none) :
    Accounts [f] [] := by
  constructor
  · exact List.forall_mem_singleton.2 apart
  · simp [isMarker, unmarked]

theorem text {s : String} (h : '<' ∉ s.toList) : Accounts (MarkupWriter.textFragments s) [] := by
  have unmarked := Marker.ofFragment_text fun c mem same => h (same ▸ mem)
  unfold MarkupWriter.textFragments
  split
  · exact nil
  · next nonempty =>
    cases spelled : s.toList with
    | nil => exact absurd (by simpa using spelled) nonempty
    | cons c cs =>
      have other : c ≠ '<' := by
        rintro rfl
        exact h (spelled ▸ List.mem_cons_self)
      exact plain (apart_of_text spelled other) unmarked

theorem comment (name message : String) :
    Accounts [MarkupWriter.failureComment name message] [] := by
  obtain ⟨more, spelled⟩ : ∃ more, (MarkupWriter.failureComment name message).toList
      = '<' :: '!' :: '-' :: more := ⟨_, by simp [MarkupWriter.failureComment]; rfl⟩
  have unmarked : Marker.ofFragment (MarkupWriter.failureComment name message) = none := by
    rw [← String.ofList_toList (s := MarkupWriter.failureComment name message), spelled,
      Marker.ofFragment_lt]
    rfl
  refine plain (fun rest document => ?_) unmarked
  rw [spelled] at document
  have inner := (List.cons_prefix_cons.1 (List.cons_prefix_cons.1 document).2).2
  exact absurd (List.cons_prefix_cons.1 inner).1 (by decide)

theorem script {attrs : Attributes} {id source : String} (found : attrs.script? id = some source) :
    Accounts (Printed.script source).fragments [] := by
  obtain ⟨c, more, spelled, -, other⟩ := Attributes.script?_head found
  have unmarked := Printed.unmarked_script (Attributes.ofFragment_script? found)
  have apart : ∀ f ∈ (Printed.script source).fragments, Apart f := by
    intro f mem
    rw [Printed.fragments, List.mem_cons, List.mem_append, MarkupWriter.textFragments] at mem
    rcases mem with rfl | inner | closing
    · exact apart_of_tag rfl (by decide)
    · split at inner
      · cases inner
      · rw [List.mem_singleton.1 inner]
        exact apart_of_text spelled other
    · rw [List.mem_singleton.1 closing]
      exact apart_of_tag rfl (by decide)
  refine ⟨apart, ?_⟩
  rw [List.any_nil, List.any_eq_false]
  intro f mem
  rw [isMarker, unmarked f mem]
  exact Bool.false_ne_true

section

variable {tag : String} (name : IsElementName tag)

include name

theorem apart_opening (text : String) : Apart ("<" ++ tag ++ text) := by
  obtain ⟨c, cs, spelled, letter⟩ := name.letter
  have text : ("<" ++ tag ++ text).toList = '<' :: c :: (cs ++ text.toList) := by
    simp [spelled]
  apply apart_of_tag text
  rintro rfl
  exact absurd letter (by decide)

/-- An element with content: its tags around fragments, and a script after them. -/
theorem element {attrs : Attributes} (fresh : String) (within : Accounts fs es)
    (follows : Accounts gs []) :
    Accounts (("<" ++ tag ++ attributesMarkup (attrs.opened fresh) ++ ">")
      :: (fs ++ ("</" ++ tag ++ ">") :: gs)) ((tag, attrs) :: es) := by
  have opens := apart_opening name (attributesMarkup (attrs.opened fresh) ++ ">")
  rw [← String.append_assoc] at opens
  have closes : Apart ("</" ++ tag ++ ">") := by
    have text : ("</" ++ tag ++ ">").toList = '<' :: '/' :: (tag.toList ++ ['>']) := by simp
    exact apart_of_tag text (by decide)
  have mistaken : (isMarker ("<" ++ tag ++ attributesMarkup (attrs.opened fresh) ++ ">")
      || isMarker ("</" ++ tag ++ ">")) = isMistaken tag attrs := by
    have opening := Marker.isSome_ofFragment_opening name (attrs.opened fresh) (.inl rfl)
    have keys : (attrs.openedOwn.all fun a => !a.1.toList.contains '>') = true
        ↔ '>' ∉ (attributesMarkup (attrs.opened fresh)).toList := by
      rw [Attributes.angle_notMem_opened, List.all_eq_true]
      simp
    rw [Bool.eq_iff_iff, isMistaken, Bool.or_eq_true, Bool.and_eq_true, Bool.or_eq_true, keys,
      and_or_left]
    exact or_congr opening (Marker.isSome_ofFragment_closing name)
  have script : gs.any isMarker = false := follows.marked
  constructor
  · refine List.forall_mem_cons.2 ⟨opens, List.forall_mem_append.2 ⟨within.apart, ?_⟩⟩
    exact List.forall_mem_cons.2 ⟨closes, follows.apart⟩
  · rw [List.any_cons, List.any_append, List.any_cons, List.any_cons, within.marked, script,
      ← mistaken, Bool.or_false, Bool.or_assoc, Bool.or_comm _ (isMarker ("</" ++ tag ++ ">"))]

/-- A void element, which is never mistaken. -/
theorem void {attrs : Attributes} (isVoid : Node.isVoidTag tag = true) (as : List ReadAttribute)
    (follows : Accounts gs []) :
    Accounts (("<" ++ tag ++ attributesMarkup as ++ "/>") :: gs) [(tag, attrs)] := by
  have opens := apart_opening name (attributesMarkup as ++ "/>")
  rw [← String.append_assoc] at opens
  have other := resemblesDocument_of_isVoidTag isVoid
  have unmarked : isMarker ("<" ++ tag ++ attributesMarkup as ++ "/>") = false := by
    have opening := Marker.isSome_ofFragment_opening name as (.inr rfl)
    rw [Bool.eq_false_iff, isMarker]
    intro marker
    obtain ⟨resembles, -⟩ := opening.1 marker
    rw [other] at resembles
    cases resembles
  have script : gs.any isMarker = false := follows.marked
  constructor
  · exact List.forall_mem_cons.2 ⟨opens, follows.apart⟩
  · rw [List.any_cons, List.any_cons, List.any_nil, unmarked, script, isMistaken, other,
      Bool.false_and]

end

end Accounts

section

variable {w : MarkupWriter} {scripts : List Node → Nat → List String × Nat}

theorem accounts_script (ends : ∀ k, scripts [] k = ([], k))
    (writes : ∀ source k, scripts [scriptElement source] k
      = ((Printed.script source).fragments, k + 1)) (attrs : Attributes) (id : String) (k : Nat) :
    Accounts (scripts ((attrs.script? id).toList.map scriptElement) k).1 [] := by
  cases found : attrs.script? id with
  | none => simpa [ends] using Accounts.nil
  | some source => simpa [writes] using Accounts.script found

theorem accounts_list {ns : List Node}
    (h : ∀ n ∈ ns, ∀ k, Accounts (w.fragments scripts n k).1 n.writtenElements) (k : Nat) :
    Accounts (w.fragmentsOfList scripts ns k).1 (Node.writtenElementsOfList ns) := by
  induction ns generalizing k with
  | nil => exact Accounts.nil
  | cons n ns ih =>
    obtain ⟨here, later⟩ := List.forall_mem_cons.1 h
    exact (here k).append (ih later _)

/-- **The markers among the fragments of a tree** are the tags of mistaken elements. -/
theorem accounts_fragments (standard : w.registry = .standard) (ends : ∀ k, scripts [] k = ([], k))
    (writes : ∀ source k, scripts [scriptElement source] k
      = ((Printed.script source).fragments, k + 1)) {n : Node} (untagged : n.Untagged) (k : Nat) :
    Accounts (w.fragments scripts n k).1 n.writtenElements := by
  induction untagged generalizing k with
  | text h => exact Accounts.text h
  | number x =>
    refine Accounts.text fun mem => ?_
    rw [← content_number x, Escape.content, String.toList_ofList] at mem
    exact ne_of_mem_content mem rfl
  | bool b => cases b <;> exact Accounts.plain (apart_of_text rfl (by decide)) (by decide)
  | null => exact Accounts.nil
  | undefined => exact Accounts.nil
  | @element tag attrs children name distinct _ ih =>
    obtain ⟨html, own, lock, who⟩ := Registry.markup_standard distinct (w.ids k)
    have script (k' : Nat) := accounts_script ends writes attrs (attrs.who (w.ids k)).id k'
    rw [MarkupWriter.fragments, Node.writtenElements, standard]
    dsimp only
    rw [html, own, lock, who, Attributes.any_isRelocation]
    by_cases isVoid : Node.isVoidTag tag = true
    · simp only [isVoid, if_true, Bool.true_or]
      exact Accounts.void name isVoid (attrs.opened (w.ids k)) (script _)
    · simp only [isVoid, Bool.false_or, Bool.false_eq_true, if_false]
      refine Accounts.element name (w.ids k) ?_ (script _)
      split
      · exact Accounts.nil
      · exact accounts_list ih _
  | component _ ih => exact ih k
  | failure name _ _ message => exact Accounts.comment name message
  | array _ ih => exact accounts_list ih k
  | pending _ ih => exact ih k

end

/-! ### The trees that are written as they are -/

theorem Assembly.prefix_text (a : Assembly) : "<!DOCTYPE".toList <+: a.text.toList := by
  have declaration : "<!DOCTYPE".toList <+: "<!DOCTYPE html><html".toList :=
    ⟨" html><html".toList, rfl⟩
  have more {s t : String} (u : String) (h : s.toList <+: t.toList) :
      s.toList <+: (t ++ u).toList := by
    rw [String.toList_append]
    exact h.trans (List.prefix_append _ _)
  refine more _ (more _ (more _ (more _ (more _ ?_))))
  exact more _ (more _ (more _ (more _ (more _ declaration))))

namespace Accounts

variable {fs : List String} {es : List (String × Attributes)}

theorem unmarked_iff (h : Accounts fs es) :
    (∀ f ∈ fs, Marker.ofFragment f = none) ↔ ∀ e ∈ es, isMistaken e.1 e.2 = false := by
  have none_marked : fs.any isMarker = false ↔ ∀ f ∈ fs, Marker.ofFragment f = none := by
    simp [isMarker]
  rw [← none_marked, h.marked]
  simp

/-- With a marker among them, such fragments are not joined: no document begins like
    the first of them. -/
theorem assemble_eq_join_iff (h : Accounts fs es) :
    assemble fs = String.join fs ↔ ∀ e ∈ es, isMistaken e.1 e.2 = false := by
  rw [← h.unmarked_iff]
  constructor
  · intro same
    by_contra marked
    have some_marker : (fs.filterMap Marker.ofFragment).isEmpty = false := by
      rw [List.isEmpty_eq_false_iff]
      exact fun none => marked (List.filterMap_eq_nil_iff.1 none)
    rw [assemble_of_marker some_marker] at same
    cases fs with
    | nil => exact marked fun f mem => absurd mem List.not_mem_nil
    | cons f fs =>
      have document := Assembly.prefix_text ((f :: fs).foldl (Assembly.add
        (((f :: fs).filterMap Marker.ofFragment).any (·.isSectionTag))) {})
      rw [same, String.join_cons, String.toList_append] at document
      exact h.apart f List.mem_cons_self _ document
  · exact assemble_of_no_marker

end Accounts

/-- **Trees that are written as they are**: those without an element that is taken for
    a part of the document. -/
theorem markupOf_eq_join_iff {n : Node} (untagged : n.Untagged) {w : MarkupWriter}
    (standard : w.registry = .standard) {s : MarkupSettings} (unminified : s.minify = false)
    (k : Nat) : (markupOf w s n k).1 = String.join (w.write n k).1 ↔
      ∀ e ∈ n.writtenElements, isMistaken e.1 e.2 = false := by
  have accounts : Accounts (w.write n k).1 n.writtenElements :=
    accounts_fragments standard (scriptFragments_nil w w.depth)
      (scriptFragments_script standard w.registry.length) untagged k
  have markup : (markupOf w s n k).1 = assemble (w.write n k).1 := by
    simp [markupOf, markupText, unminified]
  rw [markup, accounts.assemble_eq_join_iff]

/-- A tree with names, texts and values that come close to those of a document. -/
def panelSample : Node :=
  .array [
    .element "header" ⟨[("title", .string "<body>"), ("onClick", .string "go()")]⟩
      [.text "html > body", .element "br" ∅ []],
    .component "Panel" ∅ [] (.pending (.element "my-body" ⟨[("hidden", .bool true)]⟩ [.text "x"])),
    .failure "Card" ∅ [] "<html>"]

theorem untagged_panelSample : panelSample.Untagged := by
  have header : IsElementName "header" := ⟨⟨'h', "eader".toList, rfl, rfl⟩, by decide⟩
  have br : IsElementName "br" := ⟨⟨'b', "r".toList, rfl, rfl⟩, by decide⟩
  have panel : IsElementName "my-body" := ⟨⟨'m', "y-body".toList, rfl, rfl⟩, by decide⟩
  refine .array (List.forall_mem_cons.2 ⟨?_, List.forall_mem_cons.2 ⟨?_, ?_⟩⟩)
  · refine .element header (by decide) (List.forall_mem_cons.2 ⟨.text (by decide), ?_⟩)
    exact List.forall_mem_singleton.2 (.element br (by decide) fun n mem => by cases mem)
  · refine .component (.pending (.element panel (by decide) ?_))
    exact List.forall_mem_singleton.2 (.text (by decide))
  · exact List.forall_mem_singleton.2 (.failure ..)

theorem panelSample_written_as_is :
    (markupOf ⟨.standard, ElementId.supply .alphanumeric⟩ {} panelSample 0).1
      = String.join (MarkupWriter.write ⟨.standard, ElementId.supply .alphanumeric⟩
          panelSample 0).1 :=
  (markupOf_eq_join_iff untagged_panelSample rfl rfl 0).2 (by decide +kernel)

/-- The name of an element may begin like one of a document tag, yet `body-panel` is
    taken for the opening tag of a body. -/
theorem body_panel_becomes_document :
    "body-panel".map Char.toLower ∉ documentTags ∧
      (MarkupWriter.write ⟨.standard, ElementId.supply .alphanumeric⟩
        (.element "body-panel" ∅ [.text "x"]) 0).1 = ["<body-panel>", "x", "</body-panel>"] ∧
      (markupOf ⟨.standard, ElementId.supply .alphanumeric⟩ {}
        (.element "body-panel" ∅ [.text "x"]) 0).1
        = "<!DOCTYPE html><html><head></head><body-panel>x</body-panel></body></html>" := by
  decide +kernel

end PageTree
