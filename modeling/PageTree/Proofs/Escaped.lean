/-
  PageTree/Proofs/Escaped.lean
  ============================
  **Escaped texts in both outputs.**

  A text that must not be read as markup is escaped when its node is made.  The
  markup has the node's text as it stands, and there it is read as the text that
  was meant, with its references resolved.  The code makes a text node of the same
  characters, where nothing resolves references: it shows the text that was meant
  only if there was nothing to escape in it.

    * `assemble_text`: where a text is in the markup of a whole document;
    * `readsAs_content`: how an escaped text is read;
    * `escaped_text_in_outputs`: a node for an escaped text, anywhere in a tree.
-/
import PageTree.Proofs.Places
import PageTree.Proofs.Script.Source

namespace PageTree

/-! ### A text among the fragments of a document -/

namespace Assembly

variable (hasSections : Bool)

/-- The assembly without what has been written to the head and to the body. -/
def bare (a : Assembly) : Assembly := { a with head := "", body := "" }

/-- The assembly with text in front of what has been written. -/
def after (head body : String) (a : Assembly) : Assembly :=
  { a with head := head ++ a.head, body := body ++ a.body }

/-- What is written next does not depend on what has been written. -/
theorem add_after (a : Assembly) (f : String) :
    a.add hasSections f = (a.bare.add hasSections f).after a.head a.body := by
  unfold add
  cases Marker.ofFragment f with
  | none =>
    dsimp only [bare]
    by_cases head : toHead hasSections a.position = true <;> simp [head, after]
  | some marker =>
    cases marker with
    | doctype => simp [after, bare]
    | opening sec attrs => cases sec <;> simp [after, bare]
    | closing sec => cases sec <;> simp [after, bare]

theorem foldl_add_after (fs : List String) (a : Assembly) :
    fs.foldl (add hasSections) a
      = (fs.foldl (add hasSections) a.bare).after a.head a.body := by
  induction fs generalizing a with
  | nil => simp [after, bare]
  | cons f fs ih =>
    have next := add_after hasSections a f
    have same : (a.add hasSections f).bare = (a.bare.add hasSections f).bare := by
      rw [next]
      rfl
    rw [List.foldl_cons, List.foldl_cons, ih, ih (a.bare.add hasSections f), same, next]
    simp [after, String.append_assoc]

theorem foldl_add_text {s : String} (plain : ∀ c ∈ s.toList, c ≠ '<') (a : Assembly) :
    (MarkupWriter.textFragments s).foldl (add hasSections) a
      = if toHead hasSections a.position then { a with head := a.head ++ s }
        else { a with body := a.body ++ s } := by
  unfold MarkupWriter.textFragments
  split
  · next empty =>
    rw [String.isEmpty_iff.1 empty]
    split <;> simp
  · rw [List.foldl_cons, List.foldl_nil, add, Marker.ofFragment_text plain]

theorem text_after (head body : String) (a : Assembly) :
    (a.after head body).text
      = "<!DOCTYPE html><html" ++ a.htmlAttributes ++ "><head" ++ a.headAttributes ++ ">"
        ++ (head ++ a.head) ++ "</head><body" ++ a.bodyAttributes ++ ">" ++ (body ++ a.body)
        ++ "</body></html>" := rfl

end Assembly

open MarkupWriter in
/-- A text among fragments stands in the whole markup between texts that do not depend
    on it. -/
theorem assemble_text (front back : List String) :
    ∃ before after : String, ∀ s : String, (∀ c ∈ s.toList, c ≠ '<') →
      assemble (front ++ (textFragments s ++ back)) = before ++ s ++ after := by
  have markers {s : String} (plain : ∀ c ∈ s.toList, c ≠ '<') :
      (front ++ (textFragments s ++ back)).filterMap Marker.ofFragment
        = (front ++ back).filterMap Marker.ofFragment := by
    have none : (textFragments s).filterMap Marker.ofFragment = [] := by
      unfold textFragments
      split
      · rfl
      · rw [List.filterMap_cons_none (Marker.ofFragment_text plain), List.filterMap_nil]
    simp [none]
  cases joined : ((front ++ back).filterMap Marker.ofFragment).isEmpty with
  | true =>
    refine ⟨String.join front, String.join back, fun s plain => ?_⟩
    have text : String.join (textFragments s) = s := by
      unfold textFragments
      split
      · next empty => exact (String.isEmpty_iff.1 empty).symm
      · simp
    unfold assemble
    simp only [markers plain, joined, if_true]
    rw [String.join_append, String.join_append, text, String.append_assoc]
  | false =>
    generalize sections : ((front ++ back).filterMap Marker.ofFragment).any (·.isSectionTag)
      = hasSections
    generalize ahead : front.foldl (Assembly.add hasSections) {} = a
    generalize behind : back.foldl (Assembly.add hasSections) a.bare = r
    have whole {s : String} (plain : ∀ c ∈ s.toList, c ≠ '<') :
        assemble (front ++ (textFragments s ++ back))
          = (back.foldl (Assembly.add hasSections)
              (if Assembly.toHead hasSections a.position then { a with head := a.head ++ s }
                else { a with body := a.body ++ s })).text := by
      unfold assemble
      simp only [markers plain, joined, sections, Bool.false_eq_true, if_false, List.foldl_append,
        ahead]
      rw [Assembly.foldl_add_text hasSections plain]
    cases position : Assembly.toHead hasSections a.position with
    | true =>
      refine ⟨"<!DOCTYPE html><html" ++ r.htmlAttributes ++ "><head" ++ r.headAttributes ++ ">"
          ++ a.head,
        r.head ++ "</head><body" ++ r.bodyAttributes ++ ">" ++ (a.body ++ r.body)
          ++ "</body></html>", fun s plain => ?_⟩
      have rest := Assembly.foldl_add_after hasSections back { a with head := a.head ++ s }
      rw [whole plain, position, if_pos rfl, rest,
        Assembly.text_after, ← String.toList_inj]
      simp only [Assembly.bare, ← behind, String.toList_append, List.append_assoc]
    | false =>
      refine ⟨"<!DOCTYPE html><html" ++ r.htmlAttributes ++ "><head" ++ r.headAttributes ++ ">"
          ++ (a.head ++ r.head) ++ "</head><body" ++ r.bodyAttributes ++ ">" ++ a.body,
        r.body ++ "</body></html>", fun s plain => ?_⟩
      have rest := Assembly.foldl_add_after hasSections back { a with body := a.body ++ s }
      rw [whole plain, position, if_neg Bool.false_ne_true, rest,
        Assembly.text_after, ← String.toList_inj]
      simp only [Assembly.bare, ← behind, String.toList_append, List.append_assoc]

/-! ### How an escaped text is read -/

namespace Escape

/-- The text does not end within a reference. -/
def Complete (s : List Char) : Prop := ∀ more, resolve (s ++ more) = resolve s ++ resolve more

theorem resolve_content_append (s more : List Char) :
    resolve (s.flatMap contentChar ++ more) = s ++ resolve more := by
  induction s with
  | nil => rfl
  | cons c cs ih =>
    rw [List.flatMap_cons, List.append_assoc, resolve_contentChar, ih, List.cons_append]

end Escape

/-- Where text is read, the piece is read as this text, whatever is around it. -/
structure ReadsAs (piece s : String) : Prop where
  /-- A reader of text goes on reading text. -/
  plain : ∀ raw d os, MarkupReader.feed ⟨.data raw, d, os⟩ piece.toList
    = some ⟨.data (raw ++ piece.toList), d, os⟩
  /-- The references of the piece are resolved on their own. -/
  resolved : ∀ before after, Escape.Complete before →
    Escape.resolve (before ++ (piece.toList ++ after))
      = Escape.resolve before ++ (s.toList ++ Escape.resolve after)

theorem ne_lt_of_mem_content (s : String) : ∀ c ∈ (Escape.content s).toList, c ≠ '<' := by
  intro c mem
  rw [Escape.content, String.toList_ofList] at mem
  exact ne_of_mem_content mem

theorem readsAs_content (s : String) : ReadsAs (Escape.content s) s where
  plain := MarkupReader.feed_data (ne_lt_of_mem_content s)
  resolved before after complete := by
    rw [complete, Escape.content, String.toList_ofList, Escape.resolve_content_append]

/-! ### What there is to escape -/

theorem length_contentChar (c : Char) :
    1 ≤ (Escape.contentChar c).length ∧
      (c ∈ markupSymbols → 2 ≤ (Escape.contentChar c).length) := by
  unfold Escape.contentChar
  split
  · simp
  split
  · simp
  split
  · simp
  split
  · simp
  split
  · simp
  · simp_all [markupSymbols]

theorem length_content (s : List Char) : s.length ≤ (s.flatMap Escape.contentChar).length ∧
    ((∃ c ∈ s, c ∈ markupSymbols) → s.length < (s.flatMap Escape.contentChar).length) := by
  induction s with
  | nil => simp
  | cons c cs ih =>
    obtain ⟨whole, strict⟩ := ih
    obtain ⟨one, two⟩ := length_contentChar c
    rw [List.flatMap_cons, List.length_append, List.length_cons]
    refine ⟨by omega, ?_⟩
    rintro ⟨d, mem, symbol⟩
    rcases List.mem_cons.1 mem with rfl | later
    · have := two symbol
      omega
    · have := strict ⟨d, later, symbol⟩
      omega

/-- Escaping leaves exactly the texts alone in which there is nothing to escape. -/
theorem content_eq_self_iff (s : String) :
    Escape.content s = s ↔ ∀ c ∈ s.toList, c ∉ markupSymbols := by
  refine ⟨fun same c mem symbol => ?_, content_of_no_symbol⟩
  have longer := (length_content s.toList).2 ⟨c, mem, symbol⟩
  rw [← String.toList_inj, Escape.content, String.toList_ofList] at same
  rw [same] at longer
  exact absurd longer (lt_irrefl _)

/-! ### A node for an escaped text -/

section

variable {place : Place} {k : Nat}

/-- In the markup an escaped text stands between texts that do not depend on it. -/
theorem markupOf_fill_escaped {w : MarkupWriter}
    (reached : w.Reaches (w.scriptFragments w.depth) place k) {settings : MarkupSettings}
    (whole : settings.minify = false) :
    ∃ before after : String, ∀ s, (markupOf w settings (place.fill (.escaped s)) k).1
      = before ++ Escape.content s ++ after := by
  obtain ⟨front, back, k', filled⟩ := MarkupWriter.fragments_fill_text reached
  obtain ⟨before, after, assembled⟩ := assemble_text front back
  refine ⟨before, after, fun s => ?_⟩
  rw [← assembled _ (ne_lt_of_mem_content s)]
  unfold markupOf markupText MarkupWriter.write
  dsimp only
  rw [Node.escaped, filled, whole]
  rfl

/-- In the code an escaped text is added between statements that do not depend on
    it. -/
theorem codeOf_fill_escaped {registry : Registry} {ids : Nat → String} {settings : CodeSettings}
    (reached : CodeWriter.Reaches ⟨registry, ids, settings.stem⟩ place settings.rootName
      { ids := k }) (named : settings.minify = false) (whole : settings.compact = false) :
    ∃ front around back, ∀ s, (codeOf registry ids settings (place.fill (.escaped s)) k).1
      = codeText settings.root
          (front ++ (CodeWriter.textStatements around (Escape.content s) ++ back)) := by
  obtain ⟨front, around, back, k', filled⟩ := CodeWriter.walk_fill_text reached
  refine ⟨front, around, back, fun s => ?_⟩
  unfold codeOf statementsOf CodeSettings.finish
  dsimp only
  rw [Node.escaped, filled, named, whole]
  rfl

end

theorem content_ne_empty {s : String} (nonempty : s ≠ "") : Escape.content s ≠ "" := by
  intro empty
  refine nonempty (String.toList_eq_nil_iff.1 (List.eq_nil_of_length_eq_zero ?_))
  have shorter := (length_content s.toList).1
  rw [← String.toList_inj, Escape.content, String.toList_ofList] at empty
  rw [empty] at shorter
  exact Nat.le_zero.1 shorter

/-- The statement that a text has, with the text that its literal denotes. -/
theorem textStatements_literal {s : String} (nonempty : s ≠ "") (around : String) :
    ∃ literal, (CodeWriter.textStatements around s).map (·.text)
        = [around ++ ".appendChild(document.createTextNode(" ++ literal ++ "));"] ∧
      CodeReader.literal? literal.toList = some (s, []) := by
  have read := CodeReader.literal?_append s []
  rw [List.append_nil] at read
  refine ⟨Escape.stringLiteral s, ?_, read⟩
  rw [CodeWriter.textStatements, if_neg (by simpa using nonempty)]
  rfl

/-- **A node for an escaped text** anywhere in a tree.  Where the markup comes to it,
    its piece of the markup is read as the text.  Where the code comes to it, it adds
    one text node, if the text is not empty; the characters of this text node are the
    text if and only if nothing in the text had to be escaped.  Where they do not come
    to it, it has no part in the output. -/
theorem escaped_text_in_outputs (place : Place) (k : Nat) (w : MarkupWriter)
    {markup : MarkupSettings} (wholeMarkup : markup.minify = false) (registry : Registry)
    (ids : Nat → String) {code : CodeSettings} (named : code.minify = false)
    (wholeCode : code.compact = false) :
    (w.Reaches (w.scriptFragments w.depth) place k →
      ∃ before after : String, ∀ s, ∃ piece,
        (markupOf w markup (place.fill (.escaped s)) k).1 = before ++ piece ++ after ∧
        ReadsAs piece s) ∧
    (¬ w.Reaches (w.scriptFragments w.depth) place k → ∀ s n,
      markupOf w markup (place.fill (.escaped s)) k = markupOf w markup (place.fill n) k) ∧
    (CodeWriter.Reaches ⟨registry, ids, code.stem⟩ place code.rootName { ids := k } →
      ∃ front around back, ∀ s, ∃ statements,
        (codeOf registry ids code (place.fill (.escaped s)) k).1
          = codeText code.root (front ++ (statements ++ back)) ∧
        (s = "" → statements = []) ∧
        (s ≠ "" → ∃ literal shown,
          statements.map (·.text)
            = [around ++ ".appendChild(document.createTextNode(" ++ literal ++ "));"] ∧
          CodeReader.literal? literal.toList = some (shown, []) ∧
          (shown = s ↔ ∀ c ∈ s.toList, c ∉ markupSymbols))) ∧
    (¬ CodeWriter.Reaches ⟨registry, ids, code.stem⟩ place code.rootName { ids := k } → ∀ s n,
      codeOf registry ids code (place.fill (.escaped s)) k
        = codeOf registry ids code (place.fill n) k) := by
  refine ⟨fun reached => ?_, fun unreached s n => ?_, fun reached => ?_, fun unreached s n => ?_⟩
  · obtain ⟨before, after, written⟩ := markupOf_fill_escaped reached wholeMarkup
    exact ⟨before, after, fun s => ⟨Escape.content s, written s, readsAs_content s⟩⟩
  · rw [markupOf, markupOf, MarkupWriter.write, MarkupWriter.write,
      MarkupWriter.fragments_fill_unreached unreached (.escaped s) n]
  · obtain ⟨front, around, back, built⟩ := codeOf_fill_escaped reached named wholeCode
    refine ⟨front, around, back, fun s =>
      ⟨CodeWriter.textStatements around (Escape.content s), built s, ?_, fun nonempty => ?_⟩⟩
    · rintro rfl
      rfl
    · obtain ⟨literal, text, read⟩ := textStatements_literal (content_ne_empty nonempty) around
      exact ⟨literal, Escape.content s, text, read, content_eq_self_iff s⟩
  · rw [codeOf, codeOf, statementsOf, statementsOf,
      CodeWriter.walk_fill_unreached unreached (.escaped s) n]

/-- A paragraph with an icon in front of its text. -/
def captionPlace : Place :=
  .array [.text "<hr>"] (.element "p" ∅ [.element "img" ∅ []] (.pending .here) [.bool true]) []

def captionWriter : MarkupWriter := ⟨.standard, fun n => "x" ++ toString n⟩

theorem caption_in_outputs :
    (∃ before after piece : String,
      (markupOf captionWriter {} (captionPlace.fill (.escaped "if a < b")) 0).1
        = before ++ piece ++ after ∧ ReadsAs piece "if a < b") ∧
    ∃ front around back statements literal,
      (codeOf .standard captionWriter.ids {} (captionPlace.fill (.escaped "if a or b")) 0).1
        = codeText (.element "root" "div") (front ++ (statements ++ back)) ∧
      statements.map (·.text)
        = [around ++ ".appendChild(document.createTextNode(" ++ literal ++ "));"] ∧
      CodeReader.literal? literal.toList = some ("if a or b", []) := by
  have wholeMarkup : ({} : MarkupSettings).minify = false := rfl
  have named : ({} : CodeSettings).minify = false := rfl
  have wholeCode : ({} : CodeSettings).compact = false := rfl
  obtain ⟨inMarkup, -, inCode, -⟩ := escaped_text_in_outputs captionPlace 0 captionWriter
    wholeMarkup .standard captionWriter.ids named wholeCode
  obtain ⟨before, after, written⟩ := inMarkup ⟨by decide +kernel, by decide +kernel, trivial⟩
  obtain ⟨piece, whole, reads⟩ := written "if a < b"
  obtain ⟨front, around, back, built⟩ := inCode ⟨by decide +kernel, by decide +kernel, trivial⟩
  obtain ⟨statements, text, -, line⟩ := built "if a or b"
  obtain ⟨literal, shown, line, read, same⟩ := line (by decide)
  have unchanged : shown = "if a or b" := same.2 (forall_mem_of_all (by decide))
  exact ⟨⟨before, after, piece, whole, reads⟩, front, around, back, statements, literal, text, line,
    unchanged ▸ read⟩

/-- An opening angle bracket is read as one in the markup, and the text node shows its
    reference. -/
theorem bracket_shown_as_reference :
    (markupOf captionWriter {} (.escaped "<") 0).1 = "&lt;" ∧
    ReadsAs "&lt;" "<" ∧
    (codeOf .standard captionWriter.ids {} (.escaped "<") 0).1
      = "var root = document.createElement(\"div\");\n\x7b\n"
        ++ "root.appendChild(document.createTextNode(\"&lt;\"));\n\x7d" ∧
    CodeReader.literal? "\"&lt;\"".toList = some ("&lt;", []) := by
  exact ⟨by decide +kernel, readsAs_content "<", by decide +kernel, by decide +kernel⟩

end PageTree
