/-
  PageTree/Proofs/Markup/Decoding.lean
  ====================================
  **Markup is uniquely decodable.**

  A page is a tree of elements and of texts that may be anything: each text is
  escaped when the page becomes a node.  Its normal form is what the markup
  should say: attributes that are not omitted, adjacent texts as one, nothing
  inside void elements.  Reading the markup of a page gives back the normal
  form, so pages with different normal forms have different markup.
-/
import PageTree.Proofs.Markup.RoundTrip

namespace PageTree

/-- A page of elements and unescaped texts. -/
inductive Page where
  | text (s : String)
  | element (tag : String) (attrs : Attributes) (children : List Page)

namespace Page

mutual

def node : Page → Node
  | text s => .escaped s
  | element tag attrs children => .element tag attrs (nodes children)

def nodes : List Page → List Node
  | [] => []
  | p :: ps => node p :: nodes ps

end

mutual

/-- What the page shows, texts not yet joined. -/
def shown : Page → Content
  | text s => .text s
  | element tag attrs children =>
    .element tag attrs.shown (if Node.isVoidTag tag then [] else Content.tidy (shownAll children))

def shownAll : List Page → List Content
  | [] => []
  | p :: ps => shown p :: shownAll ps

end

/-- The normal form of a page. -/
def normalForm (p : Page) : List Content := Content.tidy [p.shown]

/-- Distinct attribute names of small letters, digits and hyphens for which no
    standard handler is responsible. -/
structure WellNamed (attrs : Attributes) : Prop where
  distinct : attrs.keys.Nodup
  nonempty : ∀ key ∈ attrs.keys, key ≠ ""
  symbols : ∀ key ∈ attrs.keys, ∀ c ∈ key.toList, c.isLower = true ∨ c.isDigit = true ∨ c = '-'
  unhandled : ∀ key ∈ attrs.keys, ∀ h ∈ Registry.standard, h.key.applies key = false

/-- A page whose tags are plain and whose attributes are well named. -/
inductive WellFormed : Page → Prop where
  | text (s : String) : WellFormed (.text s)
  | element {tag : String} {attrs : Attributes} {children : List Page} (htag : IsPlainTag tag)
      (hattrs : WellNamed attrs) (hchildren : ∀ p ∈ children, WellFormed p) :
      WellFormed (.element tag attrs children)

theorem WellNamed.legible {attrs : Attributes} (h : WellNamed attrs) : attrs.Legible := by
  refine ⟨⟨h.distinct, fun key hkey => isPlainKey_of_unhandled (h.unhandled key hkey)⟩,
    h.nonempty, ?_⟩
  intro key hkey c hc
  rcases h.symbols key hkey c hc with hlower | hdigit | rfl
  · exact isKeyChar_of_isAlphanum (by simp [Char.isAlphanum, Char.isAlpha, hlower])
  · exact isKeyChar_of_isAlphanum (by simp [Char.isAlphanum, hdigit])
  · decide

theorem mem_nodes {n : Node} {ps : List Page} (h : n ∈ nodes ps) : ∃ p ∈ ps, n = p.node := by
  induction ps with
  | nil => exact absurd h List.not_mem_nil
  | cons p ps ih =>
    rw [nodes] at h
    rcases List.mem_cons.1 h with rfl | h
    · exact ⟨p, List.mem_cons_self, rfl⟩
    · obtain ⟨q, hq, hn⟩ := ih h
      exact ⟨q, List.mem_cons_of_mem p hq, hn⟩

theorem WellFormed.legible {p : Page} (h : p.WellFormed) : p.node.Legible := by
  induction h with
  | text s => exact .text s
  | element htag hattrs _ ih =>
    rw [node]
    refine .element htag hattrs.legible fun n hn => ?_
    obtain ⟨p, hp, rfl⟩ := mem_nodes hn
    exact ih p hp

mutual

theorem content_node (p : Page) : p.node.content = [p.shown] := by
  cases p with
  | text s => rw [node, Node.escaped, Node.content, text_resolve_content, shown]
  | element tag attrs children => rw [node, Node.content, contentOfList_nodes children, shown]

theorem contentOfList_nodes (ps : List Page) : Node.contentOfList (nodes ps) = shownAll ps := by
  cases ps with
  | nil => rfl
  | cons p ps =>
    rw [nodes, Node.contentOfList, content_node p, contentOfList_nodes ps, shownAll]
    rfl

end

/-- **Unique decodability.**  The markup of a page reads back as its normal form,
    and no page with another normal form has the same markup. -/
theorem markup_uniquely_decodable {s : MarkupSettings} (hs : s.minify = false)
    (ids : Nat → String) (k : Nat) {p : Page} (hp : p.WellFormed) :
    readMarkup (markupOf ⟨.standard, ids⟩ s p.node k).1 = some p.normalForm ∧
      ∀ (ids' : Nat → String) (k' : Nat) (q : Page), q.WellFormed → q.normalForm ≠ p.normalForm →
        (markupOf ⟨.standard, ids'⟩ s q.node k').1 ≠ (markupOf ⟨.standard, ids⟩ s p.node k).1 := by
  have hread : ∀ (ids : Nat → String) (k : Nat) {p : Page}, p.WellFormed →
      readMarkup (markupOf ⟨.standard, ids⟩ s p.node k).1 = some p.normalForm := by
    intro ids k p hp
    rw [readMarkup_markupOf hp.legible hs, content_node]
    rfl
  refine ⟨hread ids k hp, ?_⟩
  intro ids' k' q hq hne heq
  have hsame : some q.normalForm = some p.normalForm := by
    rw [← hread ids' k' hq, heq, hread ids k hp]
  exact hne (Option.some.inj hsame)

/-- A page with every kind of attribute, adjacent texts and a void element. -/
def sample : Page :=
  .element "p"
    ⟨[("title", .string "a\"<&b"), ("hidden", .bool true), ("lang", .null), ("data-n", .json .null)]⟩
    [.text "x<y", .text "&amp;", .element "br" ∅ [.text "z"]]

theorem wellFormed_sample : sample.WellFormed := by
  refine .element ⟨by decide, forall_mem_of_all (by decide), by decide +kernel⟩
      ⟨by decide, by decide, forall_mem_toList_of_all (by decide), by decide⟩ ?_
  intro p hp
  simp only [List.mem_cons, List.not_mem_nil, or_false] at hp
  rcases hp with rfl | rfl | rfl
  · exact .text _
  · exact .text _
  · refine .element ⟨by decide, forall_mem_of_all (by decide), by decide +kernel⟩
      ⟨by decide, by decide, forall_mem_toList_of_all (by decide), by decide⟩ ?_
    intro p hp
    rw [List.mem_singleton.1 hp]
    exact .text _

theorem normalForm_sample :
    sample.normalForm = [.element "p" [("title", some "a\"<&b"), ("hidden", none),
      ("data-n", some "null")] [.text "x<y&amp;", .element "br" [] []]] := by
  cbv

theorem sample_uniquely_decodable :
    ({} : MarkupSettings).minify = false ∧ sample.WellFormed ∧
      readMarkup (markupOf ⟨.standard, ElementId.supply .alphanumeric⟩ {} sample.node 0).1 =
        some [.element "p" [("title", some "a\"<&b"), ("hidden", none), ("data-n", some "null")]
          [.text "x<y&amp;", .element "br" [] []]] := by
  refine ⟨rfl, wellFormed_sample, ?_⟩
  rw [← normalForm_sample]
  exact (markup_uniquely_decodable rfl (ElementId.supply .alphanumeric) 0 wellFormed_sample).1

/-- Where markup does not say which page it was written for: a reserved attribute
    leaves no trace, and the tags of a document are taken for its frame in any
    case. -/
theorem reserved_attribute_not_decodable :
    WellNamed ⟨[("children", .string "x")]⟩ ∧
      shownAttribute "children" (.string "x") = some ("children", some "x") ∧
      readMarkup (markupOf ⟨.standard, ElementId.supply .alphanumeric⟩ {}
        (element "p" ⟨[("children", .string "x")]⟩ []).node 0).1 = some [.element "p" [] []] ∧
      (markupOf ⟨.standard, ElementId.supply .alphanumeric⟩ {}
        (element "p" ⟨[("children", .string "x")]⟩ []).node 0).1 =
        (markupOf ⟨.standard, ElementId.supply .alphanumeric⟩ {} (element "p" ∅ []).node 0).1 ∧
      (markupOf ⟨.standard, ElementId.supply .alphanumeric⟩ {} (element "HTML" ∅ []).node 0).1 =
        "<!DOCTYPE html><html><head></head><body></body></html>" := by
  have hhtml : (markupOf ⟨.standard, ElementId.supply .alphanumeric⟩ {}
      (element "p" ⟨[("children", .string "x")]⟩ []).node 0).1 = "<p></p>" := by decide +kernel
  refine ⟨⟨by decide, by decide, forall_mem_toList_of_all (by decide), by decide⟩, by cbv, ?_, ?_,
    by decide +kernel⟩
  · rw [hhtml]
    cbv
  · rw [hhtml]
    decide +kernel

end Page

end PageTree
