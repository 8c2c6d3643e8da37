/-
  PageTree/Proofs/Markup/OutermostTag.lean
  ========================================
  **The outermost opening tag in the markup of a page.**

  The first fragment of an element is its opening tag.  Where a document is put
  together, a tag that belongs to the document gives way to the one of its section,
  which takes over the attributes of the last such tag; every other tag is kept as it
  is.  So the attributes stand in the markup, unless another tag of the same section
  takes their place.

    * `Marker.opening_of_ofFragment`: what an opening tag can be as a marker;
    * `infix_assemble`: its attributes in the markup.
-/
import PageTree.Markup.Assembly
import PageTree.Proofs.Markup.Tags
import PageTree.Proofs.Scanning

namespace PageTree

open Text

/-! ### Opening tags as markers -/

/-- The names that an element can have. -/
structure IsTagName (tag : String) : Prop where
  letter : ∃ c cs, tag.toList = c :: cs ∧ c.isAlpha = true
  plain : ∀ c ∈ tag.toList, c ≠ '>' ∧ c ≠ '"'

/-- Dropping trailing characters stops at one that is to stay. -/
theorem prefix_dropTrailing {p : Char → Bool} {s : List Char} {c : Char} (stays : p c = false)
    (t : List Char) : s ++ [c] <+: dropTrailing p (s ++ [c] ++ t) := by
  induction t using List.reverseRecOn with
  | nil => rw [List.append_nil, dropTrailing_append_singleton, stays, if_neg Bool.false_ne_true]
  | append_singleton t d ih =>
    rw [← List.append_assoc, dropTrailing_append_singleton]
    split
    · exact ih
    · exact (List.prefix_append _ t).trans (List.prefix_append _ [d])

/-- As a marker an opening tag opens a section, which carries the attributes. -/
theorem Marker.opening_of_ofFragment {tag : String} (name : IsTagName tag) {as bs : List Char}
    (before : ∀ c ∈ as, c ≠ '>') (after : ∀ c ∈ bs, c ≠ '>') {m : Marker}
    (h : ofFragment (String.ofList ('<' :: (tag.toList ++ ' ' :: (as ++ '"' :: bs) ++ ['>'])))
      = some m) :
    ∃ sec attrs, m = .opening sec attrs ∧ ' ' :: (as ++ ['"']) <:+: attrs.toList := by
  obtain ⟨c, cs, spelled, letter⟩ := name.letter
  have slash : c ≠ '/' := by rintro rfl; exact absurd letter (by decide)
  have bang : c ≠ '!' := by rintro rfl; exact absurd letter (by decide)
  rw [ofFragment_lt] at h
  have name_first : tag.toList ++ ' ' :: (as ++ '"' :: bs) ++ ['>']
      = c :: (cs ++ ' ' :: (as ++ '"' :: bs) ++ ['>']) := by
    rw [spelled, List.cons_append, List.cons_append]
  rw [name_first, ofTag_of_name slash bang, ← name_first] at h
  obtain ⟨⟨sec, rest⟩, found, h⟩ := Option.bind_eq_some_iff.1 h
  dsimp only at h
  split at h
  · cases h
  obtain ⟨inner, ends, rfl⟩ := Option.map_eq_some_iff.1 h
  refine ⟨sec, _, rfl, ?_⟩
  obtain ⟨word, document, dropped⟩ := exists_of_takeSection found
  have absent : foldAscii ' ' ∉ word.toList := by
    have all : ∀ w ∈ documentTags, ∀ x ∈ w.toList, foldAscii ' ' ≠ x :=
      forall_mem_toList_of_all (by decide)
    exact fun blank => all word document _ blank rfl
  rw [List.append_assoc, List.cons_append] at dropped
  obtain ⟨front, back, whole, -, rfl⟩ := exists_of_dropWordIgnoringCase absent dropped
  have closed : '>' ∉ back ++ ' ' :: (as ++ '"' :: bs) := by
    intro bracket
    simp only [List.mem_append, List.mem_cons] at bracket
    rcases bracket with inside | blank | inside | quote | inside
    · exact (name.plain _ (whole ▸ List.mem_append_right front inside)).1 rfl
    · exact absurd blank (by decide)
    · exact before _ inside rfl
    · exact absurd quote (by decide)
    · exact after _ inside rfl
  have text : back ++ ' ' :: ((as ++ '"' :: bs) ++ ['>'])
      = back ++ ' ' :: (as ++ '"' :: bs) ++ '>' :: [] := by simp
  have taken : back ++ ' ' :: (as ++ '"' :: bs) = inner := by
    rw [text, tagRest, cutAt_singleton closed] at ends
    exact Option.some.inj ends
  have split : back ++ ' ' :: (as ++ '"' :: bs) = back ++ ' ' :: as ++ ['"'] ++ bs := by simp
  rw [String.toList_ofList, ← taken, split]
  have kept := prefix_dropTrailing (p := (· == '/')) (by decide : ('"' == '/') = false)
    (s := back ++ ' ' :: as) bs
  refine List.IsInfix.trans ?_ kept.isInfix
  exact ⟨back, [], by simp⟩

/-- Where the first of some fragments opens a section of the document, no other one
    opens it again. -/
def Marker.Lasting : List String → Prop
  | [] => True
  | f :: fs => ∀ sec attrs, ofFragment f = some (.opening sec attrs) →
      ∀ g ∈ fs, ∀ attrs', ofFragment g ≠ some (.opening sec attrs')

theorem Marker.lasting_of_unmarked {fs : List String} (h : ∀ f ∈ fs, ofFragment f = none) :
    Lasting fs := by
  cases fs with
  | nil => trivial
  | cons f fs =>
    intro sec attrs opening
    rw [h f List.mem_cons_self] at opening
    cases opening

/-! ### Putting a document together -/

namespace Assembly

/-- The attributes that the tag of a section is to carry. -/
def attributesOf (a : Assembly) : Section → String
  | .html => a.htmlAttributes
  | .head => a.headAttributes
  | .body => a.bodyAttributes

variable {hasSections : Bool} {a : Assembly} {f : String}

/-- Head and body only grow. -/
theorem prefix_add : a.head.toList <+: (a.add hasSections f).head.toList ∧
    a.body.toList <+: (a.add hasSections f).body.toList := by
  unfold add
  split
  case h_7 =>
    split <;> simp
  all_goals exact ⟨List.prefix_rfl, List.prefix_rfl⟩

theorem prefix_foldl_add (hasSections : Bool) (fs : List String) (a : Assembly) :
    a.head.toList <+: (fs.foldl (add hasSections) a).head.toList ∧
      a.body.toList <+: (fs.foldl (add hasSections) a).body.toList := by
  induction fs generalizing a with
  | nil => exact ⟨List.prefix_rfl, List.prefix_rfl⟩
  | cons f fs ih =>
    obtain ⟨head, body⟩ := ih (a.add hasSections f)
    exact ⟨prefix_add.1.trans head, prefix_add.2.trans body⟩

theorem attributesOf_add {sec : Section} {attrs : String}
    (h : Marker.ofFragment f = some (.opening sec attrs)) :
    (a.add hasSections f).attributesOf sec = attrs := by
  rw [add, h]
  cases sec <;> rfl

/-- Only an opening tag of the section changes what its tag is to carry. -/
theorem attributesOf_add_of_ne {sec : Section}
    (h : ∀ attrs, Marker.ofFragment f ≠ some (.opening sec attrs)) :
    (a.add hasSections f).attributesOf sec = a.attributesOf sec := by
  rw [add]
  cases marker : Marker.ofFragment f with
  | none =>
    dsimp only
    split <;> cases sec <;> rfl
  | some m =>
    cases m with
    | doctype => rfl
    | closing sec' => cases sec' <;> cases sec <;> rfl
    | opening sec' attrs =>
      cases sec' <;> cases sec <;> first | rfl | exact absurd marker (h attrs)

theorem attributesOf_foldl_add {sec : Section} {fs : List String}
    (h : ∀ f ∈ fs, ∀ attrs, Marker.ofFragment f ≠ some (.opening sec attrs)) (a : Assembly) :
    (fs.foldl (add hasSections) a).attributesOf sec = a.attributesOf sec := by
  induction fs generalizing a with
  | nil => rfl
  | cons f fs ih =>
    obtain ⟨here, later⟩ := List.forall_mem_cons.1 h
    rw [List.foldl_cons, ih later, attributesOf_add_of_ne here]

/-- The text of a document holds its head, its body and what its tags carry. -/
theorem infix_text (a : Assembly) : a.head.toList <:+: a.text.toList ∧
    a.body.toList <:+: a.text.toList ∧
      ∀ sec, (a.attributesOf sec).toList <:+: a.text.toList := by
  have spelled : a.text = "<!DOCTYPE html><html" ++ a.htmlAttributes ++ "><head"
      ++ a.headAttributes ++ ">" ++ a.head ++ "</head><body" ++ a.bodyAttributes ++ ">" ++ a.body
      ++ "</body></html>" := rfl
  have last (s t : String) : t.toList <:+: (s ++ t).toList := by
    rw [String.toList_append]
    exact (List.suffix_append _ _).isInfix
  have more {s t : String} (u : String) (h : s.toList <:+: t.toList) :
      s.toList <:+: (t ++ u).toList := by
    rw [String.toList_append]
    exact h.trans (List.prefix_append _ _).isInfix
  rw [spelled]
  refine ⟨?_, ?_, fun sec => ?_⟩
  · exact more _ (more _ (more _ (more _ (more _ (last _ _)))))
  · exact more _ (last _ _)
  · cases sec with
    | html =>
      exact more _ (more _ (more _ (more _ (more _ (more _ (more _ (more _ (more _ (last _ _)))))))))
    | head => exact more _ (more _ (more _ (more _ (more _ (more _ (more _ (last _ _)))))))
    | body => exact more _ (more _ (more _ (last _ _)))

end Assembly

section

variable {f : String} {fs : List String}

/-- With a marker among them, fragments are put together to a document. -/
theorem assemble_of_marker (hasMarker : (fs.filterMap Marker.ofFragment).isEmpty = false) :
    assemble fs = (fs.foldl (Assembly.add
      ((fs.filterMap Marker.ofFragment).any (·.isSectionTag))) {}).text := by
  simp [assemble, hasMarker]

/-- A first fragment that is no marker is kept as it is. -/
theorem infix_assemble_of_unmarked (unmarked : Marker.ofFragment f = none) (fs : List String) :
    f.toList <:+: (assemble (f :: fs)).toList := by
  cases empty : ((f :: fs).filterMap Marker.ofFragment).isEmpty with
  | true =>
    have joined : assemble (f :: fs) = f ++ String.join fs := by
      rw [assemble]
      simp [empty]
    rw [joined, String.toList_append]
    exact (List.prefix_append _ _).isInfix
  | false =>
    rw [assemble_of_marker empty, List.foldl_cons]
    generalize ((f :: fs).filterMap Marker.ofFragment).any (·.isSectionTag) = hasSections
    have first : f.toList <+: (Assembly.add hasSections {} f).head.toList ∨
        f.toList <+: (Assembly.add hasSections {} f).body.toList := by
      rw [Assembly.add, unmarked]
      cases hasSections <;> simp [Assembly.toHead]
    obtain ⟨head, body⟩ :=
      Assembly.prefix_foldl_add hasSections fs (Assembly.add hasSections {} f)
    obtain ⟨inHead, inBody, -⟩ := Assembly.infix_text
      (fs.foldl (Assembly.add hasSections) (Assembly.add hasSections {} f))
    rcases first with first | first
    · exact (first.trans head).isInfix.trans inHead
    · exact (first.trans body).isInfix.trans inBody

/-- What a first fragment gives the tag of its section stays there, unless another
    one takes its place. -/
theorem infix_assemble_of_opening {sec : Section} {attrs : String}
    (opening : Marker.ofFragment f = some (.opening sec attrs))
    (once : ∀ g ∈ fs, ∀ attrs', Marker.ofFragment g ≠ some (.opening sec attrs')) :
    attrs.toList <:+: (assemble (f :: fs)).toList := by
  have some_marker : ((f :: fs).filterMap Marker.ofFragment).isEmpty = false := by
    simp [opening]
  rw [assemble_of_marker some_marker, List.foldl_cons]
  obtain ⟨-, -, carried⟩ := Assembly.infix_text (fs.foldl (Assembly.add
    (((f :: fs).filterMap Marker.ofFragment).any (·.isSectionTag))) (Assembly.add _ {} f))
  have kept := carried sec
  rwa [Assembly.attributesOf_foldl_add once, Assembly.attributesOf_add opening] at kept

/-- **The attributes of the outermost tag** stand in the markup, up to the last quote
    as they are. -/
theorem infix_assemble {tag : String} (name : IsTagName tag) {as bs : List Char}
    (before : ∀ c ∈ as, c ≠ '>') (after : ∀ c ∈ bs, c ≠ '>')
    (spelled : f = String.ofList ('<' :: (tag.toList ++ ' ' :: (as ++ '"' :: bs) ++ ['>'])))
    (lasting : Marker.Lasting (f :: fs)) :
    ' ' :: (as ++ ['"']) <:+: (assemble (f :: fs)).toList := by
  cases marker : Marker.ofFragment f with
  | none =>
    refine List.IsInfix.trans ?_ (infix_assemble_of_unmarked marker fs)
    rw [spelled, String.toList_ofList]
    exact ⟨'<' :: tag.toList, bs ++ ['>'], by simp⟩
  | some m =>
    obtain ⟨sec, attrs, rfl, inside⟩ :=
      Marker.opening_of_ofFragment name before after (spelled ▸ marker)
    exact inside.trans (infix_assemble_of_opening marker (lasting sec attrs marker))

end

end PageTree
