/-
  PageTree/Proofs/Markup/Tags.lean
  ================================
  **Tags that are no markers.**

  A plain tag has a name of ASCII letters and digits that names neither the
  document element nor one of its sections, in any case.  The tags of plain
  elements, and texts without an opening angle bracket, are never taken for a
  marker, so fragments of these kinds are joined as they are.
-/
import PageTree.Markup.Assembly
import PageTree.Proofs.Content
import PageTree.Proofs.Scanning

namespace PageTree

open Text

/-! ### Letters and digits -/

theorem ne_of_isAlphanum {c d : Char} (h : c.isAlphanum = true) (hd : d.isAlphanum = false) :
    c ≠ d := by
  rintro rfl
  rw [h] at hd
  exact Bool.noConfusion hd

theorem isBlank_of_isAlphanum {c : Char} (h : c.isAlphanum = true) : isBlank c = false := by
  have hn := toNat_of_isAlphanum h
  simp only [isBlank, Bool.or_eq_false_iff, Bool.and_eq_false_iff, beq_eq_false_iff_ne,
    decide_eq_false_iff_not, ne_eq]
  omega

theorem foldAscii_of_isAlphanum {c : Char} (h : c.isAlphanum = true) :
    foldAscii c = c.toLower := by
  have h₁ : c ≠ 'ſ' := ne_of_isAlphanum h (by decide)
  have h₂ : c ≠ '\u212a' := ne_of_isAlphanum h (by decide)
  simp [foldAscii, h₁, h₂]

/-! ### Plain tags -/

/-- The tags that belong to the document and are not written as they are. -/
def documentTags : List String := ["html", "head", "body"]

structure IsPlainTag (tag : String) : Prop where
  nonempty : tag ≠ ""
  alphanum : ∀ c ∈ tag.toList, c.isAlphanum = true
  notDocument : tag.map Char.toLower ∉ documentTags

theorem IsPlainTag.exists_cons {tag : String} (h : IsPlainTag tag) :
    ∃ c cs, tag.toList = c :: cs ∧ c.isAlphanum = true := by
  rcases hl : tag.toList with _ | ⟨c, cs⟩
  · exact absurd (String.toList_eq_nil_iff.1 hl) h.nonempty
  · exact ⟨c, cs, rfl, h.alphanum c (hl ▸ List.mem_cons_self)⟩

/-- Where a word is found at the front of a name and of what follows it, it does not
    reach beyond a character that it does not hold. -/
theorem exists_of_dropWordIgnoringCase {word name rest r : List Char} {c : Char}
    (absent : foldAscii c ∉ word) (h : dropWordIgnoringCase word (name ++ c :: rest) = some r) :
    ∃ front back, name = front ++ back ∧ front.map foldAscii = word ∧ r = back ++ c :: rest := by
  obtain ⟨front, whole, folded⟩ := dropWordIgnoringCase_eq_some_iff.1 h
  rcases List.append_eq_append_iff.1 whole with ⟨more, rfl, tail⟩ | ⟨back, rfl, rfl⟩
  · cases more with
    | nil =>
      rw [List.append_nil] at folded
      exact ⟨name, [], (List.append_nil name).symm, folded, tail.symm⟩
    | cons d ds =>
      obtain ⟨rfl, -⟩ := List.cons.inj tail
      refine absurd ?_ absent
      rw [← folded]
      exact List.mem_map_of_mem (List.mem_append_right name List.mem_cons_self)
  · exact ⟨front, back, rfl, folded, rfl⟩

/-- Where a word is found at the front of a name and what follows it, the name
    begins with the word. -/
theorem dropWordIgnoringCase_append {word name rest r : List Char} {c : Char}
    (hname : ∀ x ∈ name, x.isAlphanum = true) (hword : ∀ x ∈ word, x.isAlphanum = true)
    (hc : (foldAscii c).isAlphanum = false)
    (h : dropWordIgnoringCase word (name ++ c :: rest) = some r) :
    ∃ front back, name = front ++ back ∧ front.map Char.toLower = word ∧ r = back ++ c :: rest := by
  have absent : foldAscii c ∉ word := fun hmem => ne_of_isAlphanum (hword _ hmem) hc rfl
  obtain ⟨front, back, rfl, hfront, rfl⟩ := exists_of_dropWordIgnoringCase absent h
  refine ⟨front, back, rfl, ?_, rfl⟩
  rw [← hfront]
  exact List.map_congr_left fun x hx =>
    (foldAscii_of_isAlphanum (hname x (List.mem_append_left _ hx))).symm

/-- The name of a section is one of three words. -/
theorem Marker.exists_of_takeSection {s r : List Char} {sec : Section}
    (h : Marker.takeSection s = some (sec, r)) :
    ∃ word ∈ documentTags, dropWordIgnoringCase word.toList s = some r := by
  unfold Marker.takeSection at h
  rcases Option.or_eq_some_iff.1 h with html | ⟨-, h⟩
  · obtain ⟨_, found, same⟩ := Option.map_eq_some_iff.1 html
    obtain ⟨-, rfl⟩ := Prod.mk.inj same
    exact ⟨"html", by decide, found⟩
  · rcases Option.or_eq_some_iff.1 h with head | ⟨-, body⟩
    · obtain ⟨_, found, same⟩ := Option.map_eq_some_iff.1 head
      obtain ⟨-, rfl⟩ := Prod.mk.inj same
      exact ⟨"head", by decide, found⟩
    · obtain ⟨_, found, same⟩ := Option.map_eq_some_iff.1 body
      obtain ⟨-, rfl⟩ := Prod.mk.inj same
      exact ⟨"body", by decide, found⟩

/-- A section found in a plain tag and what follows it is only the beginning of
    the tag. -/
theorem IsPlainTag.takeSection {tag : String} (h : IsPlainTag tag) {c : Char} {rest r : List Char}
    {sec : Section} (hc : (foldAscii c).isAlphanum = false)
    (hs : Marker.takeSection (tag.toList ++ c :: rest) = some (sec, r)) :
    ∃ y ys, y.isAlphanum = true ∧ (∀ x ∈ ys, x.isAlphanum = true) ∧ r = y :: ys ++ c :: rest := by
  obtain ⟨word, hdocument, hdrop⟩ := Marker.exists_of_takeSection hs
  have hword : ∀ x ∈ word.toList, x.isAlphanum = true := by
    have hall : ∀ w ∈ documentTags, ∀ x ∈ w.toList, x.isAlphanum = true :=
      forall_mem_toList_of_all (by decide)
    exact hall word hdocument
  obtain ⟨front, back, htag, hfront, rfl⟩ :=
    dropWordIgnoringCase_append h.alphanum hword hc hdrop
  have hback : ∀ x ∈ back, x.isAlphanum = true := fun x hx =>
    h.alphanum x (htag ▸ List.mem_append_right front hx)
  rcases back with _ | ⟨y, ys⟩
  · refine absurd ?_ h.notDocument
    rw [List.append_nil] at htag
    rwa [String.map_eq_internal, htag, hfront, String.ofList_toList]
  · exact ⟨y, ys, hback y List.mem_cons_self, fun x hx => hback x (List.mem_cons_of_mem y hx), rfl⟩

namespace Marker

theorem ofFragment_lt (s : List Char) : ofFragment (String.ofList ('<' :: s)) = ofTag s := by
  have hblank : isBlank '<' = false := by decide
  simp [ofFragment, trimStart, hblank, dropWord]

/-- A text without an opening angle bracket is no marker. -/
theorem ofFragment_text {s : String} (h : ∀ c ∈ s.toList, c ≠ '<') : ofFragment s = none := by
  have hword : dropWord ['<'] (trimStart s.toList) = none := by
    rcases hd : dropWord ['<'] (trimStart s.toList) with _ | rest
    · rfl
    · have hmem : '<' ∈ s.toList := by
        refine (List.dropWhile_suffix isBlank).subset ?_
        change '<' ∈ trimStart s.toList
        rw [dropWord_eq_some_iff.1 hd]
        exact List.mem_append_left _ List.mem_cons_self
      exact absurd rfl (h '<' hmem)
  unfold ofFragment
  rw [hword, Option.bind_none]

/-- A tag that is neither a closing one nor a declaration opens a section, if any. -/
theorem ofTag_of_name {c : Char} (slash : c ≠ '/') (bang : c ≠ '!') (cs : List Char) :
    ofTag (c :: cs) = (takeSection (c :: cs)).bind fun (sec, rest) =>
      if rest.head?.any isWord then none
      else (tagRest rest).map fun inner =>
        opening sec (String.ofList (dropTrailing (· == '/') inner)) := by
  unfold ofTag
  split
  · next same => exact absurd (List.cons.inj same).1 slash
  · next same => exact absurd (List.cons.inj same).1 bang
  · rfl

/-- The opening tag of a plain element is no marker. -/
theorem ofTag_opening {tag : String} (h : IsPlainTag tag) {c : Char} (rest : List Char)
    (hc : (foldAscii c).isAlphanum = false) : ofTag (tag.toList ++ c :: rest) = none := by
  obtain ⟨x, xs, hx, halpha⟩ := h.exists_cons
  have hslash : x ≠ '/' := ne_of_isAlphanum halpha (by decide)
  have hbang : x ≠ '!' := ne_of_isAlphanum halpha (by decide)
  have hsection : (Marker.takeSection (tag.toList ++ c :: rest)).all
      (fun found => found.2.head?.any isWord) = true := by
    rcases hs : Marker.takeSection (tag.toList ++ c :: rest) with _ | ⟨sec, r⟩
    · rfl
    · obtain ⟨y, ys, hy, -, rfl⟩ := h.takeSection hc hs
      exact isWord_of_isAlphanum hy
  rw [hx, List.cons_append] at hsection ⊢
  rw [ofTag_of_name hslash hbang]
  rcases hs : Marker.takeSection (x :: (xs ++ c :: rest)) with _ | ⟨sec, r⟩
  · rfl
  · rw [hs, Option.all_some] at hsection
    rw [Option.bind_some]
    exact if_pos hsection

theorem tagRest_name {y : Char} {ys : List Char} (hy : y.isAlphanum = true)
    (hys : ∀ x ∈ ys, x.isAlphanum = true) : tagRest (y :: ys ++ ['>']) = some (y :: ys) := by
  have hcut : ∀ s : List Char, (∀ x ∈ s, x.isAlphanum = true) →
      cutAt ['>'] (s ++ ['>']) = some (s, []) := by
    intro s hs
    induction s with
    | nil => rfl
    | cons x xs ih =>
      have hx : x ≠ '>' := ne_of_isAlphanum (hs x List.mem_cons_self) (by decide)
      rw [List.cons_append, cutAt]
      simp [dropWord, Ne.symm hx, ih fun z hz => hs z (List.mem_cons_of_mem x hz)]
  have hall : ∀ x ∈ y :: ys, x.isAlphanum = true := by
    intro x hx
    rcases List.mem_cons.1 hx with rfl | hmem
    · exact hy
    · exact hys x hmem
  unfold tagRest
  rw [hcut _ hall]
  rfl

/-- The closing tag of a plain element is no marker. -/
theorem ofTag_closing {tag : String} (h : IsPlainTag tag) :
    ofTag ('/' :: tag.toList ++ ['>']) = none := by
  rw [List.cons_append, ofTag.eq_def]
  simp only
  rcases hs : Marker.takeSection (tag.toList ++ ['>']) with _ | ⟨sec, r⟩
  · rfl
  · obtain ⟨y, ys, hy, hys, rfl⟩ := h.takeSection (by decide) hs
    have hblank : isBlank y = false := isBlank_of_isAlphanum hy
    simp only [Option.bind_some, tagRest_name hy hys]
    simp [hblank]

end Marker

/-- Fragments without a marker are joined. -/
theorem assemble_of_no_marker {fragments : List String}
    (h : ∀ f ∈ fragments, Marker.ofFragment f = none) :
    assemble fragments = String.join fragments := by
  have hnil : fragments.filterMap Marker.ofFragment = [] :=
    List.filterMap_eq_nil_iff.2 h
  simp [assemble, hnil]

end PageTree
