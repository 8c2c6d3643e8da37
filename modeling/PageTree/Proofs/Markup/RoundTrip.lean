/-
  PageTree/Proofs/Markup/RoundTrip.lean
  =====================================
  **Markup reads back as the content of its tree.**

  `Reads fs cs` says what a list of fragments does to a reader that stands in
  the middle of a text: it adds the pieces `cs` to the draft, and none of the
  fragments is taken for a marker.  The reader's text and its draft only
  determine each other together, since a text may go on over several fragments;
  so the two are compared after the text has been added.  The fragments of a
  legible tree read as its content (`reads_fragments`), by induction on the
  tree, and this is `readMarkup_markupOf` for the whole markup.
-/
import PageTree.Page
import PageTree.Proofs.Attributes
import PageTree.Proofs.Markup.Reading
import PageTree.Proofs.Markup.Tags

namespace PageTree

open Escape

/-! ### What can be read back -/

/-- Plain attributes whose keys an opening tag can carry. -/
structure Attributes.Legible (attrs : Attributes) : Prop extends Attributes.Plain attrs where
  nonempty : ∀ key ∈ attrs.keys, key ≠ ""
  keyChars : ∀ key ∈ attrs.keys, ∀ c ∈ key.toList, isKeyChar c = true

/-- The trees whose markup can be read back: texts have been escaped, tags and
    attributes are plain, and no component has failed. -/
inductive Node.Legible : Node → Prop where
  | text (s : String) : Legible (.text (Escape.content s))
  | number (x : Float) : Legible (.number x)
  | bool (b : Bool) : Legible (.bool b)
  | null : Legible .null
  | undefined : Legible .undefined
  | element {tag : String} {attrs : Attributes} {children : List Node} (htag : IsPlainTag tag)
      (hattrs : attrs.Legible) (hchildren : ∀ n ∈ children, Legible n) :
      Legible (.element tag attrs children)
  | component {name : String} {attrs : Attributes} {children : List Node} {result : Node}
      (h : Legible result) : Legible (.component name attrs children result)
  | array {items : List Node} (h : ∀ n ∈ items, Legible n) : Legible (.array items)
  | pending {result : Node} (h : Legible result) : Legible (.pending result)

theorem isKeyChar_of_isAlphanum {c : Char} (h : c.isAlphanum = true) : isKeyChar c = true := by
  have hends : ∀ d ∈ keyEnds, c ≠ d := fun d hd =>
    ne_of_isAlphanum h (forall_mem_of_all (p := fun d => d.isAlphanum = false) (by decide) d hd)
  have hmem : c ∉ keyEnds := fun hc => hends c hc rfl
  simp [isKeyChar, hmem]

theorem shownAttribute_legible {key : String} {v : AttrValue} {a : String × Option String}
    (hne : key ≠ "") (hchars : ∀ c ∈ key.toList, isKeyChar c = true)
    (h : shownAttribute key v = some a) :
    a.1 ≠ "" ∧ ∀ c ∈ a.1.toList, isKeyChar c = true := by
  unfold shownAttribute at h
  split at h
  · split at h
    · exact absurd h (by simp)
    · have hclass : "class" ≠ "" ∧ ∀ c ∈ "class".toList, isKeyChar c = true :=
        ⟨by decide, forall_mem_of_all (by decide)⟩
      rw [← Option.some.inj h]
      exact hclass
  · split at h
    · obtain rfl := Option.some.inj h
      exact ⟨hne, hchars⟩
    · split at h
      · exact absurd h (by simp)
      · obtain rfl := Option.some.inj h
        exact ⟨hne, hchars⟩

theorem Attributes.Legible.shown {attrs : Attributes} (h : attrs.Legible)
    {a : String × Option String} (ha : a ∈ attrs.shown) :
    a.1 ≠ "" ∧ ∀ c ∈ a.1.toList, isKeyChar c = true := by
  obtain ⟨⟨key, v⟩, hmem, hshown⟩ := List.mem_filterMap.1 ha
  have hkey : key ∈ attrs.keys := List.mem_map_of_mem (f := Prod.fst) hmem
  unfold shownEntry at hshown
  split at hshown
  · exact absurd hshown (by simp)
  · exact shownAttribute_legible (h.nonempty key hkey) (h.keyChars key hkey) hshown

/-! ### Escaped text -/

theorem contentChar_of_isAlphanum {c : Char} (h : c.isAlphanum = true) : contentChar c = [c] := by
  have h₁ : c ≠ '&' := ne_of_isAlphanum h (by decide)
  have h₂ : c ≠ '<' := ne_of_isAlphanum h (by decide)
  have h₃ : c ≠ '>' := ne_of_isAlphanum h (by decide)
  have h₄ : c ≠ '"' := ne_of_isAlphanum h (by decide)
  have h₅ : c ≠ '\'' := ne_of_isAlphanum h (by decide)
  simp [contentChar, h₁, h₂, h₃, h₄, h₅]

/-- No escaped character opens a tag. -/
theorem ne_of_mem_contentChar {c x : Char} (h : x ∈ contentChar c) : x ≠ '<' := by
  unfold contentChar at h
  rintro rfl
  split at h
  · exact absurd h (by decide)
  split at h
  · exact absurd h (by decide)
  split at h
  · exact absurd h (by decide)
  split at h
  · exact absurd h (by decide)
  split at h
  · exact absurd h (by decide)
  · obtain rfl := List.mem_singleton.1 h
    simp_all

theorem ne_of_mem_content {s : List Char} {x : Char} (h : x ∈ s.flatMap contentChar) :
    x ≠ '<' := by
  obtain ⟨c, -, hx⟩ := List.mem_flatMap.1 h
  exact ne_of_mem_contentChar hx

/-- No escaped character closes a quoted value. -/
theorem ne_of_mem_attributeValue {s : List Char} {x : Char} (h : x ∈ s.flatMap attributeChar) :
    x ≠ '"' := by
  obtain ⟨c, -, hx⟩ := List.mem_flatMap.1 h
  rintro rfl
  exact not_mem_attributeChar (by decide) c hx

theorem content_of_contentChar {s : String} (h : ∀ c ∈ s.toList, contentChar c = [c]) :
    Escape.content s = s := by
  have hflat : ∀ cs : List Char, (∀ c ∈ cs, contentChar c = [c]) → cs.flatMap contentChar = cs := by
    intro cs hcs
    induction cs with
    | nil => rfl
    | cons c cs ih =>
      rw [List.flatMap_cons, hcs c List.mem_cons_self, ih fun x hx =>
        hcs x (List.mem_cons_of_mem c hx)]
      rfl
  unfold Escape.content
  rw [hflat _ h, String.ofList_toList]

theorem text_resolve_content (s : String) :
    String.ofList (resolve (Escape.content s).toList) = s := by
  unfold Escape.content
  rw [String.toList_ofList, resolve_content, String.ofList_toList]

/-! ### The text of numbers -/

theorem contentChar_of_mem_toDigits {n : Nat} {c : Char} (h : c ∈ Nat.toDigits 10 n) :
    contentChar c = [c] := by
  have hdigit : c.isDigit = true := Nat.isDigit_of_mem_toDigits (by decide) (by decide) h
  exact contentChar_of_isAlphanum (by simp [Char.isAlphanum, hdigit])

theorem contentChar_of_mem_magnitude {b : Number.Binary} {c : Char}
    (h : c ∈ Number.magnitude .script b) : contentChar c = [c] := by
  have hzeros : ∀ n, c ∈ Number.zeros n → contentChar c = [c] := by
    intro n hn
    rw [List.eq_of_mem_replicate hn]
    rfl
  have hpositional : ∀ d, c ∈ Number.positional .script d → contentChar c = [c] := by
    intro d hd
    unfold Number.positional Number.digitsOf at hd
    dsimp only at hd
    split at hd
    · simp only [List.mem_append] at hd
      rcases hd with (hd | hd) | hd
      · exact contentChar_of_mem_toDigits hd
      · exact hzeros _ hd
      · exact absurd hd (by simp [Number.Layout.script])
    · split at hd
      · rcases List.mem_append.1 hd with hd | hd
        · exact contentChar_of_mem_toDigits (List.mem_of_mem_take hd)
        · rcases List.mem_cons.1 hd with rfl | hd
          · rfl
          · exact contentChar_of_mem_toDigits (List.mem_of_mem_drop hd)
      · simp only [List.mem_cons, List.mem_append] at hd
        rcases hd with rfl | rfl | hd | hd
        · rfl
        · rfl
        · exact hzeros _ hd
        · exact contentChar_of_mem_toDigits hd
  have hscientific : ∀ d, c ∈ Number.scientific .script d → contentChar c = [c] := by
    intro d hd
    unfold Number.scientific Number.digitsOf at hd
    dsimp only at hd
    simp only [List.mem_append, List.mem_cons] at hd
    rcases hd with (hd | hd) | rfl | hd | hd
    · exact contentChar_of_mem_toDigits (List.mem_of_mem_take hd)
    · split at hd
      · exact absurd hd List.not_mem_nil
      · rcases List.mem_cons.1 hd with rfl | hd
        · rfl
        · exact contentChar_of_mem_toDigits (List.mem_of_mem_drop hd)
    · rfl
    · split at hd
      · rw [List.mem_singleton.1 hd]; rfl
      · simp only [Number.Layout.script, if_true] at hd
        rw [List.mem_singleton.1 hd]; rfl
    · exact contentChar_of_mem_toDigits hd
  unfold Number.magnitude at h
  dsimp only at h
  split at h
  · split at h
    · exact contentChar_of_mem_toDigits h
    · exact hpositional _ h
  · exact hscientific _ h

/-- The text of a number needs no escaping. -/
theorem content_number (x : Float) :
    Escape.content (Number.text .script x) = Number.text .script x := by
  refine content_of_contentChar fun c hc => ?_
  unfold Number.text at hc
  split at hc
  · split at hc
    · exact forall_mem_of_all (p := fun c => contentChar c = [c]) (by decide) c hc
    · split at hc
      · exact forall_mem_of_all (p := fun c => contentChar c = [c]) (by decide) c hc
      · exact forall_mem_of_all (p := fun c => contentChar c = [c]) (by decide) c hc
  · dsimp only at hc
    rw [String.toList_ofList] at hc
    rcases List.mem_append.1 hc with hc | hc
    · split at hc
      · rw [List.mem_singleton.1 hc]; rfl
      · exact absurd hc List.not_mem_nil
    · split at hc
      · simp only [Number.Layout.script, Bool.false_eq_true, if_false] at hc
        rw [List.mem_singleton.1 hc]; rfl
      · exact contentChar_of_mem_magnitude hc

/-! ### Reading the tags of a tree -/

namespace MarkupReader

/-- Attributes are read one after another. -/
theorem Within.attributes {as : List ReadAttribute}
    (h : ∀ a ∈ as, a.1 ≠ "" ∧ ∀ c ∈ a.1.toList, isKeyChar c = true) {r : MarkupReader} {d : Draft}
    {os : List OpenElement} {tag : String} {before : List ReadAttribute}
    (hr : Within r d os tag before) :
    ∃ r', r.feed (attributesMarkup as).toList = some r' ∧ Within r' d os tag (before ++ as) := by
  induction as generalizing r before with
  | nil => exact ⟨r, rfl, by rwa [List.append_nil]⟩
  | cons a as ih =>
    obtain ⟨key, value⟩ := a
    obtain ⟨hne, hchars⟩ := h _ List.mem_cons_self
    have hkey : key.toList ≠ [] := fun hnil => hne (String.toList_eq_nil_iff.1 hnil)
    have hblank : r.step ' ' = some ⟨.key tag before [], d, os⟩ := by
      rw [hr ' ' (.inl rfl)]
      rfl
    have hname : r.feed (' ' :: key.toList) = some ⟨.key tag before key.toList, d, os⟩ := by
      rw [feed_cons, hblank, Option.bind_some, feed_key hchars, List.nil_append]
    -- the reader after the attribute, which is bare or has a value
    have hone : ∃ r₁, r.feed (attributeMarkup (key, value)).toList = some r₁ ∧
        Within r₁ d os tag (before ++ [(key, value)]) := by
      cases value with
      | none =>
        refine ⟨⟨.key tag before key.toList, d, os⟩, ?_, ?_⟩
        · rw [attributeMarkup, String.toList_append]
          exact hname
        · have hwithin := within_key hkey tag before d os
          rwa [String.ofList_toList] at hwithin
      | some value =>
        refine ⟨⟨.afterValue tag (before ++ [(key, some value)]), d, os⟩, ?_,
          within_afterValue _ _ _ _⟩
        have htext : (attributeMarkup (key, some value)).toList =
            ' ' :: key.toList ++ ('=' :: '"' :: (value.toList.flatMap attributeChar ++ ['"'])) := by
          simp [attributeMarkup, Escape.attributeValue]
        have hvalue : textOfRaw (value.toList.flatMap attributeChar) = value := by
          rw [textOfRaw, resolve_attributeValue, String.ofList_toList]
        have hempty : key.toList.isEmpty = false := by simpa using hkey
        rw [htext, feed_append_of_feed hname, feed_cons, step, if_neg (by decide), hempty,
          if_neg (by decide), if_pos rfl, Option.bind_some, feed_cons, step, if_pos rfl,
          Option.bind_some, feed_append_of_feed (feed_value (fun _ => ne_of_mem_attributeValue) ..),
          feed_cons, step, if_pos rfl, Option.bind_some, feed_nil, List.nil_append, hvalue,
          String.ofList_toList]
    obtain ⟨r₁, hfeed, hwithin⟩ := hone
    obtain ⟨r', hfeed', hwithin'⟩ := ih (fun b hb => h b (List.mem_cons_of_mem _ hb)) hwithin
    refine ⟨r', ?_, ?_⟩
    · rw [attributesMarkup, List.map_cons, String.join_cons, String.toList_append,
        feed_append_of_feed hfeed]
      exact hfeed'
    · rwa [List.append_assoc, List.singleton_append] at hwithin'

/-- The beginning of an opening tag ends the text before it. -/
theorem feed_opening {tag : String} (h : IsPlainTag tag) (raw : List Char) (d : Draft)
    (os : List OpenElement) :
    feed ⟨.data raw, d, os⟩ ('<' :: tag.toList) =
      some ⟨.openingName tag.toList, d.add (.text (textOfRaw raw)), os⟩ := by
  obtain ⟨c, cs, htag, hc⟩ := h.exists_cons
  have hslash : c ≠ '/' := ne_of_isAlphanum hc (by decide)
  have hcs : ∀ x ∈ cs, x.isAlphanum = true := fun x hx =>
    h.alphanum x (htag ▸ List.mem_cons_of_mem c hx)
  rw [htag, feed_cons, step, if_pos rfl, Option.bind_some, feed_cons, step, if_neg hslash, if_pos hc,
    Option.bind_some, feed_openingName hcs, List.singleton_append]

/-- A closing tag ends the text before it and the innermost open element. -/
theorem feed_closing {tag : String} (h : IsPlainTag tag) (raw : List Char) (d before : Draft)
    (attrs : List ReadAttribute) (os : List OpenElement) :
    feed ⟨.data raw, d, ⟨tag, attrs, before⟩ :: os⟩ ('<' :: '/' :: (tag.toList ++ ['>'])) =
      some ⟨.data [], before.add (.element tag attrs (d.add (.text (textOfRaw raw))).finish), os⟩ := by
  rw [feed_cons, step, if_pos rfl, Option.bind_some, feed_cons, step, if_pos rfl, Option.bind_some,
    feed_append_of_feed (feed_closingName h.alphanum ..), feed_cons, step, if_neg (by decide),
    if_pos rfl, List.nil_append, String.ofList_toList, leave, if_pos rfl]
  rfl

end MarkupReader

/-- The attributes of a tag are set off from its name. -/
theorem attributesMarkup_head (as : List ReadAttribute) :
    (attributesMarkup as).toList = [] ∨ ∃ s, (attributesMarkup as).toList = ' ' :: s := by
  rcases as with _ | ⟨⟨key, value⟩, as⟩
  · exact .inl rfl
  · refine .inr ?_
    rw [attributesMarkup, List.map_cons, String.join_cons, String.toList_append]
    cases value with
    | none => exact ⟨_, by rw [attributeMarkup, String.toList_append]; rfl⟩
    | some value => exact ⟨_, by simp only [attributeMarkup, String.toList_append]; rfl⟩

/-- No opening tag of a tree is a marker. -/
theorem Marker.ofFragment_opening {tag : String} (h : IsPlainTag tag) (as : List ReadAttribute)
    {c : Char} (rest : List Char) (hc : (Text.foldAscii c).isAlphanum = false) :
    Marker.ofFragment ("<" ++ tag ++ attributesMarkup as ++ String.ofList (c :: rest)) = none := by
  have hlist : "<" ++ tag ++ attributesMarkup as ++ String.ofList (c :: rest) =
      String.ofList ('<' :: (tag.toList ++ ((attributesMarkup as).toList ++ c :: rest))) := by
    rw [← String.toList_inj]
    simp
  rw [hlist, ofFragment_lt]
  rcases attributesMarkup_head as with hnil | ⟨s, hs⟩
  · rw [hnil, List.nil_append]
    exact ofTag_opening h rest hc
  · rw [hs, List.cons_append]
    exact ofTag_opening h _ (by decide)

theorem Marker.ofFragment_closing {tag : String} (h : IsPlainTag tag) :
    Marker.ofFragment ("</" ++ tag ++ ">") = none := by
  have hlist : "</" ++ tag ++ ">" = String.ofList ('<' :: ('/' :: tag.toList ++ ['>'])) := by
    rw [← String.toList_inj]
    simp
  rw [hlist, ofFragment_lt, ofTag_closing h]

/-! ### Reading fragments -/

/-- Fragments add these pieces to what has been read. -/
structure Reads (fs : List String) (cs : List Content) : Prop where
  unmarked : ∀ f ∈ fs, Marker.ofFragment f = none
  read : ∀ (t : List Char) (d : Draft) (os : List OpenElement), ∃ t' d',
    MarkupReader.feed ⟨.data (t.flatMap contentChar), d, os⟩ (String.join fs).toList =
        some ⟨.data (t'.flatMap contentChar), d', os⟩ ∧
      d'.add (.text (String.ofList t')) = cs.foldl Draft.add (d.add (.text (String.ofList t)))

namespace Reads

theorem nil : Reads [] [] :=
  ⟨fun _ hf => absurd hf List.not_mem_nil, fun t d _ => ⟨t, d, rfl, rfl⟩⟩

theorem append {fs gs : List String} {cs ds : List Content} (hf : Reads fs cs) (hg : Reads gs ds) :
    Reads (fs ++ gs) (cs ++ ds) := by
  constructor
  · intro f hmem
    rcases List.mem_append.1 hmem with h | h
    · exact hf.unmarked f h
    · exact hg.unmarked f h
  · intro t d os
    obtain ⟨t₁, d₁, hfeed₁, hdraft₁⟩ := hf.read t d os
    obtain ⟨t₂, d₂, hfeed₂, hdraft₂⟩ := hg.read t₁ d₁ os
    refine ⟨t₂, d₂, ?_, ?_⟩
    · rw [String.join_append, String.toList_append, MarkupReader.feed_append_of_feed hfeed₁, hfeed₂]
    · rw [hdraft₂, hdraft₁, List.foldl_append]

/-- A text that has been escaped. -/
theorem text (s : String) : Reads (MarkupWriter.textFragments (Escape.content s)) [.text s] := by
  have hjoin : (String.join (MarkupWriter.textFragments (Escape.content s))).toList =
      s.toList.flatMap contentChar := by
    unfold MarkupWriter.textFragments
    split
    · next h =>
      have hnil : (Escape.content s).toList = [] := by simpa using h
      rw [Escape.content, String.toList_ofList] at hnil
      rw [hnil]
      rfl
    · simp [Escape.content]
  constructor
  · intro f hf
    unfold MarkupWriter.textFragments at hf
    split at hf
    · exact absurd hf List.not_mem_nil
    · rw [List.mem_singleton.1 hf]
      refine Marker.ofFragment_text fun c hc => ?_
      rw [Escape.content, String.toList_ofList] at hc
      exact ne_of_mem_content hc
  · intro t d os
    refine ⟨t ++ s.toList, d, ?_, ?_⟩
    · rw [hjoin, MarkupReader.feed_data (fun _ => ne_of_mem_content), List.flatMap_append]
    · rw [List.foldl_cons, List.foldl_nil, Draft.add_text_add_text, String.ofList_append,
        String.ofList_toList]

/-- The tag of a void element. -/
theorem void {tag : String} (htag : IsPlainTag tag) (hvoid : Node.isVoidTag tag = true)
    {as : List ReadAttribute} (has : ∀ a ∈ as, a.1 ≠ "" ∧ ∀ c ∈ a.1.toList, isKeyChar c = true) :
    Reads ["<" ++ tag ++ attributesMarkup as ++ "/>"] [.element tag as []] := by
  constructor
  · intro f hf
    rw [List.mem_singleton.1 hf]
    exact Marker.ofFragment_opening htag as ['>'] (by decide)
  · intro t d os
    have hopen := MarkupReader.feed_opening htag (t.flatMap contentChar) d os
    rw [textOfRaw, resolve_content] at hopen
    obtain ⟨r, hattrs, hwithin⟩ :=
      (MarkupReader.within_openingName (d.add (.text (String.ofList t))) os).attributes has
    rw [String.ofList_toList, List.nil_append] at hwithin
    refine ⟨[], (d.add (.text (String.ofList t))).add (.element tag as []), ?_, ?_⟩
    · have hlist : (String.join ["<" ++ tag ++ attributesMarkup as ++ "/>"]).toList =
          '<' :: tag.toList ++ ((attributesMarkup as).toList ++ ['/', '>']) := by simp
      rw [hlist, MarkupReader.feed_append_of_feed hopen, MarkupReader.feed_append_of_feed hattrs,
        hwithin.closeVoid hvoid]
      rfl
    · exact Draft.add_empty _

/-- An element around its children. -/
theorem element {tag : String} (htag : IsPlainTag tag) (hvoid : Node.isVoidTag tag = false)
    {as : List ReadAttribute} (has : ∀ a ∈ as, a.1 ≠ "" ∧ ∀ c ∈ a.1.toList, isKeyChar c = true)
    {fs : List String} {cs : List Content} (hinner : Reads fs cs) :
    Reads (("<" ++ tag ++ attributesMarkup as ++ ">") :: (fs ++ ["</" ++ tag ++ ">"]))
      [.element tag as (Content.tidy cs)] := by
  constructor
  · intro f hf
    rcases List.mem_cons.1 hf with rfl | hf
    · exact Marker.ofFragment_opening htag as [] (by decide)
    rcases List.mem_append.1 hf with hf | hf
    · exact hinner.unmarked f hf
    · rw [List.mem_singleton.1 hf]
      exact Marker.ofFragment_closing htag
  · intro t d os
    have hopen := MarkupReader.feed_opening htag (t.flatMap contentChar) d os
    rw [textOfRaw, resolve_content] at hopen
    obtain ⟨r, hattrs, hwithin⟩ :=
      (MarkupReader.within_openingName (d.add (.text (String.ofList t))) os).attributes has
    rw [String.ofList_toList, List.nil_append] at hwithin
    -- the children are read with an empty text and an empty draft
    obtain ⟨t', d', hchildren, hdraft⟩ :=
      hinner.read [] {} (⟨tag, as, d.add (.text (String.ofList t))⟩ :: os)
    rw [List.flatMap_nil] at hchildren
    have hfinish : (d'.add (.text (String.ofList t'))).finish = Content.tidy cs := by
      rw [hdraft, String.ofList_nil, Draft.add_empty]
      rfl
    have hclose := MarkupReader.feed_closing htag (t'.flatMap contentChar) d'
      (d.add (.text (String.ofList t))) as os
    rw [textOfRaw, resolve_content, hfinish] at hclose
    refine ⟨[], (d.add (.text (String.ofList t))).add (.element tag as (Content.tidy cs)), ?_, ?_⟩
    · have hlist : (String.join (("<" ++ tag ++ attributesMarkup as ++ ">") ::
            (fs ++ ["</" ++ tag ++ ">"]))).toList =
          '<' :: tag.toList ++ ((attributesMarkup as).toList ++ (['>'] ++
            ((String.join fs).toList ++ '<' :: '/' :: (tag.toList ++ ['>'])))) := by
        simp [String.join_append]
      rw [hlist, MarkupReader.feed_append_of_feed hopen, MarkupReader.feed_append_of_feed hattrs,
        MarkupReader.feed_append_of_feed (hwithin.close hvoid),
        MarkupReader.feed_append_of_feed hchildren, hclose]
      rfl
    · exact Draft.add_empty _

end Reads

/-! ### The markup of a tree -/

namespace MarkupWriter

/-- The fragments of several nodes read as their content, if those of each do. -/
theorem reads_fragmentsOfList {w : MarkupWriter} {scripts : List Node → Nat → List String × Nat}
    {ns : List Node} (h : ∀ n ∈ ns, ∀ k, Reads (fragments w scripts n k).1 n.content) (k : Nat) :
    Reads (fragmentsOfList w scripts ns k).1 (Node.contentOfList ns) := by
  induction ns generalizing k with
  | nil => exact Reads.nil
  | cons n ns ih =>
    rw [fragmentsOfList, Node.contentOfList]
    exact (h n List.mem_cons_self k).append
      (ih (fun m hm => h m (List.mem_cons_of_mem n hm)) _)

/-- **The fragments of a legible tree read as its content.** -/
theorem reads_fragments {w : MarkupWriter} (hw : w.registry = .standard)
    {scripts : List Node → Nat → List String × Nat} (hscripts : ∀ k, scripts [] k = ([], k))
    {n : Node} (h : n.Legible) (k : Nat) : Reads (fragments w scripts n k).1 n.content := by
  induction h generalizing k with
  | text s =>
    rw [fragments, Node.content, text_resolve_content]
    exact Reads.text s
  | number x =>
    rw [fragments, Node.content, ← content_number x]
    have hreads := Reads.text (Number.text .script x)
    rwa [content_number x] at hreads ⊢
  | bool b =>
    rw [fragments, Node.content]
    cases b with
    | false => exact Reads.text "false"
    | true => exact Reads.text "true"
  | null => exact Reads.nil
  | undefined => exact Reads.nil
  | @element tag attrs children htag hattrs _ ih =>
    obtain ⟨hhtml, hnoScripts, hlock⟩ := Registry.markup_plain hattrs.toPlain (w.ids k)
    rw [fragments, Node.content, hw]
    dsimp only
    rw [hhtml, hnoScripts, hlock]
    by_cases hvoid : Node.isVoidTag tag
    · rw [if_pos hvoid, if_pos hvoid, hscripts]
      exact Reads.void htag hvoid fun a => hattrs.shown
    · rw [if_neg hvoid, if_neg hvoid, hscripts]
      exact Reads.element htag (Bool.eq_false_iff.2 hvoid) (fun a => hattrs.shown)
        (reads_fragmentsOfList ih _)
  | component _ ih =>
    rw [fragments, Node.content]
    exact ih k
  | array _ ih =>
    rw [fragments, Node.content]
    exact reads_fragmentsOfList ih k
  | pending _ ih =>
    rw [fragments, Node.content]
    exact ih k

end MarkupWriter

/-- **The markup of a legible tree reads back as its content.** -/
theorem readMarkup_markupOf {n : Node} (h : n.Legible) {s : MarkupSettings} (hs : s.minify = false)
    (ids : Nat → String) (k : Nat) :
    readMarkup (markupOf ⟨.standard, ids⟩ s n k).1 = some (Content.tidy n.content) := by
  have hreads : Reads (MarkupWriter.write ⟨.standard, ids⟩ n k).1 n.content :=
    MarkupWriter.reads_fragments rfl (fun _ => rfl) h k
  obtain ⟨t, d, hfeed, hdraft⟩ := hreads.read [] {} []
  rw [String.ofList_nil, Draft.add_empty] at hdraft
  have hmarkup : (markupOf ⟨.standard, ids⟩ s n k).1 =
      String.join (MarkupWriter.write ⟨.standard, ids⟩ n k).1 := by
    unfold markupOf markupText
    dsimp only
    rw [hs, assemble_of_no_marker hreads.unmarked]
    rfl
  have hresult : (MarkupReader.mk (.data (t.flatMap contentChar)) d []).result? =
      some (Content.tidy n.content) := by
    rw [MarkupReader.result?, textOfRaw, resolve_content, hdraft]
    rfl
  rw [readMarkup, hmarkup]
  exact (congrArg (·.bind MarkupReader.result?) hfeed).trans hresult

end PageTree
