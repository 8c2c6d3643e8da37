/-
  PageTree/Proofs/Live/Pieces.lean
  ================================
  **Markup in pieces.**

  A piece of markup is the script element of a source, or other markup.  A document
  is put together from the fragments of pieces without breaking any of them up: it
  moves them and takes some of the other markup away.  So the scripts are those that
  were there before, and if the rest is still, they are the ones that are found.

    * `scriptSources_textOf`: what is found in pieces;
    * `exists_assembled`: putting a document together from pieces.
-/
import PageTree.Markup.Fragments
import PageTree.Proofs.Live.ScriptElements

namespace PageTree.Live

open Text

/-! ### Markup in pieces -/

/-- A piece of markup: other markup, or a script element with its source. -/
inductive Printed where
  | markup (s : String)
  | script (source : String)

namespace Printed

def text : Printed → String
  | markup s => s
  | script source => "<script>" ++ source ++ "</script>"

/-- The fragments that the piece is made of. -/
def fragments : Printed → List String
  | markup s => [s]
  | script source => "<script>" :: (MarkupWriter.textFragments source ++ ["</script>"])

def source? : Printed → Option String
  | markup _ => none
  | script source => some source

def textOf (ps : List Printed) : String := String.join (ps.map text)

def sources (ps : List Printed) : List String := ps.filterMap source?

/-- Other markup has no beginning of a script element, and a source has no end of
    one. -/
def Sound : Printed → Prop
  | markup s => Markup.Still s.toList
  | script source => Escape.Guarded source

/-- The piece can be put elsewhere in a document: what a document takes over from
    a marker is still, and a source is no marker. -/
def Movable : Printed → Prop
  | markup s => ∀ sec attrs, Marker.ofFragment s = some (.opening sec attrs) →
      Markup.Still attrs.toList
  | script source => Marker.ofFragment source = none

/-- No fragment of the piece is a marker. -/
def Unmarked (p : Printed) : Prop := ∀ f ∈ p.fragments, Marker.ofFragment f = none

theorem textOf_append (ps qs : List Printed) : textOf (ps ++ qs) = textOf ps ++ textOf qs := by
  rw [textOf, List.map_append, String.join_append, textOf, textOf]

theorem sources_append (ps qs : List Printed) : sources (ps ++ qs) = sources ps ++ sources qs :=
  List.filterMap_append

theorem join_fragments (p : Printed) : String.join p.fragments = p.text := by
  cases p with
  | markup s => simp [fragments, text]
  | script source =>
    rw [fragments, MarkupWriter.textFragments]
    split
    · next empty =>
      obtain rfl := String.isEmpty_iff.1 empty
      rfl
    · simp [text, String.join_cons, String.append_assoc]

theorem join_flatMap_fragments (ps : List Printed) :
    String.join (ps.flatMap fragments) = textOf ps := by
  induction ps with
  | nil => rfl
  | cons p ps ih =>
    rw [List.flatMap_cons, String.join_append, join_fragments, ih]
    simp [textOf, String.join_cons]

/-- In sound pieces exactly the script elements are found. -/
theorem scriptSources_textOf {ps : List Printed} (sound : ∀ p ∈ ps, p.Sound) :
    Markup.scriptSources (textOf ps) = sources ps := by
  induction ps with
  | nil => rfl
  | cons p ps ih =>
    obtain ⟨here, later⟩ := List.forall_mem_cons.1 sound
    have rest := ih later
    rw [Markup.scriptSources] at rest ⊢
    have split : (textOf (p :: ps)).toList = p.text.toList ++ (textOf ps).toList := by
      simp [textOf, String.join_cons]
    rw [split]
    cases p with
    | markup s =>
      have still : Markup.Still s.toList := here
      rw [text, still, rest]
      rfl
    | script source =>
      rw [text, String.toList_append, String.toList_append, Markup.findAll_script here, List.map_cons,
        rest, String.ofList_toList]
      rfl

end Printed

open Printed

/-! ### Putting a document together -/

theorem foldl_add_unmarked {hasSections : Bool} {fs : List String}
    (unmarked : ∀ f ∈ fs, Marker.ofFragment f = none) (a : Assembly) :
    fs.foldl (Assembly.add hasSections) a
      = if Assembly.toHead hasSections a.position then { a with head := a.head ++ String.join fs }
        else { a with body := a.body ++ String.join fs } := by
  induction fs generalizing a with
  | nil => simp
  | cons f fs ih =>
    obtain ⟨here, later⟩ := List.forall_mem_cons.1 unmarked
    have step : a.add hasSections f
        = if Assembly.toHead hasSections a.position then { a with head := a.head ++ f }
          else { a with body := a.body ++ f } := by
      rw [Assembly.add, here]
    rw [List.foldl_cons, ih later, step, String.join_cons]
    split <;> simp_all [String.append_assoc]

/-- A document under construction, of which head and body are made of pieces. -/
structure Composed (a : Assembly) (hs bs : List Printed) : Prop where
  head : a.head = textOf hs
  body : a.body = textOf bs
  soundHead : ∀ p ∈ hs, p.Sound
  soundBody : ∀ p ∈ bs, p.Sound
  html : Markup.Still a.htmlAttributes.toList
  headAttributes : Markup.Still a.headAttributes.toList
  bodyAttributes : Markup.Still a.bodyAttributes.toList

theorem composed_empty : Composed {} [] [] := by
  refine ⟨rfl, rfl, ?_, ?_, Markup.still_nil, Markup.still_nil, Markup.still_nil⟩ <;>
    exact fun _ h => absurd h List.not_mem_nil

/-- A marker changes where pieces go and what the document tags carry, nothing
    else. -/
theorem Composed.add_marker {a : Assembly} {hs bs : List Printed} (h : Composed a hs bs)
    {s : String} {m : Marker} (marker : Marker.ofFragment s = some m)
    (movable : (markup s).Movable) (hasSections : Bool) : Composed (a.add hasSections s) hs bs := by
  obtain ⟨head, body, soundHead, soundBody, html, headAttributes, bodyAttributes⟩ := h
  rw [Assembly.add, marker]
  cases m with
  | doctype => exact ⟨head, body, soundHead, soundBody, html, headAttributes, bodyAttributes⟩
  | opening sec attrs =>
    have still := movable sec attrs marker
    cases sec with
    | html => exact ⟨head, body, soundHead, soundBody, still, headAttributes, bodyAttributes⟩
    | head => exact ⟨head, body, soundHead, soundBody, html, still, bodyAttributes⟩
    | body => exact ⟨head, body, soundHead, soundBody, html, headAttributes, still⟩
  | closing sec =>
    cases sec with
    | html => exact ⟨head, body, soundHead, soundBody, html, headAttributes, bodyAttributes⟩
    | head => exact ⟨head, body, soundHead, soundBody, html, headAttributes, bodyAttributes⟩
    | body => exact ⟨head, body, soundHead, soundBody, html, headAttributes, bodyAttributes⟩

/-- A piece without a marker goes to the end of the head or of the body. -/
theorem Composed.add_unmarked {a : Assembly} {hs bs : List Printed} (h : Composed a hs bs)
    {p : Printed} (sound : p.Sound) (unmarked : p.Unmarked) (hasSections : Bool) :
    Composed (p.fragments.foldl (Assembly.add hasSections) a) (hs ++ [p]) bs ∨
      Composed (p.fragments.foldl (Assembly.add hasSections) a) hs (bs ++ [p]) := by
  obtain ⟨head, body, soundHead, soundBody, html, headAttributes, bodyAttributes⟩ := h
  have longer (ps : List Printed) : textOf (ps ++ [p]) = textOf ps ++ p.text := by
    rw [textOf_append]
    simp [textOf]
  have all {ps : List Printed} (h : ∀ q ∈ ps, q.Sound) : ∀ q ∈ ps ++ [p], q.Sound := by
    intro q hq
    rcases List.mem_append.1 hq with before | last
    · exact h q before
    · rwa [List.mem_singleton.1 last]
  rw [foldl_add_unmarked unmarked, join_fragments]
  split
  · left
    refine ⟨?_, body, all soundHead, soundBody, html, headAttributes, bodyAttributes⟩
    rw [longer, head]
  · right
    refine ⟨head, ?_, soundHead, all soundBody, html, headAttributes, bodyAttributes⟩
    rw [longer, body]

theorem Printed.unmarked_script {source : String} (h : Marker.ofFragment source = none) :
    (script source).Unmarked := by
  intro f hf
  rw [fragments, List.mem_cons, List.mem_append, MarkupWriter.textFragments] at hf
  rcases hf with rfl | inner | closing
  · decide
  · split at inner
    · cases inner
    · rwa [List.mem_singleton.1 inner]
  · rw [List.mem_singleton.1 closing]
    decide

theorem Composed.add_piece {a : Assembly} {hs bs : List Printed} (h : Composed a hs bs)
    {p : Printed} (sound : p.Sound) (movable : p.Movable) (hasSections : Bool) :
    ∃ hs' bs', Composed (p.fragments.foldl (Assembly.add hasSections) a) hs' bs' ∧
      (sources (hs' ++ bs')).Perm (sources (hs ++ bs) ++ sources [p]) := by
  have placed (unmarked : p.Unmarked) :
      ∃ hs' bs', Composed (p.fragments.foldl (Assembly.add hasSections) a) hs' bs' ∧
        (sources (hs' ++ bs')).Perm (sources (hs ++ bs) ++ sources [p]) := by
    rcases h.add_unmarked sound unmarked hasSections with head | body
    · refine ⟨hs ++ [p], bs, head, ?_⟩
      simp only [sources_append, List.append_assoc]
      exact List.Perm.append_left _ List.perm_append_comm
    · refine ⟨hs, bs ++ [p], body, ?_⟩
      simp only [sources_append, List.append_assoc]
      exact List.Perm.refl _
  cases p with
  | script source => exact placed (unmarked_script movable)
  | markup s =>
    cases marker : Marker.ofFragment s with
    | none =>
      apply placed
      intro f hf
      rwa [List.mem_singleton.1 hf]
    | some m =>
      refine ⟨hs, bs, h.add_marker marker movable hasSections, ?_⟩
      have no_source : sources [markup s] = [] := rfl
      rw [no_source, List.append_nil]

theorem composed_foldl (hasSections : Bool) {ps : List Printed} (sound : ∀ p ∈ ps, p.Sound)
    (movable : ∀ p ∈ ps, p.Movable) {a : Assembly} {hs bs : List Printed} (h : Composed a hs bs) :
    ∃ hs' bs', Composed ((ps.flatMap fragments).foldl (Assembly.add hasSections) a) hs' bs' ∧
      (sources (hs' ++ bs')).Perm (sources (hs ++ bs) ++ sources ps) := by
  induction ps generalizing a hs bs with
  | nil => exact ⟨hs, bs, h, by simp [sources]⟩
  | cons p ps ih =>
    obtain ⟨here, later⟩ := List.forall_mem_cons.1 sound
    obtain ⟨moves, movable⟩ := List.forall_mem_cons.1 movable
    obtain ⟨hs₁, bs₁, h₁, perm₁⟩ := h.add_piece here moves hasSections
    obtain ⟨hs₂, bs₂, h₂, perm₂⟩ := ih later movable h₁
    refine ⟨hs₂, bs₂, ?_, ?_⟩
    · rw [List.flatMap_cons, List.foldl_append]
      exact h₂
    · have whole : sources (p :: ps) = sources [p] ++ sources ps := sources_append [p] ps
      rw [whole, ← List.append_assoc]
      exact perm₂.trans (perm₁.append_right _)

/-- The text of a document around the pieces of its head and of its body. -/
def documentPieces (a : Assembly) (hs bs : List Printed) : List Printed :=
  markup ("<!DOCTYPE html><html" ++ a.htmlAttributes ++ "><head" ++ a.headAttributes ++ ">")
    :: (hs ++ markup ("</head><body" ++ a.bodyAttributes ++ ">") :: (bs ++ [markup "</body></html>"]))

theorem Printed.textOf_cons (p : Printed) (ps : List Printed) :
    textOf (p :: ps) = p.text ++ textOf ps := by
  simp [textOf, String.join_cons]

theorem Composed.text_eq {a : Assembly} {hs bs : List Printed} (h : Composed a hs bs) :
    a.text = textOf (documentPieces a hs bs) := by
  have nothing : textOf [] = "" := by simp [textOf]
  unfold Assembly.text documentPieces
  simp only [textOf_cons, textOf_append, text, h.head, h.body, nothing, String.append_empty,
    String.append_assoc]

theorem Composed.sound_pieces {a : Assembly} {hs bs : List Printed} (h : Composed a hs bs) :
    ∀ p ∈ documentPieces a hs bs, p.Sound := by
  have calm {s : String} (h : Markup.calm s.toList = true) : (markup s).Sound :=
    Markup.still_of_calm h
  have append {s t : String} (hs : (markup s).Sound) (ht : Markup.Still t.toList) :
      (markup (s ++ t)).Sound := by
    rw [Printed.Sound, String.toList_append]
    exact Markup.Still.append hs ht
  have front : (markup ("<!DOCTYPE html><html" ++ a.htmlAttributes ++ "><head"
      ++ a.headAttributes ++ ">")).Sound :=
    append (append (append (append (calm (by decide)) h.html) (calm (by decide)))
      h.headAttributes) (calm (by decide))
  have middle : (markup ("</head><body" ++ a.bodyAttributes ++ ">")).Sound :=
    append (append (calm (by decide)) h.bodyAttributes) (calm (by decide))
  have back : (markup "</body></html>").Sound := calm (by decide)
  intro p hp
  simp only [documentPieces, List.mem_append, List.mem_cons, List.not_mem_nil, or_false] at hp
  rcases hp with rfl | head | rfl | body | rfl
  · exact front
  · exact h.soundHead p head
  · exact middle
  · exact h.soundBody p body
  · exact back

theorem sources_documentPieces (a : Assembly) (hs bs : List Printed) :
    sources (documentPieces a hs bs) = sources (hs ++ bs) := by
  have skip (s : String) (ps : List Printed) : sources (markup s :: ps) = sources ps := rfl
  rw [documentPieces, skip, sources_append, skip, sources_append, skip, sources_append]
  exact congrArg (sources hs ++ ·) (List.append_nil _)

/-- A document put together from pieces consists of the same scripts and of still
    markup. -/
theorem exists_assembled {ps : List Printed} (sound : ∀ p ∈ ps, p.Sound)
    (movable : ∀ p ∈ ps, p.Movable) :
    ∃ qs, assemble (ps.flatMap fragments) = textOf qs ∧ (∀ q ∈ qs, q.Sound) ∧
      (sources qs).Perm (sources ps) ∧ ((∀ p ∈ ps, p.Unmarked) → sources qs = sources ps) := by
  by_cases unmarked : ∀ f ∈ ps.flatMap fragments, Marker.ofFragment f = none
  · refine ⟨ps, ?_, sound, List.Perm.refl _, fun _ => rfl⟩
    rw [assemble_of_no_marker unmarked, join_flatMap_fragments]
  · have some_marker : ((ps.flatMap fragments).filterMap Marker.ofFragment).isEmpty = false := by
      rw [List.isEmpty_eq_false_iff, ne_eq, List.filterMap_eq_nil_iff]
      exact unmarked
    obtain ⟨hs, bs, h, perm⟩ := composed_foldl
      (((ps.flatMap fragments).filterMap Marker.ofFragment).any (·.isSectionTag))
      sound movable composed_empty
    refine ⟨_, ?_, h.sound_pieces, ?_, fun none_marked => ?_⟩
    · rw [assemble]
      simp only [some_marker, Bool.false_eq_true, if_false]
      exact h.text_eq
    · rw [sources_documentPieces]
      exact perm
    · refine absurd ?_ unmarked
      intro f hf
      obtain ⟨p, hp, hf⟩ := List.mem_flatMap.1 hf
      exact none_marked p hp f hf

end PageTree.Live
