/-
  PageTree/Proofs/Markup/Sections.lean
  ====================================
  **Where the content of a document goes.**

  A document is put together in one pass over the fragments, which remembers where
  it stands.  What becomes of a fragment can be said without the pass.  Markers give
  way to the tags of the document, each of which carries the attributes of the last
  opening tag of its section.  Any other fragment goes to the head if the last tag of
  the head or the body in front of it opens the head, or if there is no such tag in
  front of it but one behind it; and else it goes to the body.

    * `Assembly.foldl_add`: the document under construction after some fragments;
    * `assemble_sections`: the document, and that it holds all content once and in
      order.
-/
import PageTree.Proofs.Markup.OutermostTag

namespace PageTree

/-! ### Fragments as parts of a document -/

namespace Marker

/-- The attributes of an opening tag of this section. -/
def opened? (sec : Section) : Marker → Option String
  | opening s attrs => if s = sec then some attrs else none
  | closing _ | doctype => none

def opensHead : Marker → Bool
  | opening .head _ => true
  | _ => false

end Marker

namespace Assembly

/-- Whether a fragment is content of the document, and no marker. -/
def isContent (f : String) : Bool := (Marker.ofFragment f).isNone

/-- The last tag of the head or the body among some fragments. -/
def lastSectionTag (fs : List String) : Option Marker :=
  ((fs.filterMap Marker.ofFragment).filter (·.isSectionTag)).getLast?

/-- The attributes of the last opening tag of a section, none if there is no such
    tag. -/
def lastOpened (sec : Section) (fs : List String) : String :=
  ((fs.filterMap Marker.ofFragment).filterMap (Marker.opened? sec)).getLastD ""

/-- Whether content between these fragments belongs to the head: the last tag of the
    head or the body in front decides, and without one, whether there is one behind. -/
def belongsToHead (before after : List String) : Bool :=
  match lastSectionTag before with
  | some tag => tag.opensHead
  | none => (lastSectionTag after).isSome

/-- The content that is kept, given what stands in front of it and behind it. -/
def contentWhere (p : List String → List String → Bool) (fs : List String) : List String :=
  (fs.zipIdx.filter fun e => isContent e.1 && p (fs.take e.2) (fs.drop (e.2 + 1))).map (·.1)

def headContent (fs : List String) : List String := contentWhere belongsToHead fs

def bodyContent (fs : List String) : List String :=
  contentWhere (fun before after => !belongsToHead before after) fs

/-! ### One fragment more -/

variable {f : String} {fs : List String}

theorem lastSectionTag_concat (fs : List String) (f : String) :
    lastSectionTag (fs ++ [f])
      = ((Marker.ofFragment f).filter (·.isSectionTag)).or (lastSectionTag fs) := by
  unfold lastSectionTag
  cases h : Marker.ofFragment f with
  | none => simp [h]
  | some m => cases tag : m.isSectionTag <;> simp [h, tag, Option.filter]

theorem lastOpened_concat (sec : Section) (fs : List String) (f : String) :
    lastOpened sec (fs ++ [f])
      = (((Marker.ofFragment f).bind (Marker.opened? sec)).getD (lastOpened sec fs)) := by
  unfold lastOpened
  cases h : Marker.ofFragment f with
  | none => simp [h]
  | some m => cases carried : m.opened? sec <;> simp [h, carried]

/-- What is kept by what stands in front of it does not change with what is added
    behind it. -/
theorem contentWhere_concat (p : List String → Bool) (fs : List String) (f : String) :
    contentWhere (fun before _ => p before) (fs ++ [f])
      = contentWhere (fun before _ => p before) fs ++ if isContent f && p fs then [f] else [] := by
  have front : ∀ e ∈ fs.zipIdx, (isContent e.1 && p ((fs ++ [f]).take e.2))
      = (isContent e.1 && p (fs.take e.2)) := by
    intro e he
    have bound := List.snd_lt_of_mem_zipIdx he
    rw [List.take_append_of_le_length (by omega)]
  unfold contentWhere
  rw [List.zipIdx_append, List.filter_append, List.map_append, List.filter_congr front]
  cases kept : isContent f && p fs <;> simp_all

/-! ### The pass over the fragments -/

/-- Where the pass stands after a tag of the head or the body. -/
def placeAfter : Marker → Position
  | .opening .head _ => .inHead
  | .opening _ _ => .inBody
  | .closing _ | .doctype => .between

/-- Where the pass stands after some fragments. -/
def positionAfter (fs : List String) : Position :=
  ((lastSectionTag fs).map placeAfter).getD .preamble

/-- The document under construction after some fragments, said without the pass. -/
def built (hasSections : Bool) (fs : List String) : Assembly where
  position := positionAfter fs
  htmlAttributes := lastOpened .html fs
  headAttributes := lastOpened .head fs
  bodyAttributes := lastOpened .body fs
  head := String.join
    (contentWhere (fun before _ => toHead hasSections (positionAfter before)) fs)
  body := String.join
    (contentWhere (fun before _ => !toHead hasSections (positionAfter before)) fs)

theorem built_concat_content (hasSections : Bool) (fs : List String)
    (content : Marker.ofFragment f = none) :
    built hasSections (fs ++ [f]) = add hasSections (built hasSections fs) f := by
  have position : positionAfter (fs ++ [f]) = positionAfter fs := by
    simp [positionAfter, lastSectionTag_concat, content]
  rw [add, content]
  dsimp only
  split
  · next head =>
    have head : toHead hasSections (positionAfter fs) = true := head
    simp [built, lastOpened_concat, contentWhere_concat, isContent, content, position, head]
  · next body =>
    have body : toHead hasSections (positionAfter fs) = false := Bool.eq_false_of_not_eq_true body
    simp [built, lastOpened_concat, contentWhere_concat, isContent, content, position, body]

theorem built_concat_marker (hasSections : Bool) (fs : List String) {m : Marker}
    (marker : Marker.ofFragment f = some m) :
    built hasSections (fs ++ [f]) = add hasSections (built hasSections fs) f := by
  have position : positionAfter (fs ++ [f])
      = if m.isSectionTag then placeAfter m else positionAfter fs := by
    cases tag : m.isSectionTag <;>
      simp [positionAfter, lastSectionTag_concat, marker, tag, Option.filter]
  have attributes (sec : Section) : lastOpened sec (fs ++ [f])
      = (m.opened? sec).getD (lastOpened sec fs) := by
    rw [lastOpened_concat, marker, Option.bind_some]
  have content : isContent f = false := by
    simp [isContent, marker]
  rw [add, marker]
  unfold built
  simp only [contentWhere_concat, content, position, attributes, Bool.false_and,
    Bool.false_eq_true, if_false, List.append_nil]
  cases m with
  | doctype => rfl
  | closing sec => cases sec <;> rfl
  | opening sec attrs => cases sec <;> rfl

/-- **The pass over the fragments**, by induction from the first to the last. -/
theorem foldl_add (hasSections : Bool) (fs : List String) :
    fs.foldl (add hasSections) {} = built hasSections fs := by
  induction fs using List.reverseRecOn with
  | nil => rfl
  | append_singleton fs f ih =>
    rw [List.foldl_concat, ih]
    cases marker : Marker.ofFragment f with
    | none => exact (built_concat_content hasSections fs marker).symm
    | some m => exact (built_concat_marker hasSections fs marker).symm

/-! ### Head and body -/

theorem opensHead_eq_toHead {hasSections : Bool} {m : Marker} :
    m.opensHead = toHead hasSections (placeAfter m) := by
  cases m with
  | doctype => rfl
  | closing sec => rfl
  | opening sec attrs => cases sec <;> rfl

theorem isSome_lastSectionTag (fs : List String) :
    (lastSectionTag fs).isSome = (fs.filterMap Marker.ofFragment).any (·.isSectionTag) := by
  unfold lastSectionTag
  induction fs.filterMap Marker.ofFragment with
  | nil => rfl
  | cons m ms ih => cases tag : m.isSectionTag <;> simp_all

/-- Without a tag of the head or the body in front of a content, the whole has such a
    tag exactly if it stands behind. -/
theorem belongsToHead_eq {before after : List String} (content : isContent f = true) :
    belongsToHead before after
      = toHead (lastSectionTag (before ++ f :: after)).isSome (positionAfter before) := by
  unfold belongsToHead positionAfter
  cases last : lastSectionTag before with
  | some tag => exact opensHead_eq_toHead
  | none =>
    have marker : Marker.ofFragment f = none := Option.isNone_iff_eq_none.1 content
    have none_before : (before.filterMap Marker.ofFragment).any (·.isSectionTag) = false := by
      rw [← isSome_lastSectionTag, last]
      rfl
    simp [isSome_lastSectionTag, marker, none_before, toHead]

theorem contentWhere_congr {p q : List String → List String → Bool}
    (same : ∀ before f after, fs = before ++ f :: after → isContent f = true →
      p before after = q before after) : contentWhere p fs = contentWhere q fs := by
  unfold contentWhere
  refine congrArg _ (List.filter_congr fun e he => ?_)
  obtain ⟨bound, found⟩ := List.mem_zipIdx' he
  cases content : isContent e.1 with
  | false => rfl
  | true =>
    refine congrArg _ (same _ e.1 _ ?_ content)
    rw [found, List.getElem_cons_drop, List.take_append_drop]

/-- All content is kept either for one reason or for its contrary, in the order of the
    fragments. -/
theorem contentWhere_partition (p : List String → List String → Bool) (fs : List String) :
    (contentWhere p fs).Sublist (fs.filter isContent) ∧
      (contentWhere (fun before after => !p before after) fs).Sublist (fs.filter isContent) ∧
      (contentWhere p fs ++ contentWhere (fun before after => !p before after) fs).Perm
        (fs.filter isContent) := by
  have all : fs.filter isContent = (fs.zipIdx.filter fun e => isContent e.1).map (·.1) := by
    have fronts : fs = fs.zipIdx.map (·.1) := (List.zipIdx_map_fst 0 fs).symm
    conv_lhs => rw [fronts, List.filter_map]
    rfl
  have kept (q : List String → List String → Bool) : contentWhere q fs
      = ((fs.zipIdx.filter fun e => isContent e.1).filter fun e =>
          q (fs.take e.2) (fs.drop (e.2 + 1))).map (·.1) := by
    rw [contentWhere, List.filter_filter]
    simp only [Bool.and_comm]
  rw [all, kept, kept, ← List.map_append]
  refine ⟨?_, ?_, ?_⟩
  · exact List.filter_sublist.map _
  · exact List.filter_sublist.map _
  · exact (List.filter_append_perm _ _).map _

end Assembly

open Assembly

/-- **The sections of a document.**  With a marker among them, fragments are put together
    to a document, whose tags carry what the last opening tags of their sections do.
    Head and body hold the content that belongs there, in order, and together all of it,
    once. -/
theorem assemble_sections {fs : List String} (marked : ∃ f ∈ fs, Marker.ofFragment f ≠ none) :
    assemble fs = "<!DOCTYPE html><html" ++ lastOpened .html fs ++ "><head"
        ++ lastOpened .head fs ++ ">" ++ String.join (headContent fs) ++ "</head><body"
        ++ lastOpened .body fs ++ ">" ++ String.join (bodyContent fs) ++ "</body></html>" ∧
      (headContent fs).Sublist (fs.filter isContent) ∧
      (bodyContent fs).Sublist (fs.filter isContent) ∧
      (headContent fs ++ bodyContent fs).Perm (fs.filter isContent) := by
  refine ⟨?_, contentWhere_partition belongsToHead fs⟩
  have hasMarker : (fs.filterMap Marker.ofFragment).isEmpty = false := by
    obtain ⟨f, mem, marker⟩ := marked
    obtain ⟨m, found⟩ := Option.ne_none_iff_exists'.1 marker
    rw [List.isEmpty_eq_false_iff]
    exact List.ne_nil_of_mem (List.mem_filterMap.2 ⟨f, mem, found⟩)
  have head : contentWhere (fun before _ =>
      toHead (lastSectionTag fs).isSome (positionAfter before)) fs = headContent fs := by
    apply contentWhere_congr
    intro before f after split content
    rw [belongsToHead_eq content, ← split]
  have body : contentWhere (fun before _ =>
      !toHead (lastSectionTag fs).isSome (positionAfter before)) fs = bodyContent fs := by
    apply contentWhere_congr
    intro before f after split content
    rw [belongsToHead_eq content, ← split]
  rw [assemble_of_marker hasMarker, ← isSome_lastSectionTag, foldl_add]
  unfold built text
  rw [head, body]

/-- Content around and between sections that come more than once. -/
theorem repeated_sections :
    (∃ f ∈ ["a", "<body class=\"x\">", "b", "</body>", "c", "<HEAD>", "d", "</head>", "<body/>"],
      Marker.ofFragment f ≠ none) ∧
    assemble ["a", "<body class=\"x\">", "b", "</body>", "c", "<HEAD>", "d", "</head>", "<body/>"]
      = "<!DOCTYPE html><html><head>ad</head><body>bc</body></html>" := by
  have marked : ∃ f ∈ ["a", "<body class=\"x\">", "b", "</body>", "c", "<HEAD>", "d", "</head>",
      "<body/>"], Marker.ofFragment f ≠ none :=
    ⟨"</body>", by decide, by decide⟩
  refine ⟨marked, ?_⟩
  rw [(assemble_sections marked).1]
  decide +kernel

end PageTree
