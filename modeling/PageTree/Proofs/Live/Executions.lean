/-
  PageTree/Proofs/Live/Executions.lean
  ====================================
  **Every script of a page is executed once.**

  The markup of a tree is made of still text and of the script elements of its
  scripts, provided that no text, key or tag opens a script element and no code
  closes one.  So when the markup has been given to an element and its scripts are
  executed, each script of the tree is executed once and as a whole, in the order of
  the markup.

    * `exists_printing`: the fragments of a tree, by induction on the tree;
    * `scripts_executed_once`: the scripts of a tree.
-/
import PageTree.Page
import PageTree.Proofs.Live.Pieces
import PageTree.Proofs.Live.Writes
import PageTree.Proofs.Markup.RoundTrip

namespace PageTree

open Live Text

/-! ### The scripts of a tree -/

namespace Node

mutual

/-- The sources of the scripts of a tree, one for each element that has any, in the
    order of its markup: the script of an element follows what is inside of it.  The
    number counts the ids taken. -/
def scripts (ids : Nat → String) : Node → Nat → List String × Nat
  | .pending n, k => scripts ids n k
  | .array items, k => scriptsOfList ids items k
  | .component _ _ _ result, k => scripts ids result k
  | .element tag attrs children, k =>
    let who := attrs.who (ids k)
    let own := (attrs.script? who.id).toList
    let childless := isVoidTag tag || (attrs.behaviours who.id).any (·.isRelocation)
    let k := MarkupWriter.taken who k
    let (inner, k) := if childless then ([], k) else scriptsOfList ids children k
    (inner ++ own, k + own.length)
  | .failure _ _ _ _, k => ([], k)
  | .text _, k => ([], k)
  | .number _, k => ([], k)
  | .bool _, k => ([], k)
  | .null, k => ([], k)
  | .undefined, k => ([], k)

def scriptsOfList (ids : Nat → String) : List Node → Nat → List String × Nat
  | [], k => ([], k)
  | n :: ns, k =>
    let (first, k) := scripts ids n k
    let (rest, k) := scriptsOfList ids ns k
    (first ++ rest, k)

end

/-- Trees whose texts hold no tags, with tags of a kind, keys that do not open a tag
    and code that does not close its script. -/
inductive Tame (tags : String → Prop) : Node → Prop where
  | text {s : String} (h : ∀ c ∈ s.toList, c ≠ '<') : Tame tags (.text s)
  | number (x : Float) : Tame tags (.number x)
  | bool (b : Bool) : Tame tags (.bool b)
  | null : Tame tags .null
  | undefined : Tame tags .undefined
  | element {tag : String} {attrs : Attributes} {children : List Node} (allowed : tags tag)
      (distinct : attrs.keys.Nodup) (keys : ∀ key ∈ attrs.keys, ∀ c ∈ key.toList, c ≠ '<')
      (guarded : attrs.Guarded) (inner : ∀ n ∈ children, Tame tags n) :
      Tame tags (.element tag attrs children)
  | component {name : String} {attrs : Attributes} {children : List Node} {result : Node}
      (h : Tame tags result) : Tame tags (.component name attrs children result)
  | array {items : List Node} (h : ∀ n ∈ items, Tame tags n) : Tame tags (.array items)
  | pending {result : Node} (h : Tame tags result) : Tame tags (.pending result)

theorem Tame.mono {tags tags' : String → Prop} (wider : ∀ tag, tags tag → tags' tag) {n : Node}
    (h : n.Tame tags) : n.Tame tags' := by
  induction h with
  | text h => exact .text h
  | number x => exact .number x
  | bool b => exact .bool b
  | null => exact .null
  | undefined => exact .undefined
  | element allowed distinct keys guarded _ ih =>
    exact .element (wider _ allowed) distinct keys guarded ih
  | component _ ih => exact .component ih
  | array _ ih => exact .array ih
  | pending _ ih => exact .pending ih

end Node

/-! ### The attributes and the script of an element -/

theorem Attributes.Guarded.script? {attrs : Attributes} (h : attrs.Guarded) {id source : String}
    (found : attrs.script? id = some source) : Escape.Guarded source := by
  obtain ⟨_, _, _, rfl⟩ := exists_of_mergedSource found
  apply Escape.guarded_intercalate (by decide)
  intro s hs
  obtain ⟨b, hb, rfl⟩ := List.mem_map.1 hs
  obtain ⟨key, -, behaviour⟩ := List.mem_filterMap.1 hb
  exact Behaviour.guarded_statement (h.behaviourAt behaviour) id

/-- The script of an element is no marker. -/
theorem Attributes.ofFragment_script? {attrs : Attributes} {id source : String}
    (found : attrs.script? id = some source) : Marker.ofFragment source = none := by
  obtain ⟨c, more, text, blank, other⟩ := script?_head found
  rw [Marker.ofFragment, text, trimStart, List.dropWhile_cons_of_neg (by simp [blank])]
  simp [dropWord, Ne.symm other]

/-! ### The fragments of a tree -/

namespace Live

theorem infix_of_dropWordIgnoringCase {word s rest : List Char}
    (h : dropWordIgnoringCase word s = some rest) : rest <:+: s := by
  obtain ⟨front, rfl, -⟩ := dropWordIgnoringCase_eq_some_iff.1 h
  exact (List.suffix_append front rest).isInfix

/-- What a marker carries as attributes stands in it after its angle bracket. -/
theorem mem_of_ofTag {s : List Char} {sec : Section} {attrs : String}
    (h : Marker.ofTag s = some (.opening sec attrs)) {x : Char} (hx : x ∈ attrs.toList) : x ∈ s := by
  unfold Marker.ofTag at h
  split at h
  · obtain ⟨_, -, h⟩ := Option.bind_eq_some_iff.1 h
    obtain ⟨_, -, h⟩ := Option.bind_eq_some_iff.1 h
    split at h <;> cases h
  · obtain ⟨_, -, h⟩ := Option.bind_eq_some_iff.1 h
    split at h
    · cases h
    · obtain ⟨_, -, h⟩ := Option.map_eq_some_iff.1 h
      cases h
  · obtain ⟨⟨sec', rest⟩, found, h⟩ := Option.bind_eq_some_iff.1 h
    dsimp only at h
    split at h
    · cases h
    · obtain ⟨inner, ends, same⟩ := Option.map_eq_some_iff.1 h
      obtain ⟨-, rfl⟩ := Marker.opening.inj same
      rw [String.toList_ofList] at hx
      obtain ⟨cut, taken, blank⟩ := Option.bind_eq_some_iff.1 ends
      have inside : inner <:+: rest := by
        dsimp only at blank
        split at blank
        · obtain rfl := Option.some.inj blank
          exact (pieces_of_cutAt taken).1
        · cases blank
      obtain ⟨word, -, dropped⟩ := Marker.exists_of_takeSection found
      exact (infix_of_dropWordIgnoringCase dropped).subset (inside.subset ((infix_dropTrailing _ _).subset hx))

/-- The fragments come from pieces with these sources. -/
structure Prints (plain : Prop) (fs ss : List String) (ps : List Printed) : Prop where
  fragments : fs = ps.flatMap Printed.fragments
  sources : Printed.sources ps = ss
  sound : ∀ p ∈ ps, p.Sound
  movable : ∀ p ∈ ps, p.Movable
  unmarked : plain → ∀ p ∈ ps, p.Unmarked

namespace Prints

variable {plain : Prop} {fs gs ss ts : List String} {ps qs : List Printed}

theorem nil : Prints plain [] [] [] := by
  constructor <;> simp [Printed.sources]

theorem append (h : Prints plain fs ss ps) (h' : Prints plain gs ts qs) :
    Prints plain (fs ++ gs) (ss ++ ts) (ps ++ qs) := by
  constructor
  · rw [h.fragments, h'.fragments, List.flatMap_append]
  · rw [Printed.sources_append, h.sources, h'.sources]
  · exact List.forall_mem_append.2 ⟨h.sound, h'.sound⟩
  · exact List.forall_mem_append.2 ⟨h.movable, h'.movable⟩
  · intro all
    exact List.forall_mem_append.2 ⟨h.unmarked all, h'.unmarked all⟩

theorem markup {s : String} (still : Markup.Still s.toList) (movable : (Printed.markup s).Movable)
    (unmarked : plain → Marker.ofFragment s = none) : Prints plain [s] [] [.markup s] := by
  constructor
  · rfl
  · rfl
  · exact List.forall_mem_singleton.2 still
  · exact List.forall_mem_singleton.2 movable
  · intro all p hp f hf
    obtain rfl := List.mem_singleton.1 hp
    obtain rfl := List.mem_singleton.1 hf
    exact unmarked all

/-- Text without an opening angle bracket. -/
theorem text {s : String} (h : ∀ c ∈ s.toList, c ≠ '<') :
    ∃ ps, Prints plain (MarkupWriter.textFragments s) [] ps := by
  have unmarked := Marker.ofFragment_text h
  unfold MarkupWriter.textFragments
  split
  · exact ⟨[], nil⟩
  · refine ⟨_, markup (Markup.still_of_ne h) ?_ fun _ => unmarked⟩
    intro sec attrs opening
    rw [unmarked] at opening
    cases opening

/-- A tag has no opening angle bracket but the first. -/
theorem tag {s : String} {t : List Char} (spelled : s = String.ofList ('<' :: t))
    (still : Markup.Still s.toList) (single : ∀ c ∈ t, c ≠ '<')
    (unmarked : plain → Marker.ofFragment s = none) : Prints plain [s] [] [.markup s] := by
  refine markup still (fun sec attrs opening => ?_) unmarked
  rw [spelled, Marker.ofFragment_lt] at opening
  exact Markup.still_of_ne fun c hc => single c (mem_of_ofTag opening hc)

theorem script {source : String} (guarded : Escape.Guarded source)
    (unmarked : Marker.ofFragment source = none) :
    Prints plain (Printed.script source).fragments [source] [.script source] := by
  constructor
  · simp
  · rfl
  · exact List.forall_mem_singleton.2 guarded
  · exact List.forall_mem_singleton.2 unmarked
  · intro _ p hp
    rw [List.mem_singleton.1 hp]
    exact Printed.unmarked_script unmarked

end Prints

/-- An opening tag, from its name to its last angle bracket. -/
theorem prints_opening {tag : String} (quiet : Markup.IsQuietTag tag) {as : List ReadAttribute}
    (attributes : ∀ x ∈ (attributesMarkup as).toList, x ≠ '<') {c : Char} {rest : List Char}
    (ends : (foldAscii c).isAlphanum = false) (single : ∀ x ∈ c :: rest, x ≠ '<') {plain : Prop}
    (isPlain : plain → IsPlainTag tag) :
    ∃ ps, Prints plain ["<" ++ tag ++ attributesMarkup as ++ String.ofList (c :: rest)] [] ps := by
  have name : ∀ x ∈ tag.toList, x ≠ '<' := fun x hx =>
    ne_of_isAlphanum (quiet.alphanum x hx) (by decide)
  have spelled : "<" ++ tag ++ attributesMarkup as ++ String.ofList (c :: rest) =
      String.ofList ('<' :: (tag.toList ++ ((attributesMarkup as).toList ++ c :: rest))) := by
    rw [← String.toList_inj]
    simp
  refine ⟨_, Prints.tag spelled ?_ ?_ fun plain => ?_⟩
  · rw [spelled, String.toList_ofList]
    rcases attributesMarkup_head as with none | ⟨more, some⟩
    · rw [none, List.nil_append]
      exact Markup.still_opening quiet ends single
    · have blank : (foldAscii ' ').isAlphanum = false := by decide
      rw [some] at attributes ⊢
      apply Markup.still_opening quiet blank
      exact List.forall_mem_append.2 ⟨attributes, single⟩
  · exact List.forall_mem_append.2 ⟨name, List.forall_mem_append.2 ⟨attributes, single⟩⟩
  · exact Marker.ofFragment_opening (isPlain plain) as rest ends

theorem prints_closing {tag : String} (quiet : Markup.IsQuietTag tag) {plain : Prop}
    (isPlain : plain → IsPlainTag tag) : ∃ ps, Prints plain ["</" ++ tag ++ ">"] [] ps := by
  have spelled : "</" ++ tag ++ ">" = String.ofList ('<' :: '/' :: (tag.toList ++ ['>'])) := by
    rw [← String.toList_inj]
    simp
  refine ⟨_, Prints.tag spelled ?_ ?_ fun plain => ?_⟩
  · rw [spelled, String.toList_ofList]
    exact Markup.still_closing quiet
  · intro x hx
    rcases List.mem_cons.1 hx with rfl | hx
    · decide
    · rcases List.mem_append.1 hx with name | last
      · exact ne_of_isAlphanum (quiet.alphanum x name) (by decide)
      · obtain rfl := List.mem_singleton.1 last
        decide
  · exact Marker.ofFragment_closing (isPlain plain)

section

variable {w : MarkupWriter} {scripts : List Node → Nat → List String × Nat} {tags : String → Prop}
  {plain : Prop}

/-- Fragments and the count of ids, as the scripts of the tree say. -/
def Printing (plain : Prop) (written spec : List String × Nat) : Prop :=
  written.2 = spec.2 ∧ ∃ ps, Prints plain written.1 spec.1 ps

theorem printing_list {ns : List Node}
    (h : ∀ n ∈ ns, ∀ k, Printing plain (w.fragments scripts n k) (n.scripts w.ids k)) (k : Nat) :
    Printing plain (w.fragmentsOfList scripts ns k) (Node.scriptsOfList w.ids ns k) := by
  induction ns generalizing k with
  | nil => exact ⟨rfl, [], Prints.nil⟩
  | cons n ns ih =>
    obtain ⟨here, later⟩ := List.forall_mem_cons.1 h
    obtain ⟨count, ps, first⟩ := here k
    obtain ⟨count', qs, rest⟩ := ih later (w.fragments scripts n k).2
    rw [count] at count' rest
    rw [MarkupWriter.fragmentsOfList, Node.scriptsOfList, Printing]
    dsimp only
    rw [count]
    exact ⟨count', _, first.append rest⟩

/-- A tag in front of fragments. -/
theorem Printing.after {written spec : List String × Nat} (h : Printing plain written spec)
    {tag : String} (opening : ∃ ps, Prints plain [tag] [] ps) :
    Printing plain (tag :: written.1, written.2) spec := by
  obtain ⟨count, ps, printed⟩ := h
  obtain ⟨os, opening⟩ := opening
  exact ⟨count, _, opening.append printed⟩

/-- Tags around fragments, and a script after them. -/
theorem Printing.around {opening closing : String} (opens : ∃ ps, Prints plain [opening] [] ps)
    (closes : ∃ ps, Prints plain [closing] [] ps) {inner spec : List String × Nat}
    (within : Printing plain inner spec) {script : Nat → List String × Nat} {own : List String}
    (follows : ∀ k, Printing plain (script k) (own, k + own.length)) :
    Printing plain (opening :: (inner.1 ++ closing :: (script inner.2).1), (script inner.2).2)
      (spec.1 ++ own, spec.2 + own.length) := by
  obtain ⟨count, ps, within⟩ := within
  obtain ⟨count', qs, follows⟩ := follows spec.2
  obtain ⟨os, opens⟩ := opens
  obtain ⟨cs, closes⟩ := closes
  rw [Printing, count]
  exact ⟨count', _, opens.append (within.append (closes.append follows))⟩

/-- The script of an element, where the element has one. -/
theorem printing_script (ends : ∀ k, scripts [] k = ([], k))
    (writes : ∀ source k, scripts [scriptElement source] k
      = ((Printed.script source).fragments, k + 1))
    {attrs : Attributes} (guarded : attrs.Guarded) (id : String) (k : Nat) :
    Printing plain (scripts ((attrs.script? id).toList.map scriptElement) k)
      ((attrs.script? id).toList, k + (attrs.script? id).toList.length) := by
  cases found : attrs.script? id with
  | none => exact ⟨by simp [ends], [], by simpa [ends] using Prints.nil⟩
  | some source =>
    have printed : Prints plain _ _ _ :=
      Prints.script (guarded.script? found) (Attributes.ofFragment_script? found)
    exact ⟨by simp [writes], _, by simpa [writes] using printed⟩

/-- **The fragments of a tree** come from still markup and the scripts of its
    elements. -/
theorem exists_printing (standard : w.registry = .standard) (ends : ∀ k, scripts [] k = ([], k))
    (writes : ∀ source k, scripts [scriptElement source] k
      = ((Printed.script source).fragments, k + 1))
    (quiet : ∀ tag, tags tag → Markup.IsQuietTag tag)
    (isPlain : plain → ∀ tag, tags tag → IsPlainTag tag) {n : Node} (tame : n.Tame tags) (k : Nat) :
    Printing plain (w.fragments scripts n k) (n.scripts w.ids k) := by
  induction tame generalizing k with
  | text h => exact ⟨rfl, Prints.text h⟩
  | number x =>
    refine ⟨rfl, Prints.text ?_⟩
    rw [← content_number x, Escape.content, String.toList_ofList]
    exact fun _ => ne_of_mem_content
  | bool b =>
    have single : ∀ c ∈ (if b then "true" else "false").toList, c ≠ '<' := by
      cases b <;> exact forall_mem_of_all (by decide)
    have printed : ∃ ps, Prints plain (MarkupWriter.textFragments _) [] ps := Prints.text single
    cases b <;> exact ⟨rfl, printed⟩
  | null => exact ⟨rfl, [], Prints.nil⟩
  | undefined => exact ⟨rfl, [], Prints.nil⟩
  | @element tag attrs children allowed distinct keys guarded _ ih =>
    obtain ⟨html, own, lock, who⟩ := Registry.markup_standard distinct (w.ids k)
    have attributes : ∀ x ∈ (attributesMarkup (attrs.opened (w.ids k))).toList, x ≠ '<' := by
      rintro x hx rfl
      exact Attributes.not_mem_opened (by decide) (fun key hkey lt => keys key hkey _ lt rfl) _ hx
    have tagPlain (all : plain) : IsPlainTag tag := isPlain all tag allowed
    have script (k' : Nat) : Printing plain _ _ :=
      printing_script ends writes guarded (attrs.who (w.ids k)).id k'
    rw [MarkupWriter.fragments, Node.scripts, standard]
    dsimp only
    rw [html, own, lock, who]
    by_cases isVoid : Node.isVoidTag tag
    · have opening := prints_opening (quiet tag allowed) attributes
        (show (foldAscii '/').isAlphanum = false by decide)
        (show ∀ x ∈ ['/', '>'], x ≠ '<' from forall_mem_of_all (by decide)) tagPlain
      simp only [isVoid, if_true, Bool.true_or]
      exact (script _).after opening
    · have opening := prints_opening (quiet tag allowed) attributes
        (show (foldAscii '>').isAlphanum = false by decide)
        (show ∀ x ∈ ['>'], x ≠ '<' from forall_mem_of_all (by decide)) tagPlain
      have closing := prints_closing (quiet tag allowed) tagPlain
      simp only [isVoid, Bool.false_or, Bool.false_eq_true, if_false]
      refine Printing.around opening closing ?_ script
      split
      · exact ⟨rfl, [], Prints.nil⟩
      · exact printing_list ih _
  | component _ ih => exact ih k
  | array _ ih => exact printing_list ih k
  | pending _ ih => exact ih k

end

/-! ### Executing the scripts of a page -/

open Printed

theorem scriptFragments_nil (w : MarkupWriter) (depth k : Nat) :
    w.scriptFragments depth [] k = ([], k) := by
  cases depth <;> rfl

/-- The script of an element has no scripts itself. -/
theorem scriptFragments_script {w : MarkupWriter} (standard : w.registry = .standard)
    (depth : Nat) (source : String) (k : Nat) :
    w.scriptFragments (depth + 1) [scriptElement source] k
      = ((Printed.script source).fragments, k + 1) := by
  have bare : (Registry.standard.markup (w.ids k) ∅).html = ""
      ∧ (Registry.standard.markup (w.ids k) ∅).scripts = []
      ∧ (Registry.standard.markup (w.ids k) ∅).lock = false
      ∧ (Registry.standard.markup (w.ids k) ∅).who.explicit = false := ⟨rfl, rfl, rfl, rfl⟩
  obtain ⟨html, scripts, lock, who⟩ := bare
  have notVoid : Node.isVoidTag "script" = false := by decide +kernel
  simp only [MarkupWriter.scriptFragments, MarkupWriter.fragmentsOfList, scriptElement,
    MarkupWriter.fragments, standard, html, scripts, lock, notVoid, Bool.false_eq_true, if_false,
    MarkupWriter.taken, who, scriptFragments_nil, List.append_nil, Printed.fragments]
  rfl

/-- The markup of a tree consists of still text and of the scripts of the tree. -/
theorem exists_pieces {n : Node} (tame : n.Tame Markup.IsQuietTag) {w : MarkupWriter}
    (standard : w.registry = .standard) {s : MarkupSettings} (unminified : s.minify = false)
    (k : Nat) :
    ∃ ps, (markupOf w s n k).1 = textOf ps ∧ (∀ p ∈ ps, p.Sound) ∧
      (sources ps).Perm (n.scripts w.ids k).1 ∧
      (n.Tame (fun tag => Markup.IsQuietTag tag ∧ IsPlainTag tag) →
        sources ps = (n.scripts w.ids k).1) := by
  have ends := scriptFragments_nil w w.depth
  have writes := scriptFragments_script standard w.registry.length
  have assembled (fs : List String) : markupText s fs = assemble fs := by
    simp [markupText, unminified]
  have markup : (markupOf w s n k).1 = assemble (w.write n k).1 := assembled _
  rw [markup, MarkupWriter.write]
  by_cases plain : n.Tame fun tag => Markup.IsQuietTag tag ∧ IsPlainTag tag
  · have printing : Printing True _ _ := exists_printing standard ends writes
      (fun _ => And.left) (fun _ _ => And.right) plain k
    obtain ⟨-, ps, prints⟩ := printing
    obtain ⟨qs, text, sound, perm, same⟩ := exists_assembled prints.sound prints.movable
    rw [prints.sources] at perm same
    rw [prints.fragments]
    exact ⟨qs, text, sound, perm, fun _ => same (prints.unmarked trivial)⟩
  · have printing : Printing False _ _ := exists_printing standard ends writes
      (fun _ => id) (fun absurd => absurd.elim) tame k
    obtain ⟨-, ps, prints⟩ := printing
    obtain ⟨qs, text, sound, perm, -⟩ := exists_assembled prints.sound prints.movable
    rw [prints.sources] at perm
    rw [prints.fragments]
    exact ⟨qs, text, sound, perm, fun all => absurd all plain⟩

/-- An element that is not around itself shows the markup it was given. -/
theorem Document.html?_setHtml {d : Document} (distinct : d.elements.keys.Nodup) {c : String}
    (present : d.has c = true) (apart : d.isNestedIn c c = false) (html : String) :
    (d.setHtml c html).html? c = some html := by
  have outside : ¬ d.Within c c := by
    rw [← isNestedIn_iff, apart]
    exact Bool.false_ne_true
  obtain ⟨e, found⟩ := has_iff.1 present
  have kept := get?_write_of_kept distinct (w := (c, html)) present (x := c) (fun _ => rfl) outside
  rw [if_pos rfl, found] at kept
  rw [html?, show d.setHtml c html = d.write (c, html) from rfl, kept]
  rfl

/-- A button with a script inside of a section with another one. -/
def scriptedSample : Node :=
  .element "section" ⟨[("reactive", .string "clock"), ("title", .string "<script>")]⟩
    [.text "a > b", .element "button" ⟨[("onClick", .pending (.string "step")), ("id", .string "s")]⟩ []]

theorem tame_scriptedSample :
    scriptedSample.Tame fun tag => Markup.IsQuietTag tag ∧ IsPlainTag tag := by
  have sectionTag : Markup.IsQuietTag "section" ∧ IsPlainTag "section" :=
    ⟨⟨by decide, forall_mem_of_all (by decide), by decide +kernel⟩,
      ⟨by decide, forall_mem_of_all (by decide), by decide +kernel⟩⟩
  have buttonTag : Markup.IsQuietTag "button" ∧ IsPlainTag "button" :=
    ⟨⟨by decide, forall_mem_of_all (by decide), by decide +kernel⟩,
      ⟨by decide, forall_mem_of_all (by decide), by decide +kernel⟩⟩
  refine .element sectionTag (by decide) (forall_mem_toList_of_all (by decide)) ?_ ?_
  · apply Attributes.guarded_of_entries
    decide
  · intro n hn
    rcases List.mem_cons.1 hn with rfl | hn
    · exact .text (forall_mem_of_all (by decide))
    · obtain rfl := List.mem_singleton.1 hn
      refine .element buttonTag (by decide) (forall_mem_toList_of_all (by decide)) ?_
        (fun _ h => absurd h List.not_mem_nil)
      apply Attributes.guarded_of_entries
      decide

end Live

end PageTree
