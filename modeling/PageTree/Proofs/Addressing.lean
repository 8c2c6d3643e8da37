/-
  PageTree/Proofs/Addressing.lean
  ===============================
  **Scripts address the element they belong to.**

  The script of an element is put together from fixed text, from what the values
  of the attributes give, and from calls that name the element: it is looked up in
  the document, or a component is mounted on it.  The argument of every such call
  is the id of the element as a string literal.  The opening tag says the same id
  once more, with one exception: an id that is `true` is written without a value,
  while the script asks for the text of the value.

    * `Behaviour.text_pieces`: a statement is made up of its pieces;
    * `Attributes.filter_opened`: the ids among the attributes of an opening tag;
    * `script_addresses_element`: the script and the opening tag of an element.
-/
import PageTree.Proofs.Handled
import PageTree.Proofs.Markup.RoundTrip
import PageTree.Proofs.Script.Source

namespace PageTree

/-! ### The pieces of a script -/

/-- A piece of the script of an element. -/
inductive ScriptPiece where
  /-- Text that a handler always writes. -/
  | fixed (s : String)
  /-- Text that is made from the values of the attributes. -/
  | given (s : String)
  /-- A call that looks up the element with the id that the argument denotes. -/
  | lookUp (argument : String)
  /-- A call that mounts a component on the element with the id that the argument
      denotes, up to this argument. -/
  | mount (argument : String)

namespace ScriptPiece

def text : ScriptPiece → String
  | fixed s => s
  | given s => s
  | lookUp argument => "document.getElementById(" ++ argument ++ ")"
  | mount argument => "duplex.reactiveComponent(" ++ argument

@[simp]
theorem text_fixed (s : String) : (fixed s).text = s := rfl

@[simp]
theorem text_given (s : String) : (given s).text = s := rfl

@[simp]
theorem text_lookUp (argument : String) :
    (lookUp argument).text = "document.getElementById(" ++ argument ++ ")" := rfl

@[simp]
theorem text_mount (argument : String) :
    (mount argument).text = "duplex.reactiveComponent(" ++ argument := rfl

def textOf (pieces : List ScriptPiece) : String := String.join (pieces.map text)

@[simp]
theorem textOf_nil : textOf [] = "" := rfl

@[simp]
theorem textOf_cons (p : ScriptPiece) (ps : List ScriptPiece) :
    textOf (p :: ps) = p.text ++ textOf ps := by
  rw [textOf, List.map_cons, String.join_cons]
  rfl

theorem textOf_append (ps qs : List ScriptPiece) : textOf (ps ++ qs) = textOf ps ++ textOf qs := by
  rw [textOf, List.map_append, String.join_append]
  rfl

/-- The names of the calls that take the id of an element. -/
def addressing : List String := ["getElementById", "reactiveComponent"]

/-- The piece holds no call that takes the id of an element, other than with this
    id.  What the page's author writes into an attribute is left aside. -/
def Addresses (id : String) : ScriptPiece → Prop
  | fixed s => ∀ name ∈ addressing, ¬ name.toList <:+: s.toList
  | given _ => True
  | lookUp argument => CodeReader.literal? argument.toList = some (id, [])
  | mount argument => CodeReader.literal? argument.toList = some (id, [])

theorem literal?_stringLiteral (id : String) :
    CodeReader.literal? (Escape.stringLiteral id).toList = some (id, []) := by
  have read := CodeReader.literal?_append id []
  rwa [List.append_nil] at read

/-- No call begins in the text. -/
def isPlain (s : String) : Bool := addressing.all fun name => !decide (name.toList <:+: s.toList)

theorem addresses_fixed {s : String} (plain : isPlain s = true) (id : String) :
    (fixed s).Addresses id := by
  intro name mem
  simpa using List.all_eq_true.1 plain name mem

@[simp]
theorem addresses_given (id s : String) : (given s).Addresses id := trivial

@[simp]
theorem addresses_lookUp (id : String) : (lookUp (Escape.stringLiteral id)).Addresses id :=
  literal?_stringLiteral id

@[simp]
theorem addresses_mount (id : String) : (mount (Escape.stringLiteral id)).Addresses id :=
  literal?_stringLiteral id

end ScriptPiece

namespace Behaviour

open ScriptPiece

/-- The pieces of the declaration that binds a parameter to a prop. -/
def declarationPieces (param : String) : List ScriptPiece :=
  match param.toList.head? with
  | some '\x7b' | some '[' => [fixed "const ", given param, fixed " = props;"]
  | _ =>
    match Text.cutAt ['='] param.toList with
    | some (name, default) =>
      let name := String.ofList (Text.trim name)
      [fixed "const ", given name, fixed " = props[", given (Escape.stringLiteral name),
        fixed "] ?? ", given (String.ofList (Text.trim default)), fixed ";"]
    | none =>
      [fixed "const ", given param, fixed " = props[", given (Escape.stringLiteral param),
        fixed "];"]

/-- The pieces of the call of a relocated callback, with what is declared for it. -/
def relocationPieces (id : String) (f : Callback) (props : String) : List ScriptPiece :=
  [fixed "(function()\x7b\nconst props = ", given (Escape.scriptData props), fixed ";\n"]
    ++ f.params.tail.flatMap (fun p => declarationPieces p ++ [fixed "\n"])
    ++ [fixed "try \x7b\n", fixed "(", fixed (if f.isAsync then "async " else ""),
      fixed "function(", given (f.params.headD ""), fixed ")\x7b\n", given f.body,
      fixed "\n\x7d)("]
    ++ (if (f.params.headD "").isEmpty then [] else [lookUp (Escape.stringLiteral id)])
    ++ [fixed ")", fixed (if f.isAsync then ".catch(console.error);\n" else ";\n"),
      fixed "\x7d catch (error) \x7b\nconsole.error(error);\n\x7d\n\x7d)();"]

/-- The pieces of a statement about the element with this id. -/
def pieces (id : String) : Behaviour → List ScriptPiece
  | listen event listener =>
    [lookUp (Escape.stringLiteral id), fixed ".addEventListener(",
      given (Escape.stringLiteral event), fixed ", ", given listener, fixed ");"]
  | reactive target callback =>
    [mount (Escape.stringLiteral target), fixed ", ", given callback, fixed ");"]
  | relocate f props => relocationPieces id f props

theorem textOf_declarationPieces (param : String) :
    textOf (declarationPieces param) = declaration param := by
  unfold declarationPieces declaration
  generalize param.toList.head? = first
  generalize Text.cutAt ['='] param.toList = parted
  split
  · simp [String.append_assoc]
  · simp [String.append_assoc]
  · cases parted <;> simp [String.append_assoc]

theorem textOf_declarations (params : List String) :
    textOf (params.flatMap fun p => declarationPieces p ++ [fixed "\n"])
      = String.join (params.map fun p => declaration p ++ "\n") := by
  induction params with
  | nil => rfl
  | cons param params ih =>
    rw [List.flatMap_cons, textOf_append, textOf_append, textOf_declarationPieces, ih,
      List.map_cons, String.join_cons]
    rfl

theorem expression_byId (id : String) :
    (Target.byId id).expression
      = "document.getElementById(" ++ Escape.stringLiteral id ++ ")" := rfl

theorem textOf_relocationPieces (id : String) (f : Callback) (props : String) :
    textOf (relocationPieces id f props) = relocated f props (.byId id) := by
  have element : textOf (if (f.params.headD "").isEmpty then [] else
      [.lookUp (Escape.stringLiteral id)])
        = if (f.params.headD "").isEmpty then "" else (Target.byId id).expression := by
    split
    · rfl
    · rw [textOf_cons, textOf_nil, text_lookUp, expression_byId, String.append_empty]
  unfold relocated relocatedCall
  rw [relocationPieces, textOf_append, textOf_append, textOf_append, textOf_append,
    textOf_declarations, element]
  simp only [-String.reduceAppend, String.append_assoc, textOf_cons, textOf_nil, text_fixed,
    text_given, String.append_empty]

/-- A statement about the element with this id is made up of its pieces. -/
theorem text_pieces (id : String) (b : Behaviour) :
    textOf (b.pieces id) = b.statement (.byId id) := by
  cases b with
  | listen event listener =>
    have written : statement (.byId id) (listen event listener)
        = (Target.byId id).expression ++ ".addEventListener(" ++ Escape.stringLiteral event ++ ", "
          ++ listener ++ ");" := rfl
    simp [-String.reduceAppend, written, expression_byId, pieces, String.append_assoc]
  | reactive target callback =>
    have written : statement (.byId id) (reactive target callback)
        = "duplex.reactiveComponent(" ++ Escape.stringLiteral target ++ ", " ++ callback ++ ");" :=
      rfl
    simp [written, pieces, String.append_assoc]
  | relocate f props => exact textOf_relocationPieces id f props

/-- A component is mounted on no other element than the one with this id. -/
def MountsOn (id : String) : Behaviour → Prop
  | reactive target _ => target = id
  | _ => True

theorem mountsOn_of_of? {props id key : String} {value : AttrValue} {b : Behaviour}
    (h : of? props id key value = some b) : b.MountsOn id := by
  unfold of? at h
  split at h
  · obtain ⟨_, -, rfl⟩ := Option.map_eq_some_iff.1 h
    trivial
  · split at h
    · obtain ⟨_, -, rfl⟩ := Option.map_eq_some_iff.1 h
      rfl
    · split at h
      · obtain ⟨_, -, rfl⟩ := Option.map_eq_some_iff.1 h
        trivial
      · cases h

theorem addresses_declarationPieces (id param : String) :
    ∀ piece ∈ declarationPieces param, piece.Addresses id := by
  unfold declarationPieces
  split
  · simp (disch := decide) [addresses_fixed]
  · simp (disch := decide) [addresses_fixed]
  · split <;> simp (disch := decide) [addresses_fixed]

theorem addresses_relocationPieces (id : String) (f : Callback) (props : String) :
    ∀ piece ∈ relocationPieces id f props, piece.Addresses id := by
  have declarations : ∀ piece ∈ f.params.tail.flatMap fun p =>
      declarationPieces p ++ [fixed "\n"], piece.Addresses id := by
    intro piece mem
    obtain ⟨param, -, mem⟩ := List.mem_flatMap.1 mem
    rcases List.mem_append.1 mem with declared | lineBreak
    · exact addresses_declarationPieces id param piece declared
    · rw [List.mem_singleton.1 lineBreak]
      exact addresses_fixed (by decide) id
  have element : ∀ piece ∈ (if (f.params.headD "").isEmpty then []
      else [ScriptPiece.lookUp (Escape.stringLiteral id)]), piece.Addresses id := by
    split
    · exact fun _ mem => absurd mem List.not_mem_nil
    · exact fun _ mem => List.mem_singleton.1 mem ▸ addresses_lookUp id
  simp only [relocationPieces, List.forall_mem_append]
  refine ⟨⟨⟨⟨?_, declarations⟩, ?_⟩, element⟩, ?_⟩
  · simp (disch := decide) [addresses_fixed]
  · cases f.isAsync <;> simp (disch := decide) [addresses_fixed]
  · cases f.isAsync <;> simp (disch := decide) [addresses_fixed]

/-- Every call that takes the id of an element takes this one. -/
theorem addresses_pieces {id : String} {b : Behaviour} (h : b.MountsOn id) :
    ∀ piece ∈ b.pieces id, piece.Addresses id := by
  cases b with
  | listen event listener => simp (disch := decide) [pieces, addresses_fixed]
  | reactive target callback =>
    obtain rfl : target = id := h
    simp (disch := decide) [pieces, addresses_fixed]
  | relocate f props => exact addresses_relocationPieces id f props

end Behaviour

/-! ### The script of an element -/

namespace Attributes

open ScriptPiece

/-- The pieces of the script of the element with this id. -/
def scriptPieces (attrs : Attributes) (id : String) : List ScriptPiece :=
  List.intercalate [.fixed "\n"] ((attrs.behaviours id).map (Behaviour.pieces id))

theorem addresses_scriptPieces (attrs : Attributes) (id : String) :
    ∀ piece ∈ attrs.scriptPieces id, piece.Addresses id := by
  have mounts : ∀ b ∈ attrs.behaviours id, b.MountsOn id := by
    intro b mem
    obtain ⟨key, -, found⟩ := List.mem_filterMap.1 mem
    obtain ⟨value, -, of⟩ := Option.bind_eq_some_iff.1 found
    exact Behaviour.mountsOn_of_of? of
  unfold scriptPieces
  generalize attrs.behaviours id = bs at mounts
  induction bs with
  | nil => exact fun _ mem => absurd mem List.not_mem_nil
  | cons b bs ih =>
    obtain ⟨here, later⟩ := List.forall_mem_cons.1 mounts
    have first := Behaviour.addresses_pieces here
    cases bs with
    | nil => rwa [List.map_singleton, List.intercalate_singleton]
    | cons b' bs =>
      rw [List.map_cons, List.map_cons, List.intercalate_cons_cons, ← List.map_cons,
        List.forall_mem_append, List.forall_mem_append]
      refine ⟨⟨first, fun piece mem => ?_⟩, ih later⟩
      rw [List.mem_singleton.1 mem]
      exact addresses_fixed (by decide) id

theorem textOf_scriptPieces (attrs : Attributes) (id : String) :
    textOf (attrs.scriptPieces id)
      = String.intercalate "\n" ((attrs.behaviours id).map (·.statement (.byId id))) := by
  unfold scriptPieces
  induction attrs.behaviours id with
  | nil => rfl
  | cons b bs ih =>
    cases bs with
    | nil =>
      rw [List.map_singleton, List.intercalate_singleton, List.map_singleton,
        String.intercalate_singleton, Behaviour.text_pieces]
    | cons b' bs =>
      rw [List.map_cons, List.map_cons, List.intercalate_cons_cons, ← List.map_cons, textOf_append,
        textOf_append, ih, Behaviour.text_pieces, textOf_cons, textOf_nil, String.append_empty,
        text_fixed]
      exact String.intercalate_cons_cons.symm

/-! ### The ids of an opening tag -/

theorem shownAttribute_id {v : AttrValue} (valued : v ≠ .bool true) :
    shownAttribute "id" v = if v.isOmitted then none else some ("id", some v.text) := by
  unfold shownAttribute
  rw [if_neg (by decide)]
  split
  · exact absurd rfl valued
  · rfl

/-- What an element is known by, and what is shown of an id of its own. -/
theorem who_cases (attrs : Attributes) (fresh : String) :
    (attrs.awaited? "id" = some (.bool true) ∧ attrs.who fresh = ⟨"true", true⟩ ∧
        attrs.shownAt "id" = some ("id", none)) ∨
      attrs.awaited? "id" ≠ some (.bool true) ∧
        ((attrs.who fresh = ⟨fresh, false⟩ ∧ attrs.shownAt "id" = none) ∨
          ∃ s, attrs.who fresh = ⟨s, true⟩ ∧ attrs.shownAt "id" = some ("id", some s)) := by
  rw [who, identity, id?, get?_resolve_self, shownAt]
  cases attrs.awaited? "id" with
  | none => exact .inr ⟨(Option.some_ne_none _).symm, .inl ⟨rfl, rfl⟩⟩
  | some v =>
    by_cases bare : v = .bool true
    · subst bare
      exact .inl ⟨rfl, rfl, rfl⟩
    · refine .inr ⟨fun same => bare (Option.some.inj same), ?_⟩
      rw [Option.bind_some, shownAttribute_id bare]
      by_cases omitted : v.isOmitted
      · have unset : (some v).filter (!·.isOmitted) = none := by simp [omitted]
        rw [unset, if_pos omitted]
        exact .inl ⟨rfl, rfl⟩
      · have set : (some v).filter (!·.isOmitted) = some v := by simp [omitted]
        rw [set, if_neg omitted]
        exact .inr ⟨v.text, rfl, rfl⟩

theorem filter_openedAt (attrs : Attributes) {keys : List String} (distinct : keys.Nodup) :
    (keys.filterMap attrs.openedAt).filter (·.1 = "id")
      = if "id" ∈ keys then (attrs.shownAt "id").toList else [] := by
  have other {key : String} (h : key ≠ "id") : (attrs.openedAt key).filter (·.1 = "id") = none := by
    refine Option.filter_eq_none_iff.2 fun a opened => ?_
    have shown : a.1 ≠ "id" := by
      rw [shownKey_of_openedAt opened, shownKey]
      split
      · decide
      · exact h
    simpa using shown
  have own : (attrs.openedAt "id").filter (·.1 = "id") = attrs.shownAt "id" := by
    rw [openedAt, if_neg (by decide)]
    cases shown : attrs.shownAt "id" with
    | none => rfl
    | some a =>
      obtain ⟨v, -, made⟩ := Option.bind_eq_some_iff.1 shown
      have key : a.1 = "id" := shownAttribute_key made
      simp [Option.filter, key]
  rw [List.filter_filterMap]
  induction keys with
  | nil => rfl
  | cons key keys ih =>
    obtain ⟨absent, later⟩ := List.nodup_cons.1 distinct
    by_cases here : key = "id"
    · subst here
      have rest := ih later
      rw [if_neg absent] at rest
      cases shown : attrs.shownAt "id" with
      | none => simp [own, shown, rest]
      | some a => simp [own, shown, rest]
    · simp [other here, ih later, Ne.symm here]

/-- The ids among the attributes of an opening tag: one that was generated, then one
    that is shown. -/
theorem filter_opened {attrs : Attributes} (distinct : attrs.keys.Nodup) (fresh : String) :
    (attrs.opened fresh).filter (·.1 = "id")
      = (if !(attrs.behaviours (attrs.who fresh).id).isEmpty && !(attrs.who fresh).explicit then
          [("id", some (attrs.who fresh).id)]
        else []) ++ (attrs.shownAt "id").toList := by
  have written : (attrs.writtenKeys.filterMap attrs.openedAt).filter (·.1 = "id")
      = (attrs.shownAt "id").toList := by
    have nodup : attrs.writtenKeys.Nodup := distinct.filter _
    rw [attrs.filter_openedAt nodup]
    split
    · rfl
    · next absent =>
      have unset : attrs.awaited? "id" = none := by
        cases awaited : attrs.awaited? "id" with
        | none => rfl
        | some v =>
          obtain ⟨_, found, -⟩ := Option.map_eq_some_iff.1 awaited
          have listed : "id" ∈ attrs.keys :=
            List.mem_map_of_mem (f := Prod.fst) (OrderedMap.mem_of_get? found)
          exact absurd (List.mem_filter.2 ⟨listed, by decide⟩) absent
      rw [shownAt, unset]
      rfl
  rw [opened, List.filter_append, written]
  split <;> simp

/-- The keys of the attributes of an opening tag are those that an element has. -/
theorem names_opened {attrs : Attributes}
    (names : ∀ key ∈ attrs.keys, key ≠ "" ∧ ∀ c ∈ key.toList, isKeyChar c = true) (fresh : String) :
    ∀ a ∈ attrs.opened fresh, a.1 ≠ "" ∧ ∀ c ∈ a.1.toList, isKeyChar c = true := by
  intro a mem
  rcases List.mem_append.1 mem with generated | written
  · split at generated
    · have id : "id" ≠ "" ∧ ∀ c ∈ "id".toList, isKeyChar c = true :=
        ⟨by decide, forall_mem_of_all (by decide)⟩
      rwa [List.mem_singleton.1 generated]
    · cases generated
  · obtain ⟨key, listed, opened⟩ := List.mem_filterMap.1 written
    rw [shownKey_of_openedAt opened, shownKey]
    split
    · exact ⟨by decide, forall_mem_of_all (by decide)⟩
    · exact names key (List.mem_of_mem_filter listed)

end Attributes

/-! ### The script and the opening tag -/

/-- Fragments that read as content make up markup that reads as it. -/
theorem Reads.readMarkup_join {fs : List String} {cs : List Content} (h : Reads fs cs) :
    readMarkup (String.join fs) = some (Content.tidy cs) := by
  obtain ⟨t, d, fed, draft⟩ := h.read [] {} []
  rw [String.ofList_nil, Draft.add_empty] at draft
  have result : (MarkupReader.mk (.data (t.flatMap Escape.contentChar)) d []).result?
      = some (Content.tidy cs) := by
    rw [MarkupReader.result?, textOfRaw, Escape.resolve_content, draft]
    rfl
  rw [readMarkup]
  exact (congrArg (·.bind MarkupReader.result?) fed).trans result

/-- The markup of an element without children reads as the element. -/
theorem readMarkup_childless {tag : String} (plain : IsPlainTag tag) {as : List ReadAttribute}
    (names : ∀ a ∈ as, a.1 ≠ "" ∧ ∀ c ∈ a.1.toList, isKeyChar c = true) :
    readMarkup ("<" ++ tag ++ attributesMarkup as
      ++ if Node.isVoidTag tag then "/>" else "></" ++ tag ++ ">") = some [.element tag as []] := by
  cases void : Node.isVoidTag tag with
  | true =>
    have read := (Reads.void plain void names).readMarkup_join
    simpa [Content.tidy, Draft.add, Draft.finish] using read
  | false =>
    have read := (Reads.element plain void names Reads.nil).readMarkup_join
    have tags : "></" ++ tag ++ ">" = ">" ++ ("</" ++ tag ++ ">") := by
      rw [← String.toList_inj]
      simp
    rw [if_neg Bool.false_ne_true, tags, ← String.append_assoc]
    simpa [Content.tidy, Draft.add, Draft.finish] using read

/-- **The script of an element** addresses the element: every call in it that takes
    an id takes the id that the element is known by.  The opening tag has exactly
    this id as its `id` if and only if the attributes do not set the id to `true`;
    in that case its `id` has no value, while the script asks for the text `true`. -/
theorem script_addresses_element {attrs : Attributes} (distinct : attrs.keys.Nodup)
    (names : ∀ key ∈ attrs.keys, key ≠ "" ∧ ∀ c ∈ key.toList, isKeyChar c = true) {fresh : String}
    {script : Node} (scripted : script ∈ (Registry.standard.markup fresh attrs).scripts) :
    let out := Registry.standard.markup fresh attrs
    let id := out.who.id
    out.scripts = [script] ∧
    script = scriptElement (ScriptPiece.textOf (attrs.scriptPieces id)) ∧
    (∀ piece ∈ attrs.scriptPieces id, piece.Addresses id) ∧
    (∀ own, attrs.shownAt "id" = some ("id", some own) → id = own) ∧
    ∃ read : List ReadAttribute,
      (∀ tag, IsPlainTag tag →
        readMarkup ("<" ++ tag ++ out.html
          ++ if Node.isVoidTag tag then "/>" else "></" ++ tag ++ ">")
            = some [.element tag read []]) ∧
      (read.filter (·.1 = "id") = [("id", some id)] ↔ attrs.awaited? "id" ≠ some (.bool true)) ∧
      (attrs.awaited? "id" = some (.bool true) →
        read.filter (·.1 = "id") = [("id", none)] ∧ id = "true") := by
  intro out id
  obtain ⟨html, scripts, -, known⟩ := Registry.markup_standard distinct fresh
  have same : id = (attrs.who fresh).id := congrArg Identity.id known
  have nonempty : (attrs.behaviours id).isEmpty = false := by
    cases empty : (attrs.behaviours id).isEmpty with
    | false => rfl
    | true =>
      rw [scripts, ← same, Attributes.script?, mergedSource, List.isEmpty_iff.1 empty] at scripted
      cases scripted
  have source : attrs.script? id = some (ScriptPiece.textOf (attrs.scriptPieces id)) := by
    rw [Attributes.textOf_scriptPieces, Attributes.script?, mergedSource, List.isEmpty_map,
      nonempty]
    rfl
  have one : out.scripts = [scriptElement (ScriptPiece.textOf (attrs.scriptPieces id))] := by
    rw [scripts, ← same, source]
    rfl
  have itself : script = scriptElement (ScriptPiece.textOf (attrs.scriptPieces id)) :=
    List.mem_singleton.1 (one ▸ scripted)
  have ids := Attributes.filter_opened distinct fresh
  rw [← same, nonempty] at ids
  refine ⟨itself ▸ one, itself, attrs.addresses_scriptPieces id, fun own shown => ?_,
    attrs.opened fresh, fun tag plain => ?_, ?_⟩
  · rcases attrs.who_cases fresh with ⟨-, -, bare⟩ | ⟨-, ⟨-, unset⟩ | ⟨s, who, set⟩⟩
    · rw [bare] at shown
      cases shown
    · rw [unset] at shown
      cases shown
    · rw [set] at shown
      cases shown
      rw [same, who]
  · rw [html]
    exact readMarkup_childless plain (Attributes.names_opened names fresh)
  · rw [ids, same]
    rcases attrs.who_cases fresh with ⟨bare, who, shown⟩ | ⟨valued, ⟨who, shown⟩ | ⟨s, who, shown⟩⟩
    · simp [bare, who, shown]
    · simp [valued, who, shown]
    · simp [valued, who, shown]

/-- A title, a listener that is still to be awaited, and a component. -/
def clockSample : Attributes :=
  ⟨[("title", .string "12 \"o'clock\""), ("onClick", .pending (.string "wind")),
    ("reactive", .string "Clock")]⟩

theorem clockSample_scripts : (Registry.standard.markup "x-1" clockSample).scripts
    = [scriptElement ("document.getElementById(\"x-1\").addEventListener(\"click\", wind);\n"
        ++ "duplex.reactiveComponent(\"x-1\", Clock);")] := by
  rfl

theorem clockSample_addressed :
    let out := Registry.standard.markup "x-1" clockSample
    (∀ piece ∈ clockSample.scriptPieces out.who.id, piece.Addresses out.who.id) ∧
    ∃ read : List ReadAttribute,
      (∀ tag, IsPlainTag tag →
        readMarkup ("<" ++ tag ++ out.html
          ++ if Node.isVoidTag tag then "/>" else "></" ++ tag ++ ">")
            = some [.element tag read []]) ∧
      read.filter (·.1 = "id") = [("id", some "x-1")] := by
  intro out
  have distinct : clockSample.keys.Nodup := by decide
  have names : ∀ key ∈ clockSample.keys, key ≠ "" ∧ ∀ c ∈ key.toList, isKeyChar c = true := by
    intro key mem
    simp only [clockSample, OrderedMap.keys, List.map_cons, List.map_nil, List.mem_cons,
      List.not_mem_nil, or_false] at mem
    rcases mem with rfl | rfl | rfl <;> exact ⟨by decide, forall_mem_of_all (by decide)⟩
  have scripted : scriptElement _ ∈ out.scripts := clockSample_scripts ▸ List.mem_singleton_self _
  obtain ⟨-, -, addresses, -, read, reads, once, -⟩ :=
    script_addresses_element distinct names scripted
  have unset : clockSample.awaited? "id" = none := rfl
  have valued : clockSample.awaited? "id" ≠ some (.bool true) := by
    rw [unset]
    exact (Option.some_ne_none _).symm
  exact ⟨addresses, read, reads, once.2 valued⟩

/-- An id that is `true` has no value in the tag, and the script asks for `true`. -/
theorem bare_id_not_addressed :
    let out := Registry.standard.markup "x-1" ⟨[("id", .bool true), ("onClick", .string "f")]⟩
    out.scripts
        = [scriptElement "document.getElementById(\"true\").addEventListener(\"click\", f);"] ∧
      readMarkup ("<b" ++ out.html ++ "></b>") = some [.element "b" [("id", none)] []] := by
  intro out
  refine ⟨rfl, ?_⟩
  have names : ∀ a ∈ [("id", (none : Option String))],
      a.1 ≠ "" ∧ ∀ c ∈ a.1.toList, isKeyChar c = true := by
    intro a mem
    rw [List.mem_singleton.1 mem]
    exact ⟨by decide, forall_mem_of_all (by decide)⟩
  have plain : IsPlainTag "b" := ⟨by decide, forall_mem_of_all (by decide), by decide +kernel⟩
  have written : "<b" ++ out.html ++ "></b>" = "<" ++ "b" ++ attributesMarkup [("id", none)]
      ++ if Node.isVoidTag "b" then "/>" else "></" ++ "b" ++ ">" := by
    decide +kernel
  rw [written]
  exact readMarkup_childless plain names

end PageTree
