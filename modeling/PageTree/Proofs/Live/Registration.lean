/-
  PageTree/Proofs/Live/Registration.lean
  ======================================
  **Mounting a component on the markup of its element.**

  The id of an element is written three times: escaped into its opening tag, as a
  string literal into its script, and by the document that reads it from the markup.
  The document takes an attribute's value as it stands, without undoing the escapes,
  and it takes for an id what follows the end of a value like `x id=`.  In all other
  cases it knows the element by the id that the script mounts the component under.

    * `mount_ne_noElement`: a mount on an element that is there;
    * `exists_front`: where the id is in the markup;
    * `mounts_under_written_id`: whether the document finds it there.
-/
import PageTree.Page
import PageTree.Proofs.Handled
import PageTree.Proofs.Live.IdAssignments
import PageTree.Proofs.Live.Inertness
import PageTree.Proofs.Live.Trails
import PageTree.Proofs.Live.Writes
import PageTree.Proofs.Markup.OutermostTag

namespace PageTree

open Live

/-! ### Mounting on an element that is there -/

namespace Live

variable {P : Callbacks} {μ : Type}

/-- The element is not removed. -/
def KeepsElement (id : String) (c c' : Client P) : Prop :=
  c.document.has id = true → c'.document.has id = true

theorem keepsElement_composes (id : String) : Composes (KeepsElement (P := P) id) where
  refl _ present := present
  trans h h' present := h' (h present)

theorem keepsElement_of_eq {id : String} {c c' : Client P} (h : c'.document = c.document) :
    KeepsElement id c c' := by
  rw [KeepsElement, h]
  exact fun present => present

/-- Callbacks that neither remove the element nor report it missing. -/
structure Calls.Spare (id : String) (calls : Calls P μ) : Prop
    extends calls.Move (KeepsElement id) where
  silent : ∀ component body w w', calls.render component body w ≠ some (.error (.noElement id), w')

section

variable {calls : Calls P μ} {id : String} (spare : calls.Spare id)

include spare

theorem keepsElement_undoAll {take : Client P → List (Due P) × Client P} (h : Take take) :
    (calls.undoAll take).Moves (KeepsElement id) :=
  (keepsElement_composes id).moves_undoAll (fun c => keepsElement_of_eq (h.document_eq c))
    (fun _ _ => keepsElement_of_eq rfl) spare.cleanup

theorem keepsElement_runPass (component : String) (body : P.Body) :
    (calls.runPass component body).Moves (KeepsElement id) :=
  (keepsElement_composes id).moves_runPass (fun _ _ => keepsElement_of_eq rfl)
    (fun _ _ => keepsElement_of_eq rfl) spare.render component body

theorem keepsElement_unmountElement (element : String) :
    (calls.unmountElement element).Moves (KeepsElement id) := by
  have composes := keepsElement_composes (P := P) id
  refine composes.moves_unmountElement (fun _ _ => keepsElement_of_eq rfl) ?_ element
  refine composes.moves_tearDown (fun n i => keepsElement_undoAll spare (.detach n i))
    (fun c n => ?_) fun other => keepsElement_undoAll spare (.forget other)
  rcases endSubscription_eq c n with same | ⟨i, l, _, _, ended⟩
  · rw [same]
    exact keepsElement_of_eq rfl
  · rw [ended]
    exact keepsElement_of_eq rfl

/-- As long as an element is there, no render fails for want of it. -/
theorem renderInstance_ne_noElement (n : Nat) {w : World P μ}
    (present : w.client.document.has id = true) (w' : World P μ) :
    calls.renderInstance n w ≠ some (.error (.noElement id), w') := by
  have same : (w.client.beginRender n).2.document = w.client.document := by
    rcases beginRender_eq w.client n with same | begun
    · rw [same]
    · rw [begun]
      rfl
  intro failed
  unfold Calls.renderInstance at failed
  rw [Act.through_bind] at failed
  cases begun : (w.client.beginRender n).1 with
  | none =>
    rw [begun] at failed
    cases Option.some.inj failed
  | some i =>
    rw [begun] at failed
    obtain ⟨result, w₁, passed, failed⟩ := Act.bind_eq_some.1 failed
    change calls.conclude n i result w₁ = _ at failed
    cases result with
    | error e =>
      rw [conclude_error, Option.some.injEq, Prod.mk.injEq, Except.error.injEq] at failed
      obtain ⟨w₂, rendered, -⟩ := Calls.runPass_eq_some passed
      rw [failed.1] at rendered
      exact spare.silent _ _ _ _ rendered
    | ok html =>
      have present : w₁.client.document.has id = true :=
        keepsElement_runPass spare i.element i.body _ _ _ passed (same ▸ present)
      rw [conclude_ok] at failed
      split at failed
      · obtain ⟨_, w₂, -, failed⟩ := Act.bind_eq_some.1 failed
        cases Option.some.inj failed
      · next absent =>
        rw [Option.some.injEq, Prod.mk.injEq, Except.error.injEq, Fault.noElement.injEq] at failed
        rw [failed.1] at absent
        exact absent present

/-- **A mount** on an element that is there does not fail for want of it, as long as
    callbacks neither remove the element nor report it missing. -/
theorem mount_ne_noElement (body : P.Body) {w : World P μ}
    (present : w.client.document.has id = true) (w' : World P μ) :
    calls.mount id body w ≠ some (.error (.noElement id), w') := by
  intro failed
  unfold Calls.mount at failed
  rw [Act.look_bind, if_neg (by simpa using present)] at failed
  obtain ⟨_, w₁, vacated, failed⟩ := Act.bind_eq_some.1 failed
  have present : w₁.client.document.has id = true :=
    keepsElement_unmountElement spare id _ _ _ vacated present
  rw [Act.through_bind] at failed
  obtain ⟨result, w₂, rendered, failed⟩ := Act.bind_eq_some.1 failed
  cases result with
  | ok _ => cases Option.some.inj failed
  | error e =>
    obtain ⟨_, w₃, -, failed⟩ := Act.bind_eq_some.1 failed
    have same : (Except.error e : Except Fault Nat) = .error (.noElement id) :=
      congrArg Prod.fst (Option.some.inj failed)
    rw [Except.error.inj same] at rendered
    exact renderInstance_ne_noElement spare _
      (w := ⟨(w₁.client.addInstance id body).2, w₁.memory⟩) present _ rendered

end

end Live

/-! ### The id among the attributes of an element -/

namespace Attributes

variable {attrs : Attributes} {s : String}

/-- The attributes that are written in front of the id. -/
def beforeId (attrs : Attributes) : List (String × Option String) :=
  (attrs.writtenKeys.takeWhile (· != "id")).filterMap attrs.openedAt

/-- Whether the value in front of the id ends like an assignment to an id. -/
def blursId (attrs : Attributes) : Bool :=
  (Markup.lastValue? attrs.beforeId).any fun v =>
    Markup.opensId (Escape.attributeValue v).toList

/-- An element with an id of its own is known by it. -/
theorem who_of_id (carries : attrs.shownAt "id" = some ("id", some s)) (fresh : String) :
    attrs.who fresh = ⟨s, true⟩ := by
  obtain ⟨v, awaited, shown⟩ := Option.bind_eq_some_iff.1 carries
  have text : v.isOmitted = false ∧ v.text = s := by
    unfold shownAttribute at shown
    rw [if_neg (by decide)] at shown
    split at shown
    · cases shown
    · split at shown
      · cases shown
      · next written =>
        simp only [Option.some.injEq, Prod.mk.injEq, true_and] at shown
        exact ⟨by simpa using written, shown⟩
  have id : (attrs.resolve "id").id? = some s := by
    rw [Attributes.id?, get?_resolve_self, awaited]
    simp [text]
  rw [who, identity, id]

theorem opened_of_id (carries : attrs.shownAt "id" = some ("id", some s)) (fresh : String) :
    ∃ after, attrs.opened fresh = attrs.beforeId ++ ("id", some s) :: after := by
  obtain ⟨v, awaited, -⟩ := Option.bind_eq_some_iff.1 carries
  have written : "id" ∈ attrs.writtenKeys := mem_writtenKeys awaited (by decide)
  have openedId : attrs.openedAt "id" = some ("id", some s) := by
    rw [openedAt, if_neg (by decide), carries]
  obtain ⟨front, back, split, first⟩ := List.eq_append_cons_of_mem written
  have before : attrs.writtenKeys.takeWhile (· != "id") = front := by
    rw [split, List.takeWhile_append_of_pos, List.takeWhile_cons_of_neg (by decide),
      List.append_nil]
    intro key hkey
    rw [bne_iff_ne]
    rintro rfl
    exact first hkey
  refine ⟨back.filterMap attrs.openedAt, ?_⟩
  rw [opened, who_of_id carries, beforeId, before, split, List.filterMap_append,
    List.filterMap_cons_some openedId]
  simp

theorem names_beforeId (names : ∀ key ∈ attrs.keys, Markup.IsAttributeName key) :
    ∀ a ∈ attrs.beforeId, Markup.IsAttributeName a.1 ∧ a.1 ≠ "id" := by
  intro a ha
  obtain ⟨key, hkey, opened⟩ := List.mem_filterMap.1 ha
  have other : key ≠ "id" := by simpa using List.mem_takeWhile_imp hkey
  have listed : key ∈ attrs.keys :=
    List.mem_of_mem_filter ((List.takeWhile_prefix _).subset hkey)
  rw [shownKey_of_openedAt opened, shownKey]
  split
  · exact ⟨⟨by decide, forall_mem_of_all (by decide)⟩, by decide⟩
  · exact ⟨names key listed, other⟩

/-- A reactive component has a statement in the script of its element. -/
theorem mem_behaviours_reactive {v : AttrValue} (reactive : attrs.awaited? "reactive" = some v)
    {f : String} (callback : Behaviour.callbackText? v = some f) (id : String) :
    Behaviour.reactive id f ∈ attrs.behaviours id := by
  refine List.mem_filterMap.2 ⟨"reactive", mem_writtenKeys reactive (by decide), ?_⟩
  rw [behaviourAt, reactive, Option.bind_some, Behaviour.of?, if_neg (by decide), if_pos rfl,
    callback]
  rfl

/-- The attributes of the opening tag up to the end of the id. -/
theorem exists_upToId (carries : attrs.shownAt "id" = some ("id", some s)) (fresh : String) :
    ∃ as bs, (attributesMarkup (attrs.opened fresh)).toList = ' ' :: (as ++ '"' :: bs) ∧
      (attributesMarkup attrs.beforeId ++ " id=\"" ++ Escape.attributeValue s ++ "\"").toList
        = ' ' :: (as ++ ['"']) := by
  obtain ⟨after, split⟩ := opened_of_id carries fresh
  have text : (attributesMarkup (attrs.opened fresh)).toList
      = (attributesMarkup attrs.beforeId).toList
        ++ ' ' :: ("id=\"".toList ++ (Escape.attributeValue s).toList
          ++ '"' :: (attributesMarkup after).toList) := by
    rw [split, attributesMarkup_append, attributesMarkup]
    simp [attributesMarkup, attributeMarkup]
  have upTo : (attributesMarkup attrs.beforeId ++ " id=\"" ++ Escape.attributeValue s
      ++ "\"").toList = (attributesMarkup attrs.beforeId).toList
        ++ ' ' :: ("id=\"".toList ++ (Escape.attributeValue s).toList ++ ['"']) := by
    simp
  rw [text, upTo]
  rcases attributesMarkup_head attrs.beforeId with none | ⟨more, some⟩
  · rw [none]
    exact ⟨_, _, rfl, rfl⟩
  · rw [some]
    refine ⟨more ++ ' ' :: ("id=\"".toList ++ (Escape.attributeValue s).toList),
      (attributesMarkup after).toList, ?_, ?_⟩ <;> simp

end Attributes

/-! ### The markup of an element with an id -/

section

variable {tag : String} {attrs : Attributes} {w : MarkupWriter}

/-- The first fragment of an element is its opening tag. -/
theorem write_element (standard : w.registry = .standard) (distinct : attrs.keys.Nodup)
    (tag : String) (children : List Node) (k : Nat) :
    ∃ close cs rest, close.toList = cs ++ ['>'] ∧ '>' ∉ cs ∧
      (w.write (.element tag attrs children) k).1
        = ("<" ++ tag ++ attributesMarkup (attrs.opened (w.ids k)) ++ close) :: rest := by
  obtain ⟨html, -, -, -⟩ := Registry.markup_standard distinct (w.ids k)
  rw [MarkupWriter.write, MarkupWriter.fragments, standard]
  dsimp only
  rw [html]
  split
  · exact ⟨"/>", ['/'], _, rfl, by decide, rfl⟩
  · exact ⟨">", [], _, rfl, by decide, rfl⟩

/-- Where the id is written in the markup of an element. -/
theorem exists_front (name : IsTagName tag) (standard : w.registry = .standard)
    (distinct : attrs.keys.Nodup) (names : ∀ key ∈ attrs.keys, Markup.IsAttributeName key)
    {s : String} (carries : attrs.shownAt "id" = some ("id", some s)) {children : List Node}
    {k : Nat} (lasting : Marker.Lasting (w.write (.element tag attrs children) k).1) :
    ∃ start back, assemble (w.write (.element tag attrs children) k).1
        = start ++ attributesMarkup attrs.beforeId ++ " id=\"" ++ Escape.attributeValue s ++ "\""
          ++ back ∧
      ((∀ f ∈ (w.write (.element tag attrs children) k).1, Marker.ofFragment f = none) →
        start = "<" ++ tag) := by
  obtain ⟨close, cs, rest, closing, single, fragments⟩ :=
    write_element standard distinct tag children k
  obtain ⟨as, bs, whole, upTo⟩ := Attributes.exists_upToId carries (w.ids k)
  have brackets : '>' ∉ ' ' :: (as ++ '"' :: bs) := by
    rw [← whole]
    exact Attributes.not_mem_opened (by decide)
      (fun key hkey bracket => ((names key hkey).plain _ bracket).2.2 rfl) _
  rw [fragments] at lasting ⊢
  generalize opening : "<" ++ tag ++ attributesMarkup (attrs.opened (w.ids k)) ++ close = f at *
  have spelled : f = String.ofList ('<' :: (tag.toList ++ ' ' :: (as ++ '"' :: (bs ++ cs)) ++ ['>'])) := by
    rw [← opening, ← String.toList_inj]
    simp [whole, closing]
  by_cases unmarked : ∀ g ∈ f :: rest, Marker.ofFragment g = none
  · refine ⟨"<" ++ tag, String.ofList (bs ++ cs ++ '>' :: (String.join rest).toList), ?_,
      fun _ => rfl⟩
    have text : ("<" ++ tag ++ attributesMarkup attrs.beforeId ++ " id=\"" ++ Escape.attributeValue s
        ++ "\"").toList = '<' :: (tag.toList ++ ' ' :: (as ++ ['"'])) := by
      rw [← upTo]
      simp
    generalize "<" ++ tag ++ attributesMarkup attrs.beforeId ++ " id=\"" ++ Escape.attributeValue s
      ++ "\"" = front at text ⊢
    rw [assemble_of_no_marker unmarked, String.join_cons, spelled, ← String.toList_inj]
    simp [text]
  · have inside : ' ' :: (as ++ ['"']) <:+: (assemble (f :: rest)).toList := by
      refine infix_assemble name ?_ ?_ spelled lasting
      · rintro c hc rfl
        exact brackets (by simp [hc])
      · rintro c hc rfl
        rcases List.mem_append.1 hc with inner | close
        · exact brackets (by simp [inner])
        · exact single close
    obtain ⟨front, back, split⟩ := inside
    refine ⟨String.ofList front, String.ofList back, ?_, fun all => absurd all unmarked⟩
    rw [← String.toList_inj, ← split, ← upTo]
    simp

end

/-! ### Mounting under the id that is written -/

namespace Live

theorem has_setHtml_of_assigned {d : Document} (distinct : d.elements.keys.Nodup) {c id : String}
    (present : d.has c = true) {html : String} (found : id ∈ Markup.assignedIds html)
    (other : id ≠ c) :
    (d.setHtml c html).has id = true ∧ id ∈ (d.setHtml c html).descendants c := by
  have new := Document.get?_write_of_assigned distinct (w := (c, html)) present found other
  have nested := Document.parent?_write_of_assigned distinct (w := (c, html)) present found other
  exact ⟨Document.has_iff.2 ⟨_, new⟩, Document.mem_descendants.2 (.single nested)⟩

theorem has_setHtml_of_unassigned {d : Document} (distinct : d.elements.keys.Nodup) {c id : String}
    (present : d.has c = true) {html : String} (unfound : id ∉ Markup.assignedIds html)
    (absent : d.has id = false) : (d.setHtml c html).has id = false := by
  have gone : d.elements.get? id = none := Document.get?_eq_none_iff.2 (by simp [absent])
  have still := Document.get?_write distinct (w := (c, html)) present id
  rw [gone, if_neg (by simp [unfound])] at still
  have none_left : (d.write (c, html)).elements.get? id = none := by simpa using still
  exact Bool.eq_false_of_not_eq_true (Document.get?_eq_none_iff.1 none_left)

/-- A counter with a title in front of its id. -/
def counterSample : Attributes :=
  ⟨[("title", .string "id=\"1\""), ("id", .string "counter"), ("reactive", .string "Counter")]⟩

/-- Components without hooks. -/
abbrev plainBodies : Callbacks where
  Body := Unit
  Effect := Empty
  Cleanup := Empty
  Listener := Empty
  View := Empty

/-- Every component shows the same number. -/
def showsOne : Calls plainBodies Unit :=
  { Calls.none with render := fun _ _ => pure (.ok "1") }

theorem spare_showsOne (id : String) : showsOne.Spare id where
  render _ _ := .pure (keepsElement_composes id) _
  effect _ := .of_failure
  cleanup _ := .of_failure
  listener _ := .of_failure
  view _ _ := .of_failure
  silent _ _ _ _ rendered := nomatch congrArg Prod.fst (Option.some.inj rendered)

theorem names_counterSample : ∀ key ∈ counterSample.keys, Markup.IsAttributeName key := by
  intro key hkey
  simp only [counterSample, OrderedMap.keys, List.map_cons, List.map_nil, List.mem_cons,
    List.not_mem_nil, or_false] at hkey
  rcases hkey with rfl | rfl | rfl <;> exact ⟨by decide, forall_mem_of_all (by decide)⟩

/-- A writer that has no need of generated ids. -/
def plainWriter : MarkupWriter := ⟨.standard, fun _ => "fresh"⟩

/-- A title that ends like an assignment to an id takes the place of the id. -/
example :
    (markupOf plainWriter {} (.element "div"
        ⟨[("title", .string "x id="), ("id", .string "s"), ("reactive", .string "f")]⟩ []) 0).1
      = "<div title=\"x id=\" id=\"s\"></div><script>duplex.reactiveComponent(\"s\", f);</script>" ∧
    ((({} : Document).insert "c" "").setHtml "c"
        "<div title=\"x id=\" id=\"s\"></div><script>duplex.reactiveComponent(\"s\", f);</script>").has
          "s" = false := by
  decide +kernel

end Live

end PageTree
