/-
  PageTree/Proofs/Handled.lean
  ============================
  **The standard handlers in a pass over attributes.**

  The values of `client`, of `reactive` and of the keys that begin with `on` are
  code: they give the opening tag nothing, and each of them that is a callback
  gives the script of the element the statement of one behaviour.  The other keys
  are plain.  So a pass with the standard handlers comes to a list of attributes,
  a list of behaviours, and one script with their statements.

    * `markupStep_standard`: one key;
    * `Registry.markup_standard`: all of them.
-/
import PageTree.Proofs.Grouping.Values

namespace PageTree

/-! ### Keys whose values are code -/

/-- Whether a standard handler takes the value of a key for code. -/
def IsCodeKey (key : String) : Prop :=
  key = "client" ∨ key = "reactive" ∨ "on".toList <+: key.toList

instance (key : String) : Decidable (IsCodeKey key) :=
  inferInstanceAs (Decidable (_ ∨ _ ∨ _))

theorem isPlainKey_of_not_isCodeKey {key : String} (h : ¬ IsCodeKey key) : IsPlainKey key := by
  simpa [IsCodeKey, IsPlainKey, not_or] using h

theorem not_onKey : ¬ "on".toList <+: "client".toList ∧ ¬ "on".toList <+: "reactive".toList := by
  decide

namespace Registry

theorem lookup_client : standard.lookup "client" = some Handler.client := rfl

theorem lookup_reactive : standard.lookup "reactive" = some Handler.reactive := rfl

theorem lookup_event {key : String} (h : "on".toList <+: key.toList) :
    standard.lookup key = some Handler.events := by
  obtain ⟨rest, spelled⟩ := h
  have dropped : Text.dropWord ['o', 'n'] key.toList = some rest :=
    Text.dropWord_eq_some_iff.2 spelled.symm
  have other {word : String} (off : ¬ "on".toList <+: word.toList) : (word == key) = false := by
    rw [beq_eq_false_iff_ne]
    rintro rfl
    exact off ⟨rest, spelled⟩
  have className := other (show ¬ "on".toList <+: "className".toList by decide)
  have client := other not_onKey.1
  have reactive := other not_onKey.2
  simp [lookup, standard, Handler.className, Handler.client, Handler.reactive, Handler.events,
    HandlerKey.isStem, HandlerKey.applies, className, client, reactive, dropped]

end Registry

/-! ### What a key adds -/

namespace Behaviour

/-- The behaviour that a value under a key gives the element with this id; `props`
    is the text of the element's other attributes. -/
def of? (props id key : String) (value : AttrValue) : Option Behaviour :=
  if key = "client" then (callback? value).map (.relocate · props)
  else if key = "reactive" then (callbackText? value).map (.reactive id)
  else if "on".toList <+: key.toList then (callbackText? value).map (.listen (eventOf key))
  else none

/-- Whether the behaviour takes over the children of the element. -/
def isRelocation : Behaviour → Bool
  | relocate _ _ => true
  | _ => false

end Behaviour

namespace Attributes

/-- The text of the other attributes, once all of them have been awaited. -/
def propsOf (attrs : Attributes) (key : String) : String :=
  ((attrs.resolve key).resolveAll.toJson key).compact

/-- The behaviour that a key gives the element with this id. -/
def behaviourAt (attrs : Attributes) (id key : String) : Option Behaviour :=
  (attrs.awaited? key).bind (Behaviour.of? (attrs.propsOf key) id key)

/-- The attribute that a key gives the opening tag. -/
def openedAt (attrs : Attributes) (key : String) : Option (String × Option String) :=
  if IsCodeKey key then none else attrs.shownAt key

theorem agree_resolveAll (attrs : Attributes) : attrs.resolveAll.Agree attrs := by
  intro key
  rw [awaited?, awaited?, get?_resolveAll, Option.map_map]
  refine congrArg (fun f => (attrs.get? key).map f) (funext fun v => ?_)
  by_cases unwritten : key ∈ reserved <;> simp [unwritten, settle_settle]

theorem Alike.behaviourAt_eq {a b : Attributes} (h : a.Alike b) (id key : String) :
    a.behaviourAt id key = b.behaviourAt id key := by
  have resolved := h.resolve key
  have props : a.propsOf key = b.propsOf key := by
    rw [propsOf, propsOf, toJson_resolveAll resolved.distinct,
      toJson_resolveAll resolved.symm.distinct, resolved.settled]
  rw [behaviourAt, behaviourAt, props, h.agree key]

theorem Alike.openedAt_eq {a b : Attributes} (h : a.Alike b) (key : String) :
    a.openedAt key = b.openedAt key := by
  rw [openedAt, openedAt, h.agree.shownAt_eq]

end Attributes

/-! ### One key -/

theorem Handler.agree_prepared (h : Handler) (attrs : Attributes) :
    (h.prepared attrs).Agree attrs := by
  unfold Handler.prepared
  split
  · exact attrs.agree_resolveAll
  · exact fun _ => rfl

theorem Handler.alike_prepared_self (h : Handler) {attrs : Attributes}
    (distinct : attrs.keys.Nodup) : (h.prepared attrs).Alike attrs := by
  unfold Handler.prepared
  split
  · exact Attributes.alike_foldl_resolve distinct _
  · exact ⟨distinct, rfl⟩

theorem Registry.keeping_of_strategy {key : String} {h : Handler}
    {f : ElementView → MarkupOutput × Attributes}
    (found : standard.markupStrategy key = some (h, f)) : ∃ g, f = Handler.keeping g := by
  obtain ⟨h', lookedUp, has⟩ := Option.bind_eq_some_iff.1 found
  obtain ⟨f', written, same⟩ := Option.map_eq_some_iff.1 has
  obtain ⟨rfl, rfl⟩ := Prod.mk.inj same
  have mem := Registry.mem_of_lookup lookedUp
  simp only [standard, List.mem_cons, List.not_mem_nil, or_false] at mem
  rcases mem with rfl | rfl | rfl | rfl <;> exact ⟨_, (Option.some.inj written).symm⟩

/-- A step awaits values and leaves them in place. -/
theorem attrs_markupStep (who : Identity) (st : MarkupProgress) (key : String) :
    (markupStep Registry.standard who st key).attrs = st.attrs ∨
      (markupStep Registry.standard who st key).attrs = st.attrs.resolve key ∨
      ∃ h : Handler, (markupStep Registry.standard who st key).attrs
        = h.prepared (st.attrs.resolve key) := by
  unfold markupStep
  rw [Attributes.visit_eq]
  cases st.attrs.awaited? key with
  | none => exact .inl rfl
  | some value =>
    cases found : Registry.standard.markupStrategy key with
    | none =>
      simp only [Option.map_some]
      exact .inr (.inl trivial)
    | some strategy =>
      obtain ⟨g, same⟩ := Registry.keeping_of_strategy found
      simp only [Option.map_some, same]
      exact .inr (.inr ⟨strategy.1, rfl⟩)

theorem agree_markupStep (who : Identity) (st : MarkupProgress) (key : String) :
    (markupStep Registry.standard who st key).attrs.Agree st.attrs := by
  have resolved := Attributes.agree_resolve st.attrs key
  rcases attrs_markupStep who st key with same | same | ⟨h, same⟩ <;> rw [same]
  · exact fun _ => rfl
  · exact resolved
  · exact (h.agree_prepared _).trans resolved

theorem alike_markupStep (who : Identity) {st : MarkupProgress} (distinct : st.attrs.keys.Nodup)
    (key : String) : (markupStep Registry.standard who st key).attrs.Alike st.attrs := by
  have resolved := Attributes.alike_resolve distinct key
  rcases attrs_markupStep who st key with same | same | ⟨h, same⟩ <;> rw [same]
  · exact ⟨distinct, rfl⟩
  · exact resolved
  · exact (h.alike_prepared_self resolved.distinct).trans resolved

/-- A step with the standard handlers adds the attribute and the behaviour of its
    key. -/
theorem markupStep_standard (who : Identity) (st : MarkupProgress) (key : String) :
    markupStep Registry.standard who st key
      = { attrs := (markupStep Registry.standard who st key).attrs
          html := st.html ++ attributesMarkup (st.attrs.openedAt key).toList
          scripts := st.scripts ++ ((st.attrs.behaviourAt who.id key).toList.map fun b =>
            .inline (b.statement (.byId who.id)))
          lock := st.lock || (st.attrs.behaviourAt who.id key).any (·.isRelocation) } := by
  unfold markupStep Attributes.openedAt Attributes.shownAt Attributes.behaviourAt
  rw [Attributes.visit_eq]
  cases st.attrs.awaited? key with
  | none => simp [attributesMarkup]
  | some value =>
    simp only [Option.map_some, Option.bind_some]
    by_cases code : IsCodeKey key
    · have none_opened : attributesMarkup (none : Option (String × Option String)).toList = "" := rfl
      rw [if_pos code, none_opened, String.append_empty]
      rcases code with rfl | rfl | event
      · rw [Registry.markupStrategy, Registry.lookup_client]
        cases called : Behaviour.callback? value <;>
          simp [Handler.client, Handler.keeping, Handler.relocation?, Handler.prepared,
            Handler.inlineBehaviour, Behaviour.of?, Behaviour.isRelocation, Attributes.propsOf,
            called]
      · rw [Registry.markupStrategy, Registry.lookup_reactive]
        cases called : Behaviour.callbackText? value <;>
          simp [Handler.reactive, Handler.keeping, Handler.inlineBehaviour, Behaviour.of?,
            Behaviour.isRelocation, called]
      · have client : key ≠ "client" := by
          rintro rfl
          exact not_onKey.1 event
        have reactive : key ≠ "reactive" := by
          rintro rfl
          exact not_onKey.2 event
        rw [Registry.markupStrategy, Registry.lookup_event event, Behaviour.of?, if_neg client,
          if_neg reactive, if_pos event]
        cases called : Behaviour.callbackText? value <;>
          simp [Handler.events, Handler.keeping, Handler.inlineBehaviour, Behaviour.isRelocation,
            called]
    · have plain := isPlainKey_of_not_isCodeKey code
      have behaviour : Behaviour.of? (st.attrs.propsOf key) who.id key value = none := by
        obtain ⟨client, reactive, event⟩ := plain
        rw [Behaviour.of?, if_neg client, if_neg reactive, if_neg event]
      rw [if_neg code, behaviour, Registry.markupStrategy, Registry.lookup_standard plain]
      by_cases name : key = "className"
      · subst name
        by_cases omitted : value.isOmitted <;>
          simp [Handler.className, Handler.keeping, shownAttribute, omitted, attributesMarkup,
            attributeMarkup]
      · simp [name, defaultMarkup_eq name]

/-! ### All keys -/

/-- The script element that carries a source. -/
def scriptElement (source : String) : Node := .element "script" ∅ [.text source]

/-- The source of the one script that several sources share. -/
def mergedSource (sources : List String) : Option String :=
  if sources.isEmpty then none else some (String.intercalate "\n" sources)

theorem mergeScripts_inline (sources : List String) :
    mergeScripts (sources.map .inline) = (mergedSource sources).toList.map scriptElement := by
  cases sources with
  | nil => rfl
  | cons s rest =>
    have sources : inlineSources (rest.map .inline) = rest := by
      simp [inlineSources, List.filterMap_map]
    have nodes : scriptNodes (rest.map .inline) = [] := by
      simp [scriptNodes, List.filterMap_map]
    simp [mergeScripts, mergedSource, sources, nodes, scriptElement]

namespace Attributes

/-- The identity of an element with these attributes. -/
def who (attrs : Attributes) (fresh : String) : Identity := (attrs.resolve "id").identity fresh

/-- What the attributes do to the element with this id, in their order. -/
def behaviours (attrs : Attributes) (id : String) : List Behaviour :=
  attrs.writtenKeys.filterMap (attrs.behaviourAt id)

/-- The source of the script of the element with this id. -/
def script? (attrs : Attributes) (id : String) : Option String :=
  mergedSource ((attrs.behaviours id).map (·.statement (.byId id)))

/-- The attributes of the opening tag; an element that has a script and no id of its
    own gets a generated one in front. -/
def opened (attrs : Attributes) (fresh : String) : List (String × Option String) :=
  (if !(attrs.behaviours (attrs.who fresh).id).isEmpty && !(attrs.who fresh).explicit then
    [("id", some (attrs.who fresh).id)]
  else []) ++ attrs.writtenKeys.filterMap attrs.openedAt

theorem mem_writtenKeys {attrs : Attributes} {key : String} {v : AttrValue} (h : attrs.awaited? key = some v)
    (written : key ∉ reserved) : key ∈ attrs.writtenKeys := by
  obtain ⟨_, found, -⟩ := Option.map_eq_some_iff.1 h
  refine List.mem_filter.2 ⟨?_, by simpa using written⟩
  exact List.mem_map.2 ⟨_, OrderedMap.mem_of_get? found, rfl⟩

theorem shownKey_of_openedAt {attrs : Attributes} {key : String} {a : String × Option String}
    (h : attrs.openedAt key = some a) : a.1 = shownKey key := by
  rw [openedAt] at h
  split at h
  · cases h
  · obtain ⟨v, -, shown⟩ := Option.bind_eq_some_iff.1 h
    exact shownAttribute_key shown

/-- An angle bracket in no key is not in the opening tag's attributes. -/
theorem not_mem_opened {attrs : Attributes} {d : Char} (angle : d ∈ ['<', '>'])
    (keys : ∀ key ∈ attrs.keys, d ∉ key.toList) (fresh : String) :
    d ∉ (attributesMarkup (attrs.opened fresh)).toList := by
  have other : d ∉ [' ', '=', '"'] ∧ d ∈ valueEnds ∧ d ∉ "id".toList ∧ d ∉ "class".toList := by
    rcases List.mem_pair.1 angle with rfl | rfl <;> decide
  obtain ⟨signs, ends, id, className⟩ := other
  refine not_mem_attributesMarkup signs (fun a ha => ?_) fun _ _ v _ => not_mem_attributeValue ends v
  rcases List.mem_append.1 ha with generated | written
  · split at generated
    · rwa [List.mem_singleton.1 generated]
    · cases generated
  · obtain ⟨key, hkey, opened⟩ := List.mem_filterMap.1 written
    rw [shownKey_of_openedAt opened, shownKey]
    split
    · exact className
    · exact keys key (List.mem_of_mem_filter hkey)

end Attributes

theorem foldl_markupStep_standard {attrs : Attributes} (who : Identity) (keys : List String)
    {st : MarkupProgress} (alike : st.attrs.Alike attrs) :
    let after := keys.foldl (markupStep Registry.standard who) st
    after.html = st.html ++ attributesMarkup (keys.filterMap attrs.openedAt) ∧
      after.scripts = st.scripts ++ ((keys.filterMap (attrs.behaviourAt who.id)).map fun b =>
        .inline (b.statement (.byId who.id))) ∧
      after.lock = (st.lock || (keys.filterMap (attrs.behaviourAt who.id)).any (·.isRelocation)) := by
  induction keys generalizing st with
  | nil => simp [attributesMarkup]
  | cons key keys ih =>
    have step := markupStep_standard who st key
    obtain ⟨html, scripts, lock⟩ := ih ((alike_markupStep who alike.distinct key).trans alike)
    rw [alike.openedAt_eq, alike.behaviourAt_eq] at step
    rw [List.foldl_cons]
    refine ⟨?_, ?_, ?_⟩
    · rw [html, step, String.append_assoc, ← attributesMarkup_append]
      cases opened : attrs.openedAt key <;> simp [opened]
    · rw [scripts, step]
      cases behaviour : attrs.behaviourAt who.id key <;> simp [behaviour]
    · rw [lock, step]
      cases behaviour : attrs.behaviourAt who.id key <;> simp [behaviour, Bool.or_assoc]

/-- **The standard handlers** over the attributes of an element: an opening tag, and
    one script for all behaviours. -/
theorem Registry.markup_standard {attrs : Attributes} (distinct : attrs.keys.Nodup)
    (fresh : String) :
    (standard.markup fresh attrs).html = attributesMarkup (attrs.opened fresh) ∧
      (standard.markup fresh attrs).scripts
        = (attrs.script? (attrs.who fresh).id).toList.map scriptElement ∧
      (standard.markup fresh attrs).lock
        = (attrs.behaviours (attrs.who fresh).id).any (·.isRelocation) ∧
      (standard.markup fresh attrs).who = attrs.who fresh := by
  have alike : (MarkupProgress.mk (attrs.resolve "id") "" [] false).attrs.Alike attrs :=
    Attributes.alike_resolve distinct "id"
  obtain ⟨html, scripts, lock⟩ :=
    foldl_markupStep_standard (attrs.who fresh) attrs.writtenKeys alike
  have merged : (standard.markup fresh attrs).scripts
      = (attrs.script? (attrs.who fresh).id).toList.map scriptElement := by
    rw [Attributes.script?, ← mergeScripts_inline, List.map_map, Registry.markup,
      Attributes.writtenKeys_resolve]
    exact congrArg mergeScripts scripts
  refine ⟨?_, merged, ?_, rfl⟩
  · rw [Attributes.opened, attributesMarkup_append, Registry.markup,
      Attributes.writtenKeys_resolve]
    dsimp only
    rw [Attributes.who] at html scripts ⊢
    rw [html, scripts, List.nil_append, List.isEmpty_map, String.empty_append,
      Attributes.behaviours]
    split
    · simp [attributesMarkup, attributeMarkup]
    · simp [attributesMarkup]
  · rw [Registry.markup, Attributes.writtenKeys_resolve]
    exact lock

/-! ### The script of an element -/

theorem exists_of_mergedSource {sources : List String} {source : String}
    (h : mergedSource sources = some source) :
    ∃ s rest, sources = s :: rest ∧ source = String.intercalate "\n" sources := by
  unfold mergedSource at h
  split at h
  · cases h
  · next nonempty =>
    cases sources with
    | nil => exact absurd rfl nonempty
    | cons s rest => exact ⟨s, rest, rfl, (Option.some.inj h).symm⟩

theorem head?_append {s t : String} {c : Char} (h : s.toList.head? = some c) :
    (s ++ t).toList.head? = some c := by
  rw [String.toList_append, List.head?_append, h]
  rfl

/-- A statement begins with the object that it uses, or with a parenthesis. -/
theorem Behaviour.statement_head (b : Behaviour) (id : String) :
    (b.statement (.byId id)).toList.head? = some 'd' ∨
      (b.statement (.byId id)).toList.head? = some '(' := by
  cases b with
  | listen event listener =>
    left
    have element : (Target.byId id).expression.toList.head? = some 'd' :=
      head?_append (head?_append (by decide))
    exact head?_append (head?_append (head?_append (head?_append (head?_append element))))
  | reactive own callback =>
    left
    have entry : (clientNamespace ++ "." ++ reactiveEntry ++ "(").toList.head? = some 'd' := by
      decide
    exact head?_append (head?_append (head?_append (head?_append entry)))
  | relocate f props =>
    right
    have start : ("(function()\x7b\nconst props = ").toList.head? = some '(' := by decide
    exact head?_append (head?_append (head?_append (head?_append (head?_append (head?_append
      (head?_append start))))))

/-- The script of an element begins with a visible character, and with no angle bracket. -/
theorem Attributes.script?_head {attrs : Attributes} {id source : String}
    (found : attrs.script? id = some source) :
    ∃ c more, source.toList = c :: more ∧ Text.isBlank c = false ∧ c ≠ '<' := by
  obtain ⟨s, rest, sources, rfl⟩ := exists_of_mergedSource found
  have first : ∃ b : Behaviour, s = b.statement (.byId id) := by
    have mem : s ∈ (attrs.behaviours id).map (·.statement (.byId id)) := by simp [sources]
    obtain ⟨b, -, rfl⟩ := List.mem_map.1 mem
    exact ⟨b, rfl⟩
  obtain ⟨b, rfl⟩ := first
  obtain ⟨c, front, blank, other⟩ : ∃ c, (b.statement (.byId id)).toList.head? = some c ∧
      Text.isBlank c = false ∧ c ≠ '<' := by
    rcases b.statement_head id with front | front
    · exact ⟨_, front, by decide, by decide⟩
    · exact ⟨_, front, by decide, by decide⟩
  have whole : (String.intercalate "\n" (b.statement (.byId id) :: rest)).toList.head? = some c := by
    cases rest with
    | nil => simpa using front
    | cons t rest =>
      rw [String.intercalate_cons_cons]
      exact head?_append (head?_append front)
  obtain ⟨more, text⟩ := List.head?_eq_some_iff.1 whole
  exact ⟨c, more, by rw [sources, text], blank, other⟩

end PageTree
