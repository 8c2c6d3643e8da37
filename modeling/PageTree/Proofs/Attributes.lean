/-
  PageTree/Proofs/Attributes.lean
  ===============================
  **The two passes over plain attributes.**

  A key is plain when no standard handler but that of `className` is
  responsible for it.  On plain keys both passes write exactly the attributes
  that `Attributes.shown` gives, in their order: as assignments in an opening
  tag, or as statements about a variable.  No script comes with them, and the
  children stay free.
-/
import PageTree.Proofs.Content
import PageTree.Handler.Pass

namespace PageTree

/-- Whether a key is left to the default rule, or to the handler of
    `className`. -/
def IsPlainKey (key : String) : Prop :=
  key ≠ "client" ∧ key ≠ "reactive" ∧ ¬ "on".toList <+: key.toList

/-- A key for which no standard handler is responsible is plain. -/
theorem isPlainKey_of_unhandled {key : String}
    (h : ∀ handler ∈ Registry.standard, handler.key.applies key = false) : IsPlainKey key := by
  have hclient := h Handler.client (by simp [Registry.standard])
  have hreactive := h Handler.reactive (by simp [Registry.standard])
  have hevents := h Handler.events (by simp [Registry.standard])
  refine ⟨?_, ?_, ?_⟩
  · rintro rfl
    exact absurd hclient (by decide)
  · rintro rfl
    exact absurd hreactive (by decide)
  · rintro ⟨rest, hrest⟩
    have hdrop : Text.dropWord "on".toList key.toList = some rest :=
      Text.dropWord_eq_some_iff.2 hrest.symm
    simp only [Handler.events, HandlerKey.applies] at hevents
    rw [hdrop] at hevents
    exact Bool.noConfusion hevents

/-- Attributes with distinct keys that are all plain. -/
structure Attributes.Plain (attrs : Attributes) : Prop where
  distinct : attrs.keys.Nodup
  plain : ∀ key ∈ attrs.keys, IsPlainKey key

namespace Registry

theorem lookup_standard {key : String} (h : IsPlainKey key) :
    standard.lookup key = if key = "className" then some Handler.className else none := by
  obtain ⟨hclient, hreactive, hon⟩ := h
  have hword : Text.dropWord "on".toList key.toList = none := by
    rcases hd : Text.dropWord "on".toList key.toList with _ | rest
    · rfl
    · exact absurd ⟨rest, (Text.dropWord_eq_some_iff.1 hd).symm⟩ hon
  have hword' : Text.dropWord ['o', 'n'] key.toList = none := hword
  by_cases hkey : key = "className"
  · subst hkey; rfl
  · have h₁ : ("className" == key) = false := by simpa using Ne.symm hkey
    have h₂ : ("client" == key) = false := by simpa using Ne.symm hclient
    have h₃ : ("reactive" == key) = false := by simpa using Ne.symm hreactive
    simp [lookup, standard, Handler.className, Handler.client, Handler.reactive, Handler.events,
      HandlerKey.isStem, HandlerKey.applies, h₁, h₂, h₃, hword', hkey]

end Registry

namespace Attributes

/-- The value under a key once it has been awaited. -/
def awaited? (attrs : Attributes) (key : String) : Option AttrValue :=
  (attrs.get? key).map (·.settle)

/-- Attributes that differ at most in what has been awaited. -/
def Agree (a b : Attributes) : Prop := ∀ key, a.awaited? key = b.awaited? key

theorem settle_settle (v : AttrValue) : v.settle.settle = v.settle :=
  AttrValue.settle_of_not_pending (AttrValue.isPending_settle v)

theorem agree_resolve (attrs : Attributes) (key : String) : Agree (attrs.resolve key) attrs := by
  intro other
  unfold awaited? resolve
  rw [OrderedMap.get?_modify]
  split
  · rw [Option.map_map]
    exact congrArg (fun f => (attrs.get? other).map f) (funext settle_settle)
  · rfl

theorem Agree.trans {a b c : Attributes} (hab : Agree a b) (hbc : Agree b c) : Agree a c :=
  fun key => (hab key).trans (hbc key)

theorem get?_resolve_self (attrs : Attributes) (key : String) :
    (attrs.resolve key).get? key = attrs.awaited? key := by
  unfold awaited? resolve
  rw [OrderedMap.get?_modify, if_pos (beq_self_eq_true key)]

theorem visit_eq (attrs : Attributes) (key : String) :
    visit attrs key = (attrs.awaited? key).map fun v => (v, attrs.resolve key) := by
  have hget := get?_resolve_self attrs key
  have hsnapshot : ∀ v : AttrValue, v.settle.snapshot = v.settle := by
    intro v
    have hpending := AttrValue.isPending_settle v
    cases hv : v.settle <;> simp_all [AttrValue.snapshot, AttrValue.isPending]
  unfold visit
  simp only [hget]
  unfold awaited?
  rw [Option.map_map, Option.map_map]
  exact congrArg (fun f => (attrs.get? key).map f)
    (funext fun v => by simp [hsnapshot])

/-- The attribute shown for a key. -/
def shownAt (attrs : Attributes) (key : String) : Option (String × Option String) :=
  (attrs.awaited? key).bind (shownAttribute key)

theorem Agree.shownAt_eq {a b : Attributes} (h : Agree a b) (key : String) :
    a.shownAt key = b.shownAt key := by
  unfold shownAt
  rw [h key]

theorem find?_of_mem {α : Type} {es : List (String × α)} (h : (es.map (·.1)).Nodup)
    {e : String × α} (he : e ∈ es) : OrderedMap.find? e.1 es = some e.2 := by
  induction es with
  | nil => exact absurd he List.not_mem_nil
  | cons f fs ih =>
    rw [List.map_cons, List.nodup_cons] at h
    rcases List.mem_cons.1 he with rfl | hmem
    · simp [OrderedMap.find?]
    · have hne : f.1 ≠ e.1 := by
        intro heq
        exact h.1 (heq ▸ List.mem_map_of_mem hmem)
      simpa [OrderedMap.find?, hne] using ih h.2 hmem

/-- Going through the written keys finds the attributes that are shown. -/
theorem filterMap_shownAt {attrs : Attributes} (h : attrs.keys.Nodup) :
    attrs.writtenKeys.filterMap attrs.shownAt = attrs.shown := by
  unfold writtenKeys shown OrderedMap.keys
  rw [List.filterMap_filter, List.filterMap_map]
  refine List.filterMap_congr fun e he => ?_
  have hget : attrs.get? e.1 = some e.2 := find?_of_mem h he
  by_cases hres : reserved.contains e.1
  · simp only [Function.comp_apply, hres, Bool.not_true, Bool.false_eq_true, if_false]
    exact (if_pos hres).symm
  · simp only [Function.comp_apply, hres, Bool.not_false, if_true, shownAt, awaited?, hget,
      Option.map_some, Option.bind_some]
    exact (if_neg hres).symm

theorem writtenKeys_resolve (attrs : Attributes) (key : String) :
    (attrs.resolve key).writtenKeys = attrs.writtenKeys := by
  unfold writtenKeys resolve
  rw [OrderedMap.keys_modify]

theorem Plain.of_written {attrs : Attributes} (h : attrs.Plain) {key : String}
    (hkey : key ∈ attrs.writtenKeys) : IsPlainKey key :=
  h.plain key (List.mem_of_mem_filter hkey)

end Attributes

/-! ### Markup -/

/-- An attribute in an opening tag. -/
def attributeMarkup : String × Option String → String
  | (key, none) => " " ++ key
  | (key, some value) => " " ++ key ++ "=\"" ++ Escape.attributeValue value ++ "\""

def attributesMarkup (attrs : List (String × Option String)) : String :=
  String.join (attrs.map attributeMarkup)

theorem attributesMarkup_append (as bs : List (String × Option String)) :
    attributesMarkup (as ++ bs) = attributesMarkup as ++ attributesMarkup bs := by
  unfold attributesMarkup
  rw [List.map_append, String.join_append]

/-- The characters that are escaped in attribute values, but for the ampersand. -/
def valueEnds : List Char := ['"', '<', '>']

theorem not_mem_attributeChar {d : Char} (h : d ∈ valueEnds) (c : Char) : d ∉ Escape.attributeChar c := by
  intro hx
  simp only [valueEnds, List.mem_cons, List.not_mem_nil, or_false] at h
  unfold Escape.attributeChar at hx
  split at hx
  · rcases h with rfl | rfl | rfl <;> exact absurd hx (by decide)
  split at hx
  · rcases h with rfl | rfl | rfl <;> exact absurd hx (by decide)
  split at hx
  · rcases h with rfl | rfl | rfl <;> exact absurd hx (by decide)
  split at hx
  · rcases h with rfl | rfl | rfl <;> exact absurd hx (by decide)
  · obtain rfl := List.mem_singleton.1 hx
    rcases h with rfl | rfl | rfl <;> simp_all

theorem not_mem_attributeValue {d : Char} (h : d ∈ valueEnds) (v : String) :
    d ∉ (Escape.attributeValue v).toList := by
  rw [Escape.attributeValue, String.toList_ofList]
  intro hx
  obtain ⟨c, -, hx⟩ := List.mem_flatMap.1 hx
  exact not_mem_attributeChar h c hx

/-- What is neither in a key nor in a value is not in attributes. -/
theorem not_mem_attributesMarkup {as : List (String × Option String)} {d : Char} (signs : d ∉ [' ', '=', '"'])
    (keys : ∀ a ∈ as, d ∉ a.1.toList)
    (values : ∀ a ∈ as, ∀ v ∈ a.2, d ∉ (Escape.attributeValue v).toList) :
    d ∉ (attributesMarkup as).toList := by
  induction as with
  | nil => exact List.not_mem_nil
  | cons a as ih =>
    obtain ⟨hkey, hkeys⟩ := List.forall_mem_cons.1 keys
    obtain ⟨hvalue, hvalues⟩ := List.forall_mem_cons.1 values
    obtain ⟨key, value⟩ := a
    have text : (attributesMarkup ((key, value) :: as)).toList
        = (attributeMarkup (key, value)).toList ++ (attributesMarkup as).toList := by
      simp [attributesMarkup]
    simp only [List.mem_cons, List.not_mem_nil, or_false, not_or] at signs
    obtain ⟨blank, equals, quote⟩ := signs
    rw [text]
    refine List.not_mem_append ?_ (ih hkeys hvalues)
    cases value with
    | none => simpa [attributeMarkup, blank] using hkey
    | some v => simpa [attributeMarkup, blank, equals, quote] using ⟨hkey, hvalue v rfl⟩

theorem defaultMarkup_eq {key : String} (h : key ≠ "className") (v : AttrValue) :
    defaultMarkup key v = attributesMarkup (shownAttribute key v).toList := by
  unfold defaultMarkup shownAttribute
  rw [if_neg h]
  split
  · simp [attributesMarkup, attributeMarkup]
  · by_cases ho : v.isOmitted <;> simp [ho, attributesMarkup, attributeMarkup]

/-- A step over a plain key adds the attribute shown for it and nothing else. -/
theorem markupStep_plain {key : String} (h : IsPlainKey key) (who : Identity)
    (st : MarkupProgress) :
    ∃ attrs, attrs.Agree st.attrs ∧
      markupStep Registry.standard who st key =
        { st with
          attrs := attrs
          html := st.html ++ attributesMarkup (st.attrs.shownAt key).toList } := by
  unfold markupStep Attributes.shownAt
  rw [Attributes.visit_eq]
  cases hv : st.attrs.awaited? key with
  | none => exact ⟨st.attrs, fun _ => rfl, by simp [attributesMarkup]⟩
  | some v =>
    refine ⟨st.attrs.resolve key, Attributes.agree_resolve _ _, ?_⟩
    unfold Registry.markupStrategy
    rw [Registry.lookup_standard h]
    by_cases hkey : key = "className"
    · subst hkey
      by_cases ho : v.isOmitted <;>
        simp [Handler.className, Handler.keeping, Handler.prepared, shownAttribute, ho,
          attributesMarkup, attributeMarkup]
    · simp [hkey, defaultMarkup_eq hkey]

theorem foldl_markupStep_plain {keys : List String} (h : ∀ key ∈ keys, IsPlainKey key)
    (who : Identity) (attrs : Attributes) (st : MarkupProgress) (hst : st.attrs.Agree attrs) :
    (keys.foldl (markupStep Registry.standard who) st).html =
        st.html ++ attributesMarkup (keys.filterMap attrs.shownAt) ∧
      (keys.foldl (markupStep Registry.standard who) st).scripts = st.scripts ∧
      (keys.foldl (markupStep Registry.standard who) st).lock = st.lock := by
  induction keys generalizing st with
  | nil => simp [attributesMarkup]
  | cons key keys ih =>
    obtain ⟨attrs', hagree, hstep⟩ := markupStep_plain (h key List.mem_cons_self) who st
    rw [List.foldl_cons, hstep]
    obtain ⟨hhtml, hscripts, hlock⟩ :=
      ih (fun k hk => h k (List.mem_cons_of_mem key hk)) { st with
        attrs := attrs', html := st.html ++ attributesMarkup (st.attrs.shownAt key).toList }
        (hagree.trans hst)
    refine ⟨?_, hscripts, hlock⟩
    rw [hhtml, String.append_assoc, ← attributesMarkup_append, hst.shownAt_eq key]
    cases hs : attrs.shownAt key <;> simp [hs]

/-- **Plain attributes as markup** are the shown attributes one after another. -/
theorem Registry.markup_plain {attrs : Attributes} (h : attrs.Plain) (fresh : String) :
    (Registry.standard.markup fresh attrs).html = attributesMarkup attrs.shown ∧
      (Registry.standard.markup fresh attrs).scripts = [] ∧
      (Registry.standard.markup fresh attrs).lock = false := by
  obtain ⟨hhtml, hscripts, hlock⟩ := foldl_markupStep_plain (fun _ => h.of_written)
    ((attrs.resolve "id").identity fresh) attrs { attrs := attrs.resolve "id" }
    (Attributes.agree_resolve attrs "id")
  unfold Registry.markup
  simp only [Attributes.writtenKeys_resolve]
  rw [hhtml, hscripts, hlock, Attributes.filterMap_shownAt h.distinct]
  simp [mergeScripts]

/-! ### Statements -/

/-- The statement that gives an element an attribute: the class has a property
    of its own when it was written under `className`. -/
def attributeStatements (var key : String) (v : AttrValue) : List Statement :=
  if key = "className" then if v.isOmitted then [] else [.setClass var v.text]
  else defaultStatement var key v

/-- The statements for a key. -/
def Attributes.statementsAt (attrs : Attributes) (var key : String) : List Statement :=
  ((attrs.awaited? key).map (attributeStatements var key)).getD []

theorem codeStep_plain {key : String} (h : IsPlainKey key) (var : String) (who : Identity)
    (st : CodeProgress) :
    ∃ attrs, attrs.Agree st.attrs ∧
      codeStep Registry.standard var who st key =
        { st with
          attrs := attrs
          statements := st.statements ++ st.attrs.statementsAt var key } := by
  unfold codeStep Attributes.statementsAt
  rw [Attributes.visit_eq]
  cases hv : st.attrs.awaited? key with
  | none => exact ⟨st.attrs, fun _ => rfl, by simp⟩
  | some v =>
    refine ⟨st.attrs.resolve key, Attributes.agree_resolve _ _, ?_⟩
    unfold Registry.codeStrategy
    rw [Registry.lookup_standard h]
    by_cases hkey : key = "className"
    · subst hkey
      by_cases ho : v.isOmitted <;>
        simp [Handler.className, Handler.keeping, Handler.prepared, attributeStatements, ho]
    · simp [hkey, attributeStatements]

theorem foldl_codeStep_plain {keys : List String} (h : ∀ key ∈ keys, IsPlainKey key)
    (var : String) (who : Identity) (attrs : Attributes) (st : CodeProgress)
    (hst : st.attrs.Agree attrs) :
    (keys.foldl (codeStep Registry.standard var who) st).statements =
        st.statements ++ keys.flatMap (attrs.statementsAt var) ∧
      (keys.foldl (codeStep Registry.standard var who) st).lock = st.lock := by
  induction keys generalizing st with
  | nil => simp
  | cons key keys ih =>
    obtain ⟨attrs', hagree, hstep⟩ := codeStep_plain (h key List.mem_cons_self) var who st
    rw [List.foldl_cons, hstep]
    obtain ⟨hstatements, hlock⟩ :=
      ih (fun k hk => h k (List.mem_cons_of_mem key hk)) { st with
        attrs := attrs', statements := st.statements ++ st.attrs.statementsAt var key }
        (hagree.trans hst)
    refine ⟨?_, hlock⟩
    rw [hstatements, List.flatMap_cons, List.append_assoc]
    unfold Attributes.statementsAt
    rw [hst key]

/-- **Plain attributes as statements**, in the order of the written keys. -/
theorem Registry.code_plain {attrs : Attributes} (h : attrs.Plain) (fresh var : String) :
    (Registry.standard.code fresh var attrs).statements =
        attrs.writtenKeys.flatMap (attrs.statementsAt var) ∧
      (Registry.standard.code fresh var attrs).lock = false := by
  obtain ⟨hstatements, hlock⟩ := foldl_codeStep_plain (fun _ => h.of_written) var
    ((attrs.resolve "id").identity fresh) attrs { attrs := attrs.resolve "id" }
    (Attributes.agree_resolve attrs "id")
  unfold Registry.code
  simp only [Attributes.writtenKeys_resolve]
  rw [hstatements, hlock]
  simp

end PageTree
