/-
  PageTree/Proofs/Grouping/Values.lean
  ====================================
  **Awaiting attribute values early or late.**

  A pass over attributes awaits the id first, then each key when its turn comes,
  or all of them before a handler that reads its siblings.  So it does not matter
  which values were awaited beforehand: the output depends only on what the
  values come to.  Of a handler this asks that its output does not show which
  values are pending in the attributes it gets to see.

    * `Attributes.toJson_resolveAll`: the structured form shows awaited values;
    * `Registry.steady_standard`: the standard handlers show no more;
    * `Registry.markup_alike`, `Registry.code_alike`: both passes.
-/
import Mathlib
import PageTree.Proofs.Attributes

namespace PageTree

namespace Attributes

/-! ### Attributes that come to the same -/

/-- The entries once every value has been awaited. -/
def settled (attrs : Attributes) : List (String × AttrValue) :=
  attrs.entries.map fun e => (e.1, e.2.settle)

/-- Attributes with distinct keys that differ at most in which values have been
    awaited. -/
structure Alike (a b : Attributes) : Prop where
  distinct : a.keys.Nodup
  settled : a.settled = b.settled

theorem keys_eq (attrs : Attributes) : attrs.keys = attrs.settled.map (·.1) := by
  simp [OrderedMap.keys, settled, Function.comp_def]

theorem Alike.keys_eq {a b : Attributes} (h : a.Alike b) : a.keys = b.keys := by
  rw [Attributes.keys_eq, h.settled, ← Attributes.keys_eq]

theorem Alike.symm {a b : Attributes} (h : a.Alike b) : b.Alike a :=
  ⟨h.keys_eq ▸ h.distinct, h.settled.symm⟩

theorem Alike.trans {a b c : Attributes} (hab : a.Alike b) (hbc : b.Alike c) : a.Alike c :=
  ⟨hab.distinct, hab.settled.trans hbc.settled⟩

theorem Alike.writtenKeys_eq {a b : Attributes} (h : a.Alike b) :
    a.writtenKeys = b.writtenKeys := by
  rw [writtenKeys, writtenKeys, h.keys_eq]

theorem find?_settled (key : String) (es : List (String × AttrValue)) :
    OrderedMap.find? key (es.map fun e => (e.1, e.2.settle))
      = (OrderedMap.find? key es).map (·.settle) := by
  induction es with
  | nil => rfl
  | cons e es ih =>
    rw [List.map_cons, OrderedMap.find?, OrderedMap.find?, ih]
    split <;> rfl

theorem Alike.agree {a b : Attributes} (h : a.Alike b) : a.Agree b := by
  intro key
  have found (attrs : Attributes) :
      attrs.awaited? key = OrderedMap.find? key attrs.settled := (find?_settled key _).symm
  rw [found, found, h.settled]

/-- Under distinct keys a value is awaited wherever its key stands. -/
theorem entries_resolve {attrs : Attributes} (distinct : attrs.keys.Nodup) (key : String) :
    (attrs.resolve key).entries
      = attrs.entries.map fun e => (e.1, if e.1 == key then e.2.settle else e.2) := by
  obtain ⟨es⟩ := attrs
  change OrderedMap.update key AttrValue.settle es = _
  change (es.map (·.1)).Nodup at distinct
  induction es with
  | nil => rfl
  | cons e es ih =>
    obtain ⟨k, v⟩ := e
    rw [List.map_cons, List.nodup_cons] at distinct
    obtain ⟨absent, distinct⟩ := distinct
    by_cases here : k = key
    · subst here
      have others : es.map (fun e => (e.1, if e.1 = k then e.2.settle else e.2)) = es := by
        conv_rhs => rw [← List.map_id es]
        refine List.map_congr_left fun e mem => ?_
        have other : e.1 ≠ k := by
          rintro rfl
          exact absent (List.mem_map.2 ⟨e, mem, rfl⟩)
        rw [if_neg other]
        rfl
      simp [OrderedMap.update, others]
    · simp [OrderedMap.update, here, ih distinct]

theorem keys_resolve (attrs : Attributes) (key : String) :
    (attrs.resolve key).keys = attrs.keys := OrderedMap.keys_modify attrs key _

theorem keys_resolveAll (attrs : Attributes) : attrs.resolveAll.keys = attrs.keys := by
  rw [resolveAll]
  generalize attrs.writtenKeys = keys
  induction keys generalizing attrs with
  | nil => rfl
  | cons key keys ih => rw [List.foldl_cons, ih, keys_resolve]

theorem get?_foldl_resolve (keys : List String) (attrs : Attributes) (key : String) :
    (keys.foldl resolve attrs).get? key
      = (attrs.get? key).map fun v => if key ∈ keys then v.settle else v := by
  induction keys generalizing attrs with
  | nil => simp
  | cons k keys ih =>
    rw [List.foldl_cons, ih, resolve, OrderedMap.get?_modify]
    by_cases here : k = key
    · subst here
      simp [Function.comp_def, settle_settle]
    · simp [here, Ne.symm here]

theorem get?_resolveAll (attrs : Attributes) (key : String) :
    attrs.resolveAll.get? key
      = (attrs.get? key).map fun v => if key ∈ reserved then v else v.settle := by
  rw [resolveAll, get?_foldl_resolve]
  cases found : attrs.get? key with
  | none => rfl
  | some v =>
    have present : key ∈ attrs.keys := List.mem_map_of_mem (OrderedMap.mem_of_get? found)
    by_cases unwritten : key ∈ reserved <;> simp [writtenKeys, present, unwritten]

theorem alike_resolve {attrs : Attributes} (distinct : attrs.keys.Nodup) (key : String) :
    (attrs.resolve key).Alike attrs := by
  constructor
  · rw [keys_resolve]
    exact distinct
  · rw [settled, settled, entries_resolve distinct, List.map_map]
    refine List.map_congr_left fun e _ => ?_
    by_cases here : e.1 = key <;> simp [here, settle_settle]

theorem Alike.resolve {a b : Attributes} (h : a.Alike b) (key : String) :
    (a.resolve key).Alike (b.resolve key) :=
  ((alike_resolve h.distinct key).trans h).trans (alike_resolve h.symm.distinct key).symm

theorem alike_foldl_resolve {attrs : Attributes} (distinct : attrs.keys.Nodup)
    (keys : List String) : (keys.foldl resolve attrs).Alike attrs := by
  induction keys generalizing attrs with
  | nil => exact ⟨distinct, rfl⟩
  | cons key keys ih =>
    have step := alike_resolve distinct key
    exact (ih step.distinct).trans step

theorem Alike.resolveAll {a b : Attributes} (h : a.Alike b) : a.resolveAll.Alike b.resolveAll :=
  ((alike_foldl_resolve h.distinct a.writtenKeys).trans h).trans
    (alike_foldl_resolve h.symm.distinct b.writtenKeys).symm

theorem entries_foldl_resolve {attrs : Attributes} (distinct : attrs.keys.Nodup)
    (keys : List String) :
    (keys.foldl resolve attrs).entries
      = attrs.entries.map fun e => (e.1, if keys.contains e.1 then e.2.settle else e.2) := by
  induction keys generalizing attrs with
  | nil => simp
  | cons key keys ih =>
    have distinct' := (alike_resolve distinct key).distinct
    rw [List.foldl_cons, ih distinct', entries_resolve distinct, List.map_map]
    refine List.map_congr_left fun e _ => ?_
    by_cases here : e.1 = key <;> by_cases later : e.1 ∈ keys <;>
      simp [here, later, settle_settle]

/-- Once every written value is awaited, the structured form shows what the values
    come to. -/
theorem toJson_resolveAll {attrs : Attributes} (distinct : attrs.keys.Nodup) (except : String) :
    attrs.resolveAll.toJson except
      = .ofFields (attrs.settled.filterMap fun e =>
          if e.1 == except || reserved.contains e.1 then none
          else e.2.json?.map fun v => (e.1, v)) := by
  unfold toJson resolveAll settled
  rw [entries_foldl_resolve distinct, List.filterMap_map, List.filterMap_map]
  refine congrArg Json.ofFields (List.filterMap_congr fun e mem => ?_)
  have present : e.1 ∈ attrs.keys := List.mem_map_of_mem mem
  by_cases unwritten : e.1 ∈ reserved
  · simp [unwritten]
  · have isWritten : e.1 ∈ attrs.writtenKeys := by simp [writtenKeys, present, unwritten]
    simp [isWritten]

theorem Alike.identity_eq {a b : Attributes} (h : a.Alike b) (fresh : String) :
    (a.resolve "id").identity fresh = (b.resolve "id").identity fresh := by
  unfold identity id?
  rw [get?_resolve_self, get?_resolve_self, h.agree "id"]

end Attributes

/-! ### Handlers -/

theorem Handler.alike_prepared (h : Handler) {a b : Attributes} (alike : a.Alike b) :
    (h.prepared a).Alike (h.prepared b) := by
  unfold Handler.prepared
  split
  · exact alike.resolveAll
  · exact alike

/-- A handler whose strategies do not show which values are still pending in the
    attributes they get to see. -/
structure Handler.Steady (h : Handler) : Prop where
  markup : ∀ {f}, h.markup = some f → ∀ {a b : Attributes}, a.Alike b →
    ∀ (key : String) (value : AttrValue) (who : Identity),
      let out (attrs : Attributes) := f ⟨key, value, h.prepared attrs, who.id, who.explicit⟩
      (out a).1 = (out b).1 ∧ (out a).2.Alike (out b).2
  code : ∀ {f}, h.code = some f → ∀ {a b : Attributes}, a.Alike b →
    ∀ (var key : String) (value : AttrValue) (who : Identity),
      let out (attrs : Attributes) := f var ⟨key, value, h.prepared attrs, who.id, who.explicit⟩
      (out a).1 = (out b).1 ∧ (out a).2.Alike (out b).2

namespace Handler

/-- Strategies that leave the attributes alone need only have steady outputs. -/
theorem steady_keeping {h : Handler} {f : ElementView → MarkupOutput}
    {g : String → ElementView → CodeOutput} (markup : h.markup = some (keeping f))
    (code : h.code = some fun var => keeping (g var))
    (same : ∀ {a b : Attributes}, a.Alike b → ∀ (var key : String) (value : AttrValue)
      (who : Identity),
        f ⟨key, value, h.prepared a, who.id, who.explicit⟩
            = f ⟨key, value, h.prepared b, who.id, who.explicit⟩ ∧
          g var ⟨key, value, h.prepared a, who.id, who.explicit⟩
            = g var ⟨key, value, h.prepared b, who.id, who.explicit⟩) : h.Steady where
  markup := by
    intro f' found a b alike key value who
    obtain rfl := Option.some.inj (markup.symm.trans found)
    exact ⟨(same alike "" key value who).1, h.alike_prepared alike⟩
  code := by
    intro g' found a b alike var key value who
    obtain rfl := Option.some.inj (code.symm.trans found)
    exact ⟨(same alike var key value who).2, h.alike_prepared alike⟩

theorem steady_client : client.Steady := by
  apply steady_keeping rfl rfl
  intro a b alike var key value who
  have json : (client.prepared a).toJson key = (client.prepared b).toJson key := by
    change a.resolveAll.toJson key = b.resolveAll.toJson key
    rw [Attributes.toJson_resolveAll alike.distinct,
      Attributes.toJson_resolveAll alike.symm.distinct, alike.settled]
  have relocation : relocation? ⟨key, value, client.prepared a, who.id, who.explicit⟩
      = relocation? ⟨key, value, client.prepared b, who.id, who.explicit⟩ := by
    unfold relocation?
    rw [json]
  rw [relocation]
  exact ⟨rfl, rfl⟩

theorem steady_className : className.Steady :=
  steady_keeping rfl rfl fun _ _ _ _ _ => ⟨rfl, rfl⟩

theorem steady_reactive : reactive.Steady :=
  steady_keeping rfl rfl fun _ _ _ _ _ => ⟨rfl, rfl⟩

theorem steady_events : events.Steady :=
  steady_keeping rfl rfl fun _ _ _ _ _ => ⟨rfl, rfl⟩

end Handler

namespace Registry

/-- A registry of steady handlers. -/
def Steady (reg : Registry) : Prop := ∀ h ∈ reg, h.Steady

theorem steady_standard : standard.Steady := by
  intro h mem
  simp only [standard, List.mem_cons, List.not_mem_nil, or_false] at mem
  rcases mem with rfl | rfl | rfl | rfl
  · exact Handler.steady_className
  · exact Handler.steady_client
  · exact Handler.steady_reactive
  · exact Handler.steady_events

theorem mem_of_lookup {reg : Registry} {key : String} {h : Handler}
    (found : reg.lookup key = some h) : h ∈ reg := by
  rcases Option.or_eq_some_iff.1 found with exact' | ⟨_, stem⟩
  · exact List.mem_of_find?_eq_some exact'
  · exact List.mem_of_find?_eq_some stem

end Registry

/-! ### Both passes -/

/-- Progress that differs at most in which values have been awaited. -/
structure MarkupProgress.Alike (st st' : MarkupProgress) : Prop where
  attrs : st.attrs.Alike st'.attrs
  html : st.html = st'.html
  scripts : st.scripts = st'.scripts
  lock : st.lock = st'.lock

structure CodeProgress.Alike (st st' : CodeProgress) : Prop where
  attrs : st.attrs.Alike st'.attrs
  statements : st.statements = st'.statements
  lock : st.lock = st'.lock

theorem markupStep_alike {reg : Registry} (steady : reg.Steady) (who : Identity)
    {st st' : MarkupProgress} (alike : st.Alike st') (key : String) :
    (markupStep reg who st key).Alike (markupStep reg who st' key) := by
  obtain ⟨attrs, html, scripts, lock⟩ := alike
  unfold markupStep
  rw [Attributes.visit_eq, Attributes.visit_eq, attrs.agree key]
  cases st'.attrs.awaited? key with
  | none => exact ⟨attrs, html, scripts, lock⟩
  | some value =>
    have attrs' := attrs.resolve key
    cases found : reg.markupStrategy key with
    | none => exact ⟨attrs', by simp [html], scripts, lock⟩
    | some strategy =>
      obtain ⟨h, lookedUp, has⟩ := Option.bind_eq_some_iff.1 found
      obtain ⟨f, written, rfl⟩ := Option.map_eq_some_iff.1 has
      obtain ⟨same, left⟩ := (steady h (Registry.mem_of_lookup lookedUp)).markup written attrs' key
        value who
      simp only [Option.map_some]
      exact ⟨left, by rw [html, same], by rw [scripts, same], by rw [lock, same]⟩

theorem codeStep_alike {reg : Registry} (steady : reg.Steady) (var : String) (who : Identity)
    {st st' : CodeProgress} (alike : st.Alike st') (key : String) :
    (codeStep reg var who st key).Alike (codeStep reg var who st' key) := by
  obtain ⟨attrs, statements, lock⟩ := alike
  unfold codeStep
  rw [Attributes.visit_eq, Attributes.visit_eq, attrs.agree key]
  cases st'.attrs.awaited? key with
  | none => exact ⟨attrs, statements, lock⟩
  | some value =>
    have attrs' := attrs.resolve key
    cases found : reg.codeStrategy key with
    | none => exact ⟨attrs', by simp [statements], lock⟩
    | some strategy =>
      obtain ⟨h, lookedUp, has⟩ := Option.bind_eq_some_iff.1 found
      obtain ⟨f, written, rfl⟩ := Option.map_eq_some_iff.1 has
      obtain ⟨same, left⟩ := (steady h (Registry.mem_of_lookup lookedUp)).code written attrs' var
        key value who
      simp only [Option.map_some]
      exact ⟨left, by rw [statements, same], by rw [lock, same]⟩

theorem foldl_markupStep_alike {reg : Registry} (steady : reg.Steady) (who : Identity)
    {st st' : MarkupProgress} (alike : st.Alike st') (keys : List String) :
    (keys.foldl (markupStep reg who) st).Alike (keys.foldl (markupStep reg who) st') := by
  induction keys generalizing st st' with
  | nil => exact alike
  | cons key keys ih => exact ih (markupStep_alike steady who alike key)

theorem foldl_codeStep_alike {reg : Registry} (steady : reg.Steady) (var : String)
    (who : Identity) {st st' : CodeProgress} (alike : st.Alike st') (keys : List String) :
    (keys.foldl (codeStep reg var who) st).Alike (keys.foldl (codeStep reg var who) st') := by
  induction keys generalizing st st' with
  | nil => exact alike
  | cons key keys ih => exact ih (codeStep_alike steady var who alike key)

namespace Registry

theorem markup_alike {reg : Registry} (steady : reg.Steady) {a b : Attributes} (alike : a.Alike b)
    (fresh : String) :
    (reg.markup fresh a).html = (reg.markup fresh b).html ∧
      (reg.markup fresh a).scripts = (reg.markup fresh b).scripts ∧
      (reg.markup fresh a).lock = (reg.markup fresh b).lock ∧
      (reg.markup fresh a).who = (reg.markup fresh b).who := by
  have resolved := alike.resolve "id"
  have start : MarkupProgress.Alike { attrs := a.resolve "id" } { attrs := b.resolve "id" } :=
    ⟨resolved, rfl, rfl, rfl⟩
  obtain ⟨_, html, scripts, lock⟩ := foldl_markupStep_alike steady
    ((b.resolve "id").identity fresh) start (b.resolve "id").writtenKeys
  unfold Registry.markup
  simp only [alike.identity_eq, resolved.writtenKeys_eq, html, scripts, lock, and_self]

theorem code_alike {reg : Registry} (steady : reg.Steady) {a b : Attributes} (alike : a.Alike b)
    (fresh var : String) :
    (reg.code fresh var a).statements = (reg.code fresh var b).statements ∧
      (reg.code fresh var a).lock = (reg.code fresh var b).lock ∧
      (reg.code fresh var a).who = (reg.code fresh var b).who := by
  have resolved := alike.resolve "id"
  have start : CodeProgress.Alike { attrs := a.resolve "id" } { attrs := b.resolve "id" } :=
    ⟨resolved, rfl, rfl⟩
  obtain ⟨_, statements, lock⟩ := foldl_codeStep_alike steady var
    ((b.resolve "id").identity fresh) start (b.resolve "id").writtenKeys
  unfold Registry.code
  simp only [alike.identity_eq, resolved.writtenKeys_eq, statements, lock, and_self]

end Registry

end PageTree
