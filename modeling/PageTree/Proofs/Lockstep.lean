/-
  PageTree/Proofs/Lockstep.lean
  =============================
  **The two passes over attributes stay in step.**

  A page is written as markup or built by a script, and there is a pass over the
  attributes of an element for each.  With the standard handlers both visit the same
  keys, await the same values and find the same things to be done: to give the
  element an attribute, or a behaviour.  Each of these has a form in markup and a
  form in the script, and the two forms say the same.

    * `Behaviour.statement_eq`: a behaviour mentions its target at one place, or
      nowhere;
    * `Contribution`: what a key asks for, and its two forms;
    * `codeStep_standard`, `foldl_markupStep`, `foldl_codeStep`: one key, and keys one
      after another;
    * `Registry.passes_in_step`: the two passes.
-/
import PageTree.Proofs.Handled

namespace PageTree

/-! ### Where a behaviour mentions its target -/

namespace Behaviour

/-- The text of a statement up to the place of the target. -/
def front : Behaviour → String
  | listen _ _ => ""
  | reactive id callback =>
    clientNamespace ++ "." ++ reactiveEntry ++ "(" ++ Escape.stringLiteral id ++ ", " ++ callback
      ++ ");"
  | relocate f props =>
    "(function()\x7b\nconst props = " ++ Escape.scriptData props ++ ";\n"
      ++ (String.join (f.params.tail.map fun p => declaration p ++ "\n")
        ++ "try \x7b\n" ++ "(" ++ (if f.isAsync then "async " else "") ++ "function("
        ++ f.params.headD "" ++ ")\x7b\n" ++ f.body ++ "\n\x7d)(")

/-- What stands at the place of the target: the expression that denotes the element,
    unless the callback has no use for the element. -/
def mention (target : Target) : Behaviour → String
  | listen _ _ => target.expression
  | reactive _ _ => ""
  | relocate f _ => if (f.params.headD "").isEmpty then "" else target.expression

/-- The text of a statement after the place of the target. -/
def rear : Behaviour → String
  | listen event listener =>
    ".addEventListener(" ++ Escape.stringLiteral event ++ ", " ++ listener ++ ");"
  | reactive _ _ => ""
  | relocate f _ =>
    ")" ++ (if f.isAsync then ".catch(console.error);\n" else ";\n")
      ++ "\x7d catch (error) \x7b\nconsole.error(error);\n\x7d\n\x7d)();"

/-- Statements of one behaviour differ only in the target. -/
theorem statement_eq (b : Behaviour) (target : Target) :
    b.statement target = b.front ++ b.mention target ++ b.rear := by
  unfold statement front mention rear
  cases b with
  | listen event listener =>
    simp only [-String.reduceAppend, String.append_assoc, String.empty_append]
  | reactive id callback => simp only [-String.reduceAppend, String.append_empty]
  | relocate f props =>
    unfold relocated relocatedCall
    simp only [-String.reduceAppend, String.append_assoc]

end Behaviour

/-! ### What there is to do -/

/-- What a key asks for. -/
inductive Contribution where
  /-- An attribute; a bare key has no text. -/
  | written (key : String) (value : Option String)
  | behaviour (key : String) (b : Behaviour)
deriving DecidableEq, Repr

namespace Contribution

def key : Contribution → String
  | written key _ | behaviour key _ => key

/-- The form in an opening tag. -/
def markup : Contribution → String
  | written key value => attributeMarkup (shownKey key, value)
  | behaviour _ _ => ""

/-- The form in the script of the element with this id. -/
def source? (id : String) : Contribution → Option String
  | written _ _ => none
  | behaviour _ b => some (b.statement (.byId id))

/-- The form in a script that builds the page.  A component is mounted as soon as the
    script has run, by the id of the element, which must have it by then. -/
def statements (var : String) (who : Identity) : Contribution → List Statement
  | written key value =>
    if key = "className" then [.setClass var (value.getD "")]
    else [.setAttribute var key (value.getD "")]
  | behaviour _ (.reactive id callback) =>
    (if who.explicit then [] else [.setId var who.id]) ++ [.attachLater var (.reactive id callback)]
  | behaviour _ b => [.attach var b]

/-- Whether the children are taken over. -/
def locks : Contribution → Bool
  | written _ _ => false
  | behaviour _ b => b.isRelocation

end Contribution

namespace Attributes

/-- What a key asks for, given the id of the element. -/
def contribution? (attrs : Attributes) (id key : String) : Option Contribution :=
  if IsCodeKey key then (attrs.behaviourAt id key).map (.behaviour key)
  else (attrs.shownAt key).map fun a => .written key a.2

/-- The attributes once a key has been visited. -/
def visited (attrs : Attributes) (key : String) : Attributes :=
  if (attrs.awaited? key).isNone then attrs
  else if key = "client" then (attrs.resolve key).resolveAll
  else attrs.resolve key

/-- What keys ask for when they are visited one after another. -/
def contributions (id : String) : Attributes → List String → List Contribution
  | _, [] => []
  | attrs, key :: keys =>
    (attrs.contribution? id key).toList ++ contributions id (attrs.visited key) keys

theorem behaviourAt_of_not_isCodeKey {attrs : Attributes} {id key : String}
    (plain : ¬ IsCodeKey key) : attrs.behaviourAt id key = none := by
  obtain ⟨client, reactive, event⟩ := isPlainKey_of_not_isCodeKey plain
  rw [behaviourAt]
  cases attrs.awaited? key with
  | none => rfl
  | some v => rw [Option.bind_some, Behaviour.of?, if_neg client, if_neg reactive, if_neg event]

theorem contribution?_key {attrs : Attributes} {id key : String} {c : Contribution}
    (h : attrs.contribution? id key = some c) : c.key = key := by
  rw [contribution?] at h
  split at h
  · obtain ⟨b, -, rfl⟩ := Option.map_eq_some_iff.1 h
    rfl
  · obtain ⟨a, -, rfl⟩ := Option.map_eq_some_iff.1 h
    rfl

theorem Alike.contribution?_eq {a b : Attributes} (h : a.Alike b) (id key : String) :
    a.contribution? id key = b.contribution? id key := by
  rw [contribution?, contribution?, h.behaviourAt_eq, h.agree.shownAt_eq]

/-! ### What a visit leaves -/

theorem keys_visited (attrs : Attributes) (key : String) :
    (attrs.visited key).keys = attrs.keys := by
  unfold visited
  split
  · rfl
  · split
    · rw [keys_resolveAll, keys_resolve]
    · exact keys_resolve attrs key

theorem agree_visited (attrs : Attributes) (key : String) : (attrs.visited key).Agree attrs := by
  unfold visited
  split
  · exact fun _ => rfl
  · split
    · exact (agree_resolveAll _).trans (agree_resolve attrs key)
    · exact agree_resolve attrs key

theorem alike_visited {attrs : Attributes} (distinct : attrs.keys.Nodup) (key : String) :
    (attrs.visited key).Alike attrs := by
  have resolved := alike_resolve distinct key
  unfold visited
  split
  · exact ⟨distinct, rfl⟩
  · split
    · exact (alike_foldl_resolve resolved.distinct _).trans resolved
    · exact resolved

/-- What has been awaited stays as it is. -/
theorem get?_resolve_of_settled {attrs : Attributes} {key : String}
    (settled : attrs.get? key = attrs.awaited? key) (other : String) :
    (attrs.resolve other).get? key = attrs.awaited? key := by
  rw [resolve, OrderedMap.get?_modify]
  split
  · rfl
  · exact settled

theorem get?_resolveAll_of_settled {attrs : Attributes} {key : String}
    (settled : attrs.get? key = attrs.awaited? key) :
    attrs.resolveAll.get? key = attrs.awaited? key := by
  rw [get?_resolveAll]
  by_cases unwritten : key ∈ reserved
  · simpa [unwritten] using settled
  · simp [unwritten, awaited?]

theorem get?_visited_of_settled {attrs : Attributes} {key : String}
    (settled : attrs.get? key = attrs.awaited? key) (other : String) :
    (attrs.visited other).get? key = attrs.awaited? key := by
  have same := agree_resolve attrs other key
  have resolved := get?_resolve_of_settled settled other
  unfold visited
  split
  · exact settled
  · split
    · rw [get?_resolveAll_of_settled (resolved.trans same.symm), same]
    · exact resolved

/-- A visit awaits the value of its key. -/
theorem get?_visited_self (attrs : Attributes) (key : String) :
    (attrs.visited key).get? key = attrs.awaited? key := by
  have same := agree_resolve attrs key key
  have resolved := get?_resolve_self attrs key
  unfold visited
  split
  · next nothing =>
    have missing : attrs.awaited? key = none := Option.isNone_iff_eq_none.1 nothing
    have absent : attrs.get? key = none := Option.map_eq_none_iff.1 missing
    rw [absent, missing]
  · split
    · rw [get?_resolveAll_of_settled (resolved.trans same.symm), same]
    · exact resolved

/-- Visits leave the keys, and the values of what was visited have been awaited. -/
theorem foldl_visited (attrs : Attributes) (keys : List String) :
    (keys.foldl visited attrs).keys = attrs.keys ∧ (keys.foldl visited attrs).Agree attrs ∧
      ∀ key, key ∈ keys ∨ attrs.get? key = attrs.awaited? key →
        (keys.foldl visited attrs).get? key = attrs.awaited? key := by
  induction keys generalizing attrs with
  | nil =>
    refine ⟨rfl, fun _ => rfl, ?_⟩
    rintro key (listed | settled)
    · cases listed
    · exact settled
  | cons first keys ih =>
    obtain ⟨sameKeys, agree, awaited⟩ := ih (attrs.visited first)
    have step := agree_visited attrs first
    refine ⟨sameKeys.trans (keys_visited attrs first), agree.trans step, ?_⟩
    intro key known
    have later : key ∈ keys ∨
        (attrs.visited first).get? key = (attrs.visited first).awaited? key := by
      rw [step key]
      rcases known with listed | settled
      · rcases List.mem_cons.1 listed with rfl | listed
        · exact .inr (get?_visited_self attrs key)
        · exact .inl listed
      · exact .inr (get?_visited_of_settled settled first)
    exact (awaited key later).trans (step key)

theorem contributions_sublist (id : String) (attrs : Attributes) (keys : List String) :
    ((contributions id attrs keys).map (·.key)).Sublist keys := by
  induction keys generalizing attrs with
  | nil => exact .slnil
  | cons key keys ih =>
    rw [contributions]
    cases found : attrs.contribution? id key with
    | none => exact (ih _).cons key
    | some c =>
      rw [Option.toList_some, List.cons_append, List.nil_append, List.map_cons,
        contribution?_key found]
      exact (ih _).cons_cons key

/-- Under distinct keys it does not matter what has been visited before. -/
theorem contributions_eq {attrs : Attributes} (id : String) {keys : List String}
    {now : Attributes} (alike : now.Alike attrs) :
    contributions id now keys = keys.filterMap (attrs.contribution? id) := by
  induction keys generalizing now with
  | nil => rfl
  | cons key keys ih =>
    rw [contributions, ih ((alike_visited alike.distinct key).trans alike),
      alike.contribution?_eq id key]
    cases found : attrs.contribution? id key <;> simp [found]

end Attributes

/-! ### One key -/

namespace Registry

/-- The handler of a key, and whether its value is code. -/
theorem lookup_cases (key : String) :
    (¬ IsCodeKey key ∧ key ≠ "className" ∧ standard.lookup key = none) ∨
      (key = "className" ∧ standard.lookup key = some Handler.className) ∨
      (key = "client" ∧ standard.lookup key = some Handler.client) ∨
      (key = "reactive" ∧ standard.lookup key = some Handler.reactive) ∨
      ("on".toList <+: key.toList ∧ key ≠ "client" ∧ key ≠ "reactive" ∧
        standard.lookup key = some Handler.events) := by
  by_cases code : IsCodeKey key
  · refine .inr (.inr ?_)
    rcases code with rfl | rfl | event
    · exact .inl ⟨rfl, lookup_client⟩
    · exact .inr (.inl ⟨rfl, lookup_reactive⟩)
    · refine .inr (.inr ⟨event, ?_, ?_, lookup_event event⟩)
      · rintro rfl
        exact not_onKey.1 event
      · rintro rfl
        exact not_onKey.2 event
  · have found := lookup_standard (isPlainKey_of_not_isCodeKey code)
    by_cases name : key = "className"
    · rw [if_pos name] at found
      exact .inr (.inl ⟨name, found⟩)
    · rw [if_neg name] at found
      exact .inl ⟨code, name, found⟩

end Registry

/-- A step of the pass for markup awaits what a visit awaits. -/
theorem markupStep_attrs (who : Identity) (st : MarkupProgress) (key : String) :
    (markupStep Registry.standard who st key).attrs = st.attrs.visited key := by
  unfold markupStep Attributes.visited
  rw [Attributes.visit_eq]
  cases st.attrs.awaited? key with
  | none => rfl
  | some value =>
    have not_client {other : String} (named : key = other) (ne : other ≠ "client") :
        key ≠ "client" := named ▸ ne
    rcases Registry.lookup_cases key with ⟨code, _, found⟩ | ⟨name, found⟩ | ⟨name, found⟩ |
      ⟨name, found⟩ | ⟨_, other, _, found⟩ <;> rw [Registry.markupStrategy, found]
    · exact (if_neg fun client => code (.inl client)).symm
    · exact (if_neg (not_client name (by decide))).symm
    · exact (if_pos name).symm
    · exact (if_neg (not_client name (by decide))).symm
    · exact (if_neg other).symm

theorem codeStep_attrs (var : String) (who : Identity) (st : CodeProgress) (key : String) :
    (codeStep Registry.standard var who st key).attrs = st.attrs.visited key := by
  unfold codeStep Attributes.visited
  rw [Attributes.visit_eq]
  cases st.attrs.awaited? key with
  | none => rfl
  | some value =>
    have not_client {other : String} (named : key = other) (ne : other ≠ "client") :
        key ≠ "client" := named ▸ ne
    rcases Registry.lookup_cases key with ⟨code, _, found⟩ | ⟨name, found⟩ | ⟨name, found⟩ |
      ⟨name, found⟩ | ⟨_, other, _, found⟩ <;> rw [Registry.codeStrategy, found]
    · exact (if_neg fun client => code (.inl client)).symm
    · exact (if_neg (not_client name (by decide))).symm
    · exact (if_pos name).symm
    · exact (if_neg (not_client name (by decide))).symm
    · exact (if_neg other).symm

namespace Attributes

variable (attrs : Attributes) (id key : String)

theorem markup_contribution? :
    attributesMarkup (attrs.openedAt key).toList
      = String.join ((attrs.contribution? id key).toList.map (·.markup)) := by
  rw [openedAt, contribution?]
  split
  · cases attrs.behaviourAt id key <;> rfl
  · cases shown : attrs.shownAt key with
    | none => rfl
    | some a =>
      obtain ⟨value, -, shows⟩ := Option.bind_eq_some_iff.1 shown
      have named : (shownKey key, a.2) = a := by rw [← shownAttribute_key shows]
      show attributesMarkup [a] = String.join [attributeMarkup (shownKey key, a.2)]
      rw [named]
      rfl

theorem sources_contribution? :
    (attrs.behaviourAt id key).toList.map (·.statement (.byId id))
      = (attrs.contribution? id key).toList.filterMap (·.source? id) := by
  rw [contribution?]
  split
  · cases attrs.behaviourAt id key <;> rfl
  · next plain =>
    rw [behaviourAt_of_not_isCodeKey plain]
    cases attrs.shownAt key <;> rfl

theorem locks_contribution? :
    (attrs.behaviourAt id key).any (·.isRelocation)
      = (attrs.contribution? id key).toList.any (·.locks) := by
  rw [contribution?]
  split
  · cases attrs.behaviourAt id key with
    | none => rfl
    | some b => exact (Bool.or_false _).symm
  · next plain =>
    rw [behaviourAt_of_not_isCodeKey plain]
    cases attrs.shownAt key <;> rfl

end Attributes

theorem defaultStatement_eq {key : String} (other : key ≠ "className") (var : String)
    (who : Identity) (value : AttrValue) :
    defaultStatement var key value
      = ((shownAttribute key value).map fun a => Contribution.written key a.2).toList.flatMap
          (·.statements var who) := by
  have named (text : Option String) : (Contribution.written key text).statements var who
      = [.setAttribute var key (text.getD "")] := if_neg other
  unfold defaultStatement shownAttribute
  rw [if_neg other]
  split
  · simp [named]
  · by_cases omitted : value.isOmitted <;> simp [omitted, named]

/-- A step of the pass for the script adds what its key asks for. -/
theorem codeStep_standard (var : String) (who : Identity) (st : CodeProgress) (key : String) :
    codeStep Registry.standard var who st key
      = { attrs := st.attrs.visited key
          statements := st.statements
            ++ (st.attrs.contribution? who.id key).toList.flatMap (·.statements var who)
          lock := st.lock || (st.attrs.contribution? who.id key).toList.any (·.locks) } := by
  rw [← codeStep_attrs var who]
  unfold codeStep Attributes.contribution? Attributes.behaviourAt Attributes.shownAt
  rw [Attributes.visit_eq]
  cases st.attrs.awaited? key with
  | none => simp
  | some value =>
    simp only [Option.map_some, Option.bind_some]
    rcases Registry.lookup_cases key with ⟨code, name, found⟩ | ⟨rfl, found⟩ | ⟨rfl, found⟩ |
      ⟨rfl, found⟩ | ⟨event, client, reactive, found⟩ <;> rw [Registry.codeStrategy, found]
    · rw [if_neg code, defaultStatement_eq name var who]
      cases shownAttribute key value <;> simp [Contribution.locks]
    · have plain : ¬ IsCodeKey "className" := by decide
      rw [if_neg plain]
      by_cases omitted : value.isOmitted <;>
        simp [Handler.className, Handler.keeping, shownAttribute, omitted, Contribution.statements,
          Contribution.locks]
    · have code : IsCodeKey "client" := .inl rfl
      rw [if_pos code]
      cases called : Behaviour.callback? value <;>
        simp [Handler.client, Handler.keeping, Handler.relocation?, Handler.prepared, Behaviour.of?,
          Attributes.propsOf, Contribution.statements, Contribution.locks, Behaviour.isRelocation,
          called]
    · have code : IsCodeKey "reactive" := .inr (.inl rfl)
      rw [if_pos code]
      cases called : Behaviour.callbackText? value <;>
        simp [Handler.reactive, Handler.keeping, Behaviour.of?, Contribution.statements,
          Contribution.locks, Behaviour.isRelocation, called]
    · have code : IsCodeKey key := .inr (.inr event)
      rw [if_pos code, Behaviour.of?, if_neg client, if_neg reactive, if_pos event]
      cases called : Behaviour.callbackText? value <;>
        simp [Handler.events, Handler.keeping, Contribution.statements, Contribution.locks,
          Behaviour.isRelocation, called]

/-! ### All keys -/

theorem foldl_markupStep (who : Identity) (keys : List String) (st : MarkupProgress) :
    let after := keys.foldl (markupStep Registry.standard who) st
    let parts := Attributes.contributions who.id st.attrs keys
    after.attrs = keys.foldl Attributes.visited st.attrs ∧
      after.html = st.html ++ String.join (parts.map (·.markup)) ∧
      after.scripts = st.scripts ++ (parts.filterMap (·.source? who.id)).map .inline ∧
      after.lock = (st.lock || parts.any (·.locks)) := by
  induction keys generalizing st with
  | nil => simp [Attributes.contributions]
  | cons key keys ih =>
    have step := markupStep_standard who st key
    rw [markupStep_attrs, Attributes.markup_contribution? st.attrs who.id,
      Attributes.locks_contribution?] at step
    have sources := Attributes.sources_contribution? st.attrs who.id key
    obtain ⟨attrs, html, scripts, lock⟩ := ih (markupStep Registry.standard who st key)
    rw [step] at attrs html scripts lock
    refine ⟨?_, ?_, ?_, ?_⟩
    · rw [List.foldl_cons, step, attrs, List.foldl_cons]
    · rw [List.foldl_cons, step, html, Attributes.contributions, List.map_append,
        String.join_append, String.append_assoc]
    · rw [List.foldl_cons, step, scripts, Attributes.contributions, List.filterMap_append,
        List.map_append, ← sources, List.map_map, List.append_assoc]
      rfl
    · rw [List.foldl_cons, step, lock, Attributes.contributions, List.any_append, Bool.or_assoc]

theorem foldl_codeStep (var : String) (who : Identity) (keys : List String) (st : CodeProgress) :
    let after := keys.foldl (codeStep Registry.standard var who) st
    let parts := Attributes.contributions who.id st.attrs keys
    after.attrs = keys.foldl Attributes.visited st.attrs ∧
      after.statements = st.statements ++ parts.flatMap (·.statements var who) ∧
      after.lock = (st.lock || parts.any (·.locks)) := by
  induction keys generalizing st with
  | nil => simp [Attributes.contributions]
  | cons key keys ih =>
    have step := codeStep_standard var who st key
    obtain ⟨attrs, statements, lock⟩ := ih (codeStep Registry.standard var who st key)
    rw [step] at attrs statements lock
    refine ⟨?_, ?_, ?_⟩
    · rw [List.foldl_cons, step, attrs, List.foldl_cons]
    · rw [List.foldl_cons, step, statements, Attributes.contributions, List.flatMap_append,
        List.append_assoc]
    · rw [List.foldl_cons, step, lock, Attributes.contributions, List.any_append, Bool.or_assoc]

namespace Registry

/-- What the keys of an element ask for, the id being awaited first. -/
def contributions (attrs : Attributes) (fresh : String) : List Contribution :=
  Attributes.contributions (attrs.who fresh).id (attrs.resolve "id") attrs.writtenKeys

/-- The pass for markup, read off the contributions. -/
theorem markup_eq (attrs : Attributes) (fresh : String) :
    let who := attrs.who fresh
    let sources := (contributions attrs fresh).filterMap (·.source? who.id)
    standard.markup fresh attrs =
      { html := (if !sources.isEmpty && !who.explicit then attributeMarkup ("id", some who.id)
          else "") ++ String.join ((contributions attrs fresh).map (·.markup))
        scripts := (mergedSource sources).toList.map scriptElement
        lock := (contributions attrs fresh).any (·.locks)
        attrs := attrs.writtenKeys.foldl Attributes.visited (attrs.resolve "id")
        who := who } := by
  intro who sources
  obtain ⟨left, html, scripts, lock⟩ :=
    foldl_markupStep who attrs.writtenKeys { attrs := attrs.resolve "id" }
  unfold markup
  dsimp only
  rw [Attributes.writtenKeys_resolve]
  have named : (attrs.resolve "id").identity fresh = who := rfl
  rw [named, left, html, scripts, lock, List.nil_append, List.isEmpty_map,
    mergeScripts_inline, String.empty_append, Bool.false_or]
  rfl

/-- The pass for the script, read off the contributions. -/
theorem code_eq (attrs : Attributes) (fresh var : String) :
    standard.code fresh var attrs =
      { statements := (contributions attrs fresh).flatMap (·.statements var (attrs.who fresh))
        lock := (contributions attrs fresh).any (·.locks)
        attrs := attrs.writtenKeys.foldl Attributes.visited (attrs.resolve "id")
        who := attrs.who fresh } := by
  obtain ⟨left, statements, lock⟩ :=
    foldl_codeStep var (attrs.who fresh) attrs.writtenKeys { attrs := attrs.resolve "id" }
  unfold code
  dsimp only
  rw [Attributes.writtenKeys_resolve]
  have named : (attrs.resolve "id").identity fresh = attrs.who fresh := rfl
  rw [named, left, statements, lock, List.nil_append, Bool.false_or]
  rfl

/-- **The two passes** over the same attributes go by the same id, take over the
    children in the same cases, and leave the same attributes: the keys there were,
    with the values that are written awaited.  Both outputs are read off one list of
    contributions, in the order of the keys, so a key that gives nothing to one gives
    nothing to the other; the text of an attribute, the event of a listener and its
    source are the same in both, and the statements of a behaviour differ only where
    they mention the target.  Under distinct keys every key contributes what its
    own value says. -/
theorem passes_in_step (attrs : Attributes) (fresh var : String) :
    let markup := standard.markup fresh attrs
    let code := standard.code fresh var attrs
    (code.who = markup.who ∧ code.lock = markup.lock ∧ code.attrs = markup.attrs) ∧
      (markup.attrs.keys = attrs.keys ∧
        ∀ key ∈ attrs.writtenKeys, markup.attrs.get? key = attrs.awaited? key) ∧
      ∃ parts : List Contribution, (parts.map (·.key)).Sublist attrs.writtenKeys ∧
        markup.html = (if !(parts.filterMap (·.source? markup.who.id)).isEmpty
            && !markup.who.explicit then attributeMarkup ("id", some markup.who.id) else "")
          ++ String.join (parts.map (·.markup)) ∧
        markup.scripts = (mergedSource (parts.filterMap (·.source? markup.who.id))).toList.map
          scriptElement ∧
        code.statements = parts.flatMap (·.statements var markup.who) ∧
        markup.lock = parts.any (·.locks) ∧
        (∀ key b, .behaviour key b ∈ parts → ∀ target,
          b.statement target = b.front ++ b.mention target ++ b.rear) ∧
        (attrs.keys.Nodup →
          parts = attrs.writtenKeys.filterMap (attrs.contribution? markup.who.id)) := by
  intro markup code
  have marked : markup = _ := markup_eq attrs fresh
  have coded : code = _ := code_eq attrs fresh var
  obtain ⟨keys, _, awaited⟩ := Attributes.foldl_visited (attrs.resolve "id") attrs.writtenKeys
  have resolved := Attributes.agree_resolve attrs "id"
  rw [marked, coded]
  refine ⟨⟨rfl, rfl, rfl⟩, ⟨?_, ?_⟩, contributions attrs fresh,
    Attributes.contributions_sublist _ _ _, rfl, rfl, rfl, rfl, ?_, ?_⟩
  · exact keys.trans (Attributes.keys_resolve attrs "id")
  · intro key listed
    exact (awaited key (.inl listed)).trans (resolved key)
  · intro key b _ target
    exact b.statement_eq target
  · intro distinct
    exact Attributes.contributions_eq _ (Attributes.alike_resolve distinct "id")

end Registry

/-- A card with a class that comes later, a listener, and a flag that is off. -/
def cardAttributes : Attributes :=
  .ofList [("className", .pending (.string "card")), ("onClick", .string "open"),
    ("hidden", .bool false)]

/-- Two of the three keys contribute to both passes. -/
theorem passes_in_step_card :
    cardAttributes.keys.Nodup ∧
      (Registry.standard.code "e" "e0" cardAttributes).statements
        = [.setClass "e0" "card", .attach "e0" (.listen "click" "open")] ∧
      (Registry.standard.markup "e" cardAttributes).scripts
        = [scriptElement ((Behaviour.listen "click" "open").statement (.byId "e"))] := by
  have distinct : cardAttributes.keys.Nodup := by decide
  obtain ⟨_, _, parts, _, _, scripts, statements, _, _, read⟩ :=
    Registry.passes_in_step cardAttributes "e" "e0"
  have listed : parts = [.written "className" (some "card"),
      .behaviour "onClick" (.listen "click" "open")] := by
    rw [read distinct]
    decide +kernel
  rw [listed] at scripts statements
  exact ⟨distinct, statements, scripts⟩

end PageTree
