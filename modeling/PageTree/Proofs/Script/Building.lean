/-
  PageTree/Proofs/Script/Building.lean
  ====================================
  **The generated statements build the content of their tree.**

  A shared tree is one that both outputs can write and a live document accepts:
  lower-case tags with a letter in front, distinct lower-case keys, texts that
  need no escaping.  Walking over a shared node with a parent that stands for the
  address `a` adds the node's content to the children of `a`, creates new elements
  behind all others, and touches nothing else (`Adds`).  The proof goes by induction
  on the tree, with the number of variables carried along: names from that number
  on are free.
-/
import PageTree.Page
import PageTree.Proofs.Attributes
import PageTree.Proofs.Markup.RoundTrip
import PageTree.Proofs.Script.Execution

namespace PageTree

/-! ### Shared trees -/

/-- The characters that markup cannot show as they are. -/
def markupSymbols : List Char := ['&', '<', '>', '"', '\'']

/-- A tag in lower case that begins with a letter and is not one of the document. -/
structure IsSharedTag (tag : String) : Prop where
  head : tag.toList.head?.any Char.isLower = true
  lower : ∀ c ∈ tag.toList, c.isLower = true ∨ c.isDigit = true
  notDocument : tag ∉ documentTags

/-- A key in lower case that the document accepts and that is left to the default
    rule. -/
structure IsSharedKey (rules : NameRules) (key : String) : Prop where
  accepted : rules.isAttribute key = true
  lower : ∀ c ∈ key.toList, c.isUpper = false
  unhandled : ∀ h ∈ Registry.standard, h.key.applies key = false

/-- Attributes under shared keys, of which `className` may stand for `class`. -/
structure Attributes.Shared (rules : NameRules) (attrs : Attributes) : Prop where
  distinct : attrs.keys.Nodup
  oneClass : "className" ∈ attrs.keys → "class" ∉ attrs.keys
  named : ∀ key ∈ attrs.keys, key = "className" ∨ IsSharedKey rules key

/-- The trees that both outputs can write and a document accepts. -/
inductive Node.Shared (rules : NameRules) : Node → Prop where
  | text {s : String} (h : ∀ c ∈ s.toList, c ∉ markupSymbols) : Shared rules (.text s)
  | number (x : Float) : Shared rules (.number x)
  | bool (b : Bool) : Shared rules (.bool b)
  | null : Shared rules .null
  | undefined : Shared rules .undefined
  | element {tag : String} {attrs : Attributes} {children : List Node} (htag : IsSharedTag tag)
      (hattrs : attrs.Shared rules) (hchildren : ∀ n ∈ children, Shared rules n) :
      Shared rules (.element tag attrs children)
  | component {name : String} {attrs : Attributes} {children : List Node} {result : Node}
      (h : Shared rules result) : Shared rules (.component name attrs children result)
  | array {items : List Node} (h : ∀ n ∈ items, Shared rules n) : Shared rules (.array items)
  | pending {result : Node} (h : Shared rules result) : Shared rules (.pending result)

variable {rules : NameRules}

theorem toLower_of_not_isUpper {c : Char} (h : c.isUpper = false) : c.toLower = c := by
  have hrange : ¬ (c.val ≥ 'A'.val ∧ c.val ≤ 'Z'.val) := by
    intro hc
    have hupper : c.isUpper = true := by
      simp only [Char.isUpper, decide_eq_true_eq]
      exact hc
    rw [hupper] at h
    exact Bool.noConfusion h
  rw [Char.toLower, dif_neg hrange]

theorem map_toLower_of_not_isUpper {s : String} (h : ∀ c ∈ s.toList, c.isUpper = false) :
    s.map Char.toLower = s := by
  have hmap : s.toList.map Char.toLower = s.toList := by
    rw [List.map_congr_left fun c hc => toLower_of_not_isUpper (h c hc)]
    exact List.map_id' _
  rw [String.map_eq_internal, hmap, String.ofList_toList]

theorem IsSharedTag.map_toLower {tag : String} (h : IsSharedTag tag) :
    tag.map Char.toLower = tag := by
  refine map_toLower_of_not_isUpper fun c hc => ?_
  have hlower := h.lower c hc
  simp only [Char.isLower, Char.isDigit, Char.isUpper, Bool.and_eq_true, decide_eq_true_eq,
    UInt32.le_iff_toNat_le, ge_iff_le, decide_eq_false_iff_not] at hlower ⊢
  have e1 : 'A'.val.toNat = 65 := rfl
  have e2 : 'Z'.val.toNat = 90 := rfl
  have e3 : 'a'.val.toNat = 97 := rfl
  have e4 : 'z'.val.toNat = 122 := rfl
  have e5 : '0'.val.toNat = 48 := rfl
  have e6 : '9'.val.toNat = 57 := rfl
  omega

theorem IsSharedTag.isPlainName {tag : String} (h : IsSharedTag tag) : IsPlainName tag where
  head := by
    have hlower := h.head
    cases hlist : tag.toList with
    | nil => simp [hlist] at hlower
    | cons c cs =>
      rw [hlist, List.head?_cons, Option.any_some] at hlower
      simp [Char.isAlpha, hlower]
  alphanum := by
    intro c hc
    rcases h.lower c hc with hlower | hdigit
    · simp [Char.isAlphanum, Char.isAlpha, hlower]
    · simp [Char.isAlphanum, hdigit]

theorem IsSharedTag.isPlainTag {tag : String} (h : IsSharedTag tag) : IsPlainTag tag := by
  refine ⟨?_, h.isPlainName.alphanum, ?_⟩
  · rintro rfl
    exact absurd h.head (by decide)
  · rw [h.map_toLower]
    exact h.notDocument

theorem Attributes.Shared.legible {attrs : Attributes} (h : attrs.Shared rules) :
    attrs.Legible := by
  have hclass : IsPlainKey "className" ∧ "className" ≠ "" ∧
      ∀ c ∈ "className".toList, isKeyChar c = true :=
    ⟨⟨by decide, by decide, by decide⟩, by decide, forall_mem_of_all (by decide)⟩
  refine ⟨⟨h.distinct, ?_⟩, ?_, ?_⟩
  · intro key hkey
    rcases h.named key hkey with rfl | hshared
    · exact hclass.1
    · exact isPlainKey_of_unhandled hshared.unhandled
  · intro key hkey
    rcases h.named key hkey with rfl | hshared
    · exact hclass.2.1
    · exact (rules.attributeName hshared.accepted).1
  · intro key hkey
    rcases h.named key hkey with rfl | hshared
    · exact hclass.2.2
    · exact (rules.attributeName hshared.accepted).2

theorem content_of_no_symbol {s : String} (h : ∀ c ∈ s.toList, c ∉ markupSymbols) :
    Escape.content s = s := by
  refine content_of_contentChar fun c hc => ?_
  have hsymbol := h c hc
  simp only [markupSymbols, List.mem_cons, List.not_mem_nil, or_false, not_or] at hsymbol
  simp [Escape.contentChar, hsymbol]

theorem Node.Shared.legible {n : Node} (h : n.Shared rules) : n.Legible := by
  induction h with
  | text h =>
    rw [← content_of_no_symbol h]
    exact .text _
  | number x => exact .number x
  | bool b => exact .bool b
  | null => exact .null
  | undefined => exact .undefined
  | element htag hattrs _ ih => exact .element htag.isPlainTag hattrs.legible ih
  | component _ ih => exact .component ih
  | array _ ih => exact .array ih
  | pending _ ih => exact .pending ih

/-! ### Attributes -/

/-- An attribute as a live element holds it. -/
def filledAttribute (a : String × Option String) : String × String := (a.1, a.2.getD "")

/-- Shared attributes are shown under distinct keys. -/
theorem Attributes.Shared.nodup_shown {attrs : Attributes} (h : attrs.Shared rules) :
    (attrs.shown.map (·.1)).Nodup := by
  have hsublist : ∀ es : List (String × AttrValue),
      ((es.filterMap shownEntry).map (·.1)).Sublist (es.map fun e => shownKey e.1) := by
    intro es
    induction es with
    | nil => exact List.Sublist.refl _
    | cons e es ih =>
      cases ha : shownEntry e with
      | none =>
        rw [List.filterMap_cons_none ha, List.map_cons]
        exact ih.cons _
      | some a =>
        have hkey : a.1 = shownKey e.1 := shownEntry_key ha
        rw [List.filterMap_cons_some ha, List.map_cons, List.map_cons, hkey]
        exact ih.cons_cons _
  have hinjective : ∀ k ∈ attrs.keys, ∀ l ∈ attrs.keys, shownKey k = shownKey l → k = l := by
    intro k hk l hl hkl
    unfold shownKey at hkl
    split at hkl
    · next hclass =>
      split at hkl
      · next hclass' => rw [hclass, hclass']
      · exact absurd (hkl ▸ hl) (h.oneClass (hclass ▸ hk))
    · split at hkl
      · next hclass' => exact absurd (hkl ▸ hk) (h.oneClass (hclass' ▸ hl))
      · exact hkl
  have hnodup : (attrs.entries.map fun e => shownKey e.1).Nodup := by
    have hmap := List.Nodup.map_on hinjective h.distinct
    rwa [OrderedMap.keys, List.map_map] at hmap
  exact hnodup.sublist (hsublist attrs.entries)

/-- New keys are put at the end, one after another. -/
theorem foldl_insert_entries {as : List (String × String)} (h : (as.map (·.1)).Nodup)
    (m : OrderedMap String) (hnew : ∀ a ∈ as, a.1 ∉ m.keys) :
    (as.foldl (fun m a => m.insert a.1 a.2) m).entries = m.entries ++ as := by
  have hput : ∀ (key value : String) (es : List (String × String)), key ∉ es.map (·.1) →
      OrderedMap.put key value es = es ++ [(key, value)] := by
    intro key value es hkey
    induction es with
    | nil => rfl
    | cons e es ih =>
      rw [List.map_cons, List.mem_cons, not_or] at hkey
      have hne : ¬ (e.1 == key) = true := by simpa using Ne.symm hkey.1
      rw [OrderedMap.put, if_neg hne, ih hkey.2]
      rfl
  induction as generalizing m with
  | nil => rw [List.foldl_nil, List.append_nil]
  | cons a as ih =>
    rw [List.map_cons, List.nodup_cons] at h
    have hentries : (m.insert a.1 a.2).entries = m.entries ++ [a] :=
      hput a.1 a.2 m.entries (hnew a List.mem_cons_self)
    have hnew' : ∀ b ∈ as, b.1 ∉ (m.insert a.1 a.2).keys := by
      intro b hb hmem
      rw [OrderedMap.keys, hentries, List.map_append, List.mem_append] at hmem
      rcases hmem with hmem | hmem
      · exact hnew b (List.mem_cons_of_mem a hb) hmem
      · rw [List.map_singleton, List.mem_singleton] at hmem
        exact h.1 (hmem ▸ List.mem_map_of_mem hb)
    rw [List.foldl_cons, ih h.2 _ hnew', hentries, List.append_assoc, List.singleton_append]

/-- By the default rule the statement follows the attribute shown. -/
theorem attributeStatements_eq {key : String} (h : key ≠ "className") (var : String)
    (v : AttrValue) :
    attributeStatements var key v =
      (shownAttribute key v).toList.map fun a => .setAttribute var key (a.2.getD "") := by
  unfold attributeStatements shownAttribute
  rw [if_neg h, if_neg h]
  cases v with
  | bool b => cases b <;> rfl
  | _ => rfl

namespace LivePage

theorem modify_set_nil (p : LivePage) (a : Nat) : p.modify a (·.set []) = p := by
  have hid : (fun e : LiveElement => e.set []) = id := rfl
  rw [modify, hid, List.modify_id]

/-- The statements for an awaited value give the element the attribute shown. -/
theorem run_attributeStatements {p : LivePage} {var : String} {a : Nat}
    (hvar : p.address? var = some a) {key : String}
    (hkey : key = "className" ∨ IsSharedKey rules key) (v : AttrValue) :
    p.run rules (attributeStatements var key v) =
      some (p.modify a (·.set ((shownAttribute key v).toList.map filledAttribute))) := by
  by_cases hclass : key = "className"
  · unfold attributeStatements shownAttribute
    rw [if_pos hclass, if_pos hclass]
    split
    · rw [run_nil, Option.toList_none, List.map_nil, modify_set_nil]
    · rw [run_cons, execute, change, hvar]
      rfl
  · have hshared : IsSharedKey rules key := by
      rcases hkey with rfl | hshared
      · exact absurd rfl hclass
      · exact hshared
    have hlower : key.map Char.toLower = key := map_toLower_of_not_isUpper hshared.lower
    rw [attributeStatements_eq hclass]
    cases hshown : shownAttribute key v with
    | none => rw [Option.toList_none, List.map_nil, List.map_nil, run_nil, modify_set_nil]
    | some b =>
      have hkey' : b.1 = key := (shownAttribute_key hshown).trans (if_neg hclass)
      rw [Option.toList_some, List.map_singleton, List.map_singleton, run_cons, execute,
        if_pos hshared.accepted, change, hvar, hlower, filledAttribute, hkey']
      rfl

theorem run_statementsAt {p : LivePage} {var : String} {a : Nat} (hvar : p.address? var = some a)
    {key : String} (hkey : key = "className" ∨ IsSharedKey rules key) (attrs : Attributes) :
    p.run rules (attrs.statementsAt var key) =
      some (p.modify a (·.set ((attrs.shownAt key).toList.map filledAttribute))) := by
  unfold Attributes.statementsAt Attributes.shownAt
  cases attrs.awaited? key with
  | none =>
    rw [Option.map_none, Option.getD_none, run_nil, Option.bind_none, Option.toList_none,
      List.map_nil, modify_set_nil]
  | some v =>
    rw [Option.map_some, Option.getD_some, Option.bind_some]
    exact run_attributeStatements hvar hkey v

theorem run_flatMap_statementsAt {p : LivePage} {var : String} {a : Nat}
    (hvar : p.address? var = some a) {keys : List String}
    (hkeys : ∀ key ∈ keys, key = "className" ∨ IsSharedKey rules key) (attrs : Attributes) :
    p.run rules (keys.flatMap (attrs.statementsAt var)) =
      some (p.modify a (·.set ((keys.filterMap attrs.shownAt).map filledAttribute))) := by
  induction keys generalizing p with
  | nil => rw [List.flatMap_nil, run_nil, List.filterMap_nil, List.map_nil, modify_set_nil]
  | cons key keys ih =>
    have hfirst := run_statementsAt hvar (hkeys key List.mem_cons_self) attrs
    have hrest := ih (p := p.modify a (·.set ((attrs.shownAt key).toList.map filledAttribute))) hvar
      fun k hk => hkeys k (List.mem_cons_of_mem key hk)
    rw [List.flatMap_cons, run_append_of_run hfirst, hrest, modify_modify]
    simp only [LiveElement.set_set, ← List.map_append]
    rw [List.filterMap_cons]
    cases attrs.shownAt key <;> rfl

/-- The statements for the attributes of an element give it all that is shown. -/
theorem run_attributes {p : LivePage} {var : String} {a : Nat} (hvar : p.address? var = some a)
    {attrs : Attributes} (h : attrs.Shared rules) (fresh : String) :
    p.run rules (Registry.standard.code fresh var attrs).statements =
      some (p.modify a (·.set (attrs.shown.map filledAttribute))) := by
  have hkeys : ∀ key ∈ attrs.writtenKeys, key = "className" ∨ IsSharedKey rules key :=
    fun key hkey => h.named key (List.mem_of_mem_filter hkey)
  rw [(Registry.code_plain h.legible.toPlain fresh var).1, run_flatMap_statementsAt hvar hkeys,
    Attributes.filterMap_shownAt h.distinct]

end LivePage

/-! ### The walk -/

theorem CodeWriter.variableName_injective (w : CodeWriter) {m n : Nat}
    (h : w.variableName m = w.variableName n) : m = n := by
  unfold CodeWriter.variableName at h
  have hlist : (toString m).toList = (toString n).toList := by
    have happend := congrArg String.toList h
    rw [String.toList_append, String.toList_append] at happend
    exact List.append_cancel_left happend
  have hdigits : Nat.toDigits 10 m = Nat.toDigits 10 n := by
    simpa [Nat.toString_eq_repr] using hlist
  rw [← Nat.ofDigitChars_toDigits (n := m) (by decide) (by decide : 10 ≤ 10), hdigits,
    Nat.ofDigitChars_toDigits (by decide) (by decide)]

/-- Pieces that add the same to every draft. -/
def Content.Same (cs ds : List Content) : Prop :=
  ∀ d : Draft, cs.foldl Draft.add d = ds.foldl Draft.add d

namespace Content.Same

theorem append {cs cs' ds ds' : List Content} (hc : Same cs cs') (hd : Same ds ds') :
    Same (cs ++ ds) (cs' ++ ds') := by
  intro d
  rw [List.foldl_append, List.foldl_append, hc d, hd]

theorem tidy_eq {cs ds : List Content} (h : Same cs ds) : tidy cs = tidy ds := by
  rw [tidy, tidy, h]

end Content.Same

namespace LivePage

/-- The page after an element has been created, given attributes and placed. -/
def begin (p : LivePage) (a : Nat) (var tag : String) (as : List (String × String)) : LivePage :=
  ((p.create var tag).modify p.elements.length (·.set as)).place a p.elements.length

section Begin

variable {p : LivePage} {a : Nat} {var tag : String} {as : List (String × String)}

theorem length_begin : (p.begin a var tag as).elements.length = p.elements.length + 1 := by
  rw [begin, place, length_modify, length_modify, length_modify, create, List.length_append]
  rfl

theorem getElem?_begin_of_lt {i : Nat} (hi : i < p.elements.length) (hne : i ≠ a) :
    (p.begin a var tag as).elements[i]? = p.elements[i]? := by
  have hne' : i ≠ p.elements.length := Nat.ne_of_lt hi
  rw [begin, place, getElem?_modify_of_ne hne', getElem?_modify_of_ne hne,
    getElem?_modify_of_ne hne', create, List.getElem?_append_left hi]

theorem getElem?_begin_parent (ha : a < p.elements.length) :
    (p.begin a var tag as).elements[a]? =
      p.elements[a]?.map (·.add [.element p.elements.length]) := by
  have hne : a ≠ p.elements.length := Nat.ne_of_lt ha
  rw [begin, place, getElem?_modify_of_ne hne, getElem?_modify_self, getElem?_modify_of_ne hne,
    create, List.getElem?_append_left ha]

theorem getElem?_begin_new (ha : a < p.elements.length) :
    (p.begin a var tag as).elements[p.elements.length]? =
      some { LiveElement.set { tag := tag.map Char.toLower } as with placed := true } := by
  have hne : p.elements.length ≠ a := Ne.symm (Nat.ne_of_lt ha)
  rw [begin, place, getElem?_modify_self, getElem?_modify_of_ne hne, getElem?_modify_self, create,
    List.getElem?_concat_length]
  rfl

theorem address?_begin_self (hvar : p.address? var = none) :
    (p.begin a var tag as).address? var = some p.elements.length := address?_create_self hvar tag

theorem address?_begin_of_ne {other : String} (h : other ≠ var) :
    (p.begin a var tag as).address? other = p.address? other := address?_create_of_ne h tag

/-- The statements that begin an element. -/
theorem run_begin {parent : String} (ha : a < p.elements.length)
    (hparent : p.address? parent = some a) (hvar : p.address? var = none)
    (htag : rules.isTag tag = true) {attrs : Attributes} (hattrs : attrs.Shared rules)
    (fresh : String) (rest : List Statement) :
    p.run rules (.create var tag :: ((Registry.standard.code fresh var attrs).statements ++
        .append parent var :: rest)) =
      (p.begin a var tag (attrs.shown.map filledAttribute)).run rules rest := by
  have hne : parent ≠ var := by
    rintro rfl
    rw [hparent] at hvar
    exact absurd hvar (by simp)
  have hself : (p.create var tag).address? var = some p.elements.length :=
    address?_create_self hvar tag
  have hother : (p.create var tag).address? parent = some a := by
    rw [address?_create_of_ne hne, hparent]
  have hplace : ((p.create var tag).modify p.elements.length
      (·.set (attrs.shown.map filledAttribute))).mayPlace a p.elements.length = true := by
    have hnew : (p.create var tag).elements[p.elements.length]? =
        some { tag := tag.map Char.toLower } := by
      rw [create, List.getElem?_concat_length]
    rw [mayPlace, getElem?_modify_self, hnew]
    simp [LiveElement.set, Nat.ne_of_lt ha]
  rw [run_cons, execute, if_pos (by simp [htag, hvar]), Option.bind_some,
    run_append_of_run (run_attributes hself hattrs fresh), run_cons, execute, address?_modify,
    address?_modify, hself, hother, Option.bind_some, Option.bind_some, if_pos hplace,
    Option.bind_some]
  rfl

end Begin

/-- No variable from the `k`-th on is declared. -/
def FreeFrom (p : LivePage) (w : CodeWriter) (k : Nat) : Prop :=
  ∀ i, k ≤ i → p.address? (w.variableName i) = none

/-- The page `q` is `p` after this content has been added to the children of the
    element at `a`, with the variables from the `k`-th up to the `k'`-th
    declared on the way. -/
structure Adds (w : CodeWriter) (a k k' : Nat) (p q : LivePage) (cs : List Content) : Prop where
  count : k ≤ k'
  size : p.elements.length ≤ q.elements.length
  names : ∀ var, (∀ i, k ≤ i → i < k' → var ≠ w.variableName i) → q.address? var = p.address? var
  others : ∀ i, i < p.elements.length → i ≠ a → q.elements[i]? = p.elements[i]?
  grown : ∃ kids shown, q.elements[a]? = p.elements[a]?.map (·.add kids) ∧
    q.Shows p.elements.length kids shown ∧ Content.Same shown cs

namespace Adds

variable {w : CodeWriter} {a k k' k'' : Nat} {p q r : LivePage} {cs ds : List Content}

theorem freeFrom (h : Adds w a k k' p q cs) (hfree : p.FreeFrom w k) : q.FreeFrom w k' := by
  intro i hi
  rw [h.names]
  · exact hfree i (Nat.le_trans h.count hi)
  · intro j _ hj heq
    have hij := w.variableName_injective heq
    omega

theorem address? (h : Adds w a k k' p q cs) (hfree : p.FreeFrom w k) {var : String} {b : Nat}
    (hvar : p.address? var = some b) : q.address? var = some b := by
  rw [h.names, hvar]
  intro i hi _ heq
  rw [heq, hfree i hi] at hvar
  exact absurd hvar (by simp)

theorem nil (w : CodeWriter) (a k : Nat) (p : LivePage) : Adds w a k k p p [] := by
  refine ⟨Nat.le_refl k, Nat.le_refl _, fun _ _ => rfl, fun _ _ _ => rfl, [], [], ?_, .nil,
    fun _ => rfl⟩
  cases p.elements[a]? with
  | none => rfl
  | some e => rw [Option.map_some, LiveElement.add_nil]

theorem trans (ha : a < p.elements.length) (hpq : Adds w a k k' p q cs)
    (hqr : Adds w a k' k'' q r ds) : Adds w a k k'' p r (cs ++ ds) := by
  obtain ⟨kids, shown, hkids, hshows, hsame⟩ := hpq.grown
  obtain ⟨kids', shown', hkids', hshows', hsame'⟩ := hqr.grown
  refine ⟨Nat.le_trans hpq.count hqr.count, Nat.le_trans hpq.size hqr.size, ?_, ?_,
    kids ++ kids', shown ++ shown', ?_, ?_, hsame.append hsame'⟩
  · intro var hvar
    rw [hqr.names var fun i hi => hvar i (Nat.le_trans hpq.count hi),
      hpq.names var fun i hi hi' => hvar i hi (Nat.lt_of_lt_of_le hi' hqr.count)]
  · intro i hi hne
    rw [hqr.others i (Nat.lt_of_lt_of_le hi hpq.size) hne, hpq.others i hi hne]
  · rw [hkids', hkids, Option.map_map]
    exact congrArg (fun f => Option.map f p.elements[a]?)
      (funext fun e => LiveElement.add_add e kids kids')
  · -- the first pieces lie between the bound and the end of `q`, and `a` lies below
    have hframe : r.Shows p.elements.length kids shown := by
      refine hshows.frame fun i hi hlt => ?_
      exact hqr.others i hlt (by omega)
    exact hframe.append (hshows'.mono hpq.size)

/-- A text is added as one piece, an empty one as none. -/
theorem text {parent : String} (hparent : p.address? parent = some a) (w : CodeWriter) (k : Nat)
    (s : String) :
    ∃ q, p.run rules (CodeWriter.textStatements parent s) = some q ∧
      Adds w a k k p q [.text s] := by
  unfold CodeWriter.textStatements
  by_cases hs : s.isEmpty = true
  · rw [if_pos hs]
    have hempty : s = "" := by simpa using hs
    subst hempty
    have hnil := nil w a k p
    obtain ⟨kids, shown, hkids, hshows, hsame⟩ := hnil.grown
    refine ⟨p, rfl, hnil.count, hnil.size, hnil.names, hnil.others, kids, shown, hkids, hshows, ?_⟩
    intro d
    rw [hsame d, List.foldl_cons, Draft.add_empty]
  · rw [if_neg hs]
    refine ⟨p.modify a (·.add [.text s]), ?_, Nat.le_refl k, ?_, fun _ _ => rfl, ?_, [.text s],
      [.text s], getElem?_modify_self .., .text .nil, fun _ => rfl⟩
    · rw [run_cons, execute, change, hparent]
      rfl
    · exact Nat.le_of_eq (length_modify ..).symm
    · intro i _ hne
      exact getElem?_modify_of_ne hne _

/-- An element that has been begun goes on with what is inside it. -/
theorem element {var : String} (tag : String) {as : List (String × String)}
    (ha : a < p.elements.length) (hvar : var = w.variableName k) (has : (as.map (·.1)).Nodup)
    (hinner : Adds w p.elements.length (k + 1) k' (p.begin a var tag as) q cs) :
    Adds w a k k' p q
      [.element (tag.map Char.toLower) (as.map fun (key, value) => (key, some value))
        (Content.tidy cs)] := by
  have hlength : (p.begin a var tag as).elements.length = p.elements.length + 1 := length_begin ..
  obtain ⟨kids, shown, hkids, hshows, hsame⟩ := hinner.grown
  rw [getElem?_begin_new ha, Option.map_some] at hkids
  refine ⟨Nat.le_of_succ_le hinner.count, ?_, ?_, ?_, [.element p.elements.length], _, ?_,
    .element (Nat.le_refl _) hkids (hshows.mono (by omega)) .nil, ?_⟩
  · have hsize := hinner.size
    omega
  · intro other hother
    have hne : other ≠ var := by
      rw [hvar]
      exact hother k (Nat.le_refl k) hinner.count
    rw [hinner.names other fun i hi => hother i (Nat.le_of_succ_le hi), address?_begin_of_ne hne]
  · intro i hi hne
    rw [hinner.others i (by omega) (by omega), getElem?_begin_of_lt hi hne]
  · rw [hinner.others a (by omega) (by omega), getElem?_begin_parent ha]
  · have hentries := foldl_insert_entries has ∅ fun _ _ hmem => List.not_mem_nil hmem
    intro d
    simp only [LiveElement.add, LiveElement.set, LiveElement.shown, List.nil_append]
    rw [hentries, hsame.tidy_eq]
    rfl

end Adds

end LivePage

/-! ### The statements of a tree -/

namespace CodeWriter

open LivePage

variable {w : CodeWriter} {parent : String} {a : Nat}

theorem run_walkList {ns : List Node}
    (h : ∀ n ∈ ns, ∀ {p : LivePage} {k : CodeCount}, a < p.elements.length →
      p.address? parent = some a → p.FreeFrom w k.vars →
      ∃ q, p.run rules (w.walk parent n k).1 = some q ∧
        Adds w a k.vars (w.walk parent n k).2.vars p q (Content.filledAll n.content))
    {p : LivePage} {k : CodeCount} (ha : a < p.elements.length)
    (hparent : p.address? parent = some a) (hfree : p.FreeFrom w k.vars) :
    ∃ q, p.run rules (w.walkList parent ns k).1 = some q ∧
      Adds w a k.vars (w.walkList parent ns k).2.vars p q
        (Content.filledAll (Node.contentOfList ns)) := by
  induction ns generalizing p k with
  | nil => exact ⟨p, rfl, Adds.nil ..⟩
  | cons n ns ih =>
    obtain ⟨q, hq, hadds⟩ := h n List.mem_cons_self ha hparent hfree
    obtain ⟨r, hr, hadds'⟩ := ih (fun m hm => h m (List.mem_cons_of_mem n hm))
      (Nat.lt_of_lt_of_le ha hadds.size) (hadds.address? hfree hparent) (hadds.freeFrom hfree)
    rw [walkList, Node.contentOfList, Content.filledAll_append]
    exact ⟨r, (run_append_of_run hq _).trans hr, hadds.trans ha hadds'⟩

/-- **Walking over a shared node adds its content.** -/
theorem run_walk (hw : w.registry = .standard) {n : Node} (h : n.Shared rules) {p : LivePage}
    {k : CodeCount} (ha : a < p.elements.length) (hparent : p.address? parent = some a)
    (hfree : p.FreeFrom w k.vars) :
    ∃ q, p.run rules (w.walk parent n k).1 = some q ∧
      Adds w a k.vars (w.walk parent n k).2.vars p q (Content.filledAll n.content) := by
  induction h generalizing p parent a k with
  | @text s hs =>
    have hcontent : String.ofList (Escape.resolve s.toList) = s := by
      have hresolve := text_resolve_content s
      rwa [content_of_no_symbol hs] at hresolve
    rw [walk, Node.content, hcontent]
    exact Adds.text hparent w k.vars s
  | number x => exact Adds.text hparent w k.vars _
  | bool b =>
    cases b with
    | false => exact Adds.text hparent w k.vars "false"
    | true => exact Adds.text hparent w k.vars "true"
  | null => exact ⟨p, rfl, Adds.nil ..⟩
  | undefined => exact ⟨p, rfl, Adds.nil ..⟩
  | @element tag attrs children htag hattrs _ ih =>
    have hvar : p.address? (w.variableName k.vars) = none := hfree k.vars (Nat.le_refl _)
    have hnodup : ((attrs.shown.map filledAttribute).map (·.1)).Nodup := by
      rw [List.map_map]
      exact hattrs.nodup_shown
    have hlock := (Registry.code_plain hattrs.legible.toPlain (w.ids k.ids)
      (w.variableName k.vars)).2
    -- the page inside the element, where the children are added
    have hlength : (p.begin a (w.variableName k.vars) tag
        (attrs.shown.map filledAttribute)).elements.length = p.elements.length + 1 := length_begin
    have hfree' : (p.begin a (w.variableName k.vars) tag
        (attrs.shown.map filledAttribute)).FreeFrom w (k.vars + 1) := by
      intro i hi
      rw [address?_begin_of_ne]
      · exact hfree i (Nat.le_of_succ_le hi)
      · intro heq
        have hik := w.variableName_injective heq
        omega
    rw [walk, Node.content, hw]
    dsimp only
    rw [hlock, run_begin ha hparent hvar (rules.plainTag htag.isPlainName) hattrs]
    simp only [Content.filledAll, Content.filled]
    by_cases hvoid : Node.isVoidTag tag
    · rw [if_pos hvoid, if_pos (by rw [hvoid]; rfl)]
      refine ⟨_, run_nil _, ?_⟩
      have helement := Adds.element tag ha rfl hnodup
        (Adds.nil w p.elements.length (k.vars + 1) _)
      rwa [htag.map_toLower, List.map_map] at helement
    · rw [if_neg hvoid, if_neg (by simpa using hvoid)]
      obtain ⟨q, hq, hadds⟩ := run_walkList (a := p.elements.length) (k := ⟨k.vars + 1, _⟩)
        (fun n hn => ih n hn) (by omega) (address?_begin_self hvar) hfree'
      refine ⟨q, hq, ?_⟩
      have helement := Adds.element tag ha rfl hnodup hadds
      rw [Content.tidy_filledAll] at helement
      rwa [htag.map_toLower, List.map_map] at helement
  | component _ ih =>
    rw [walk, Node.content]
    exact ih ha hparent hfree
  | array _ ih =>
    rw [walk, Node.content]
    exact run_walkList (fun n hn => ih n hn) ha hparent hfree
  | pending _ ih =>
    rw [walk, Node.content]
    exact ih ha hparent hfree

end CodeWriter

end PageTree
