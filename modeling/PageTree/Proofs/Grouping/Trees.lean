/-
  PageTree/Proofs/Grouping/Trees.lean
  ===================================
  **Pending nodes, pending values and arrays leave no trace.**

  Both outputs go through a tree in the order of its text.  What is pending is
  awaited on the way, and the items of an array take its place in the list of
  children.  So a tree may be resolved and its arrays spliced, here and there or
  everywhere, before it is rendered: with the same supply of ids both outputs
  stay the same, ids included.

    * `Regroups`: lists of children that differ in what was resolved and spliced;
    * `regroups_plain`: every tree comes down to one in which nothing is pending
      and no array is left;
    * `rendering_transparent`: both outputs.
-/
import Mathlib
import PageTree.Page
import PageTree.Proofs.Grouping.Values

namespace PageTree

/-! ### Resolving and splicing -/

/-- Lists of children that differ in which nodes and attribute values have been
    awaited and in which arrays have been spliced. -/
inductive Regroups : List Node → List Node → Prop
  | refl (ns : List Node) : Regroups ns ns
  | symm {ns ns' : List Node} : Regroups ns ns' → Regroups ns' ns
  | trans {ns ns' ns'' : List Node} : Regroups ns ns' → Regroups ns' ns'' → Regroups ns ns''
  | append {ns ns' ms ms' : List Node} : Regroups ns ns' → Regroups ms ms' →
    Regroups (ns ++ ms) (ns' ++ ms')
  | awaited (n : Node) : Regroups [.pending n] [n]
  | spliced (items : List Node) : Regroups [.array items] items
  | element {tag : String} {attrs attrs' : Attributes} {children children' : List Node} :
    attrs.Alike attrs' → Regroups children children' →
      Regroups [.element tag attrs children] [.element tag attrs' children']

namespace Node

/-- Trees of tag elements whose attributes have distinct keys. -/
inductive Tagged : Node → Prop
  | primitive {n : Node} : n.isPrimitive = true → Tagged n
  | pending {n : Node} : Tagged n → Tagged (.pending n)
  | array {items : List Node} : (∀ n ∈ items, Tagged n) → Tagged (.array items)
  | element {tag : String} {attrs : Attributes} {children : List Node} :
    attrs.keys.Nodup → (∀ n ∈ children, Tagged n) → Tagged (.element tag attrs children)

/-- Trees of tag elements in which nothing is pending and no array is left. -/
inductive Settled : Node → Prop
  | primitive {n : Node} : n.isPrimitive = true → Settled n
  | element {tag : String} {attrs : Attributes} {children : List Node} :
    (∀ e ∈ attrs.entries, e.2.isPending = false) → (∀ n ∈ children, Settled n) →
      Settled (.element tag attrs children)

mutual

/-- The children a node stands for, with everything awaited and every array
    spliced. -/
def plain : Node → List Node
  | .pending n => plain n
  | .array items => plainList items
  | .element tag attrs children => [.element tag ⟨attrs.settled⟩ (plainList children)]
  | n => [n]

def plainList : List Node → List Node
  | [] => []
  | n :: ns => plain n ++ plainList ns

end

theorem plain_primitive {n : Node} (h : n.isPrimitive = true) : n.plain = [n] := by
  cases n <;> first | rfl | cases h

theorem mem_plainList {m : Node} {ns : List Node} :
    m ∈ plainList ns ↔ ∃ n ∈ ns, m ∈ n.plain := by
  induction ns with
  | nil => simp [plainList]
  | cons n ns ih => simp [plainList, ih]

/-- Nothing is left to await or to splice. -/
theorem settled_of_mem_plain {n : Node} (tagged : Tagged n) : ∀ m ∈ n.plain, Settled m := by
  induction tagged with
  | primitive h =>
    intro m mem
    rw [plain_primitive h, List.mem_singleton] at mem
    exact mem ▸ .primitive h
  | pending _ ih => exact ih
  | array _ ih =>
    intro m mem
    obtain ⟨item, isItem, mem⟩ := mem_plainList.1 mem
    exact ih item isItem m mem
  | @element tag attrs children _ _ ih =>
    intro m mem
    rw [List.mem_singleton.1 mem]
    refine .element (fun e isEntry => ?_) fun m mem => ?_
    · obtain ⟨e, _, rfl⟩ := List.mem_map.1 isEntry
      exact AttrValue.isPending_settle e.2
    · obtain ⟨child, isChild, mem⟩ := mem_plainList.1 mem
      exact ih child isChild m mem

end Node

theorem Attributes.alike_settled {attrs : Attributes} (distinct : attrs.keys.Nodup) :
    attrs.Alike ⟨attrs.settled⟩ where
  distinct := distinct
  settled := by
    unfold Attributes.settled
    simp only [List.map_map, Function.comp_def, settle_settle]

namespace Regroups

theorem plainList {ns : List Node} (h : ∀ n ∈ ns, Regroups [n] n.plain) :
    Regroups ns (Node.plainList ns) := by
  induction ns with
  | nil => exact refl []
  | cons n ns ih =>
    have first := h n List.mem_cons_self
    have rest := ih fun m mem => h m (List.mem_cons_of_mem n mem)
    exact first.append rest

/-- An array that was spliced on construction could as well have been kept. -/
theorem addChild (children : List Node) (child : Node) :
    Regroups (Node.addChild children child) (children ++ [child]) := by
  cases child with
  | array items => exact (refl children).append (spliced items).symm
  | _ => exact refl _

end Regroups

/-- Every tree comes down to children in which nothing is pending and no array is
    left. -/
theorem regroups_plain {n : Node} (tagged : n.Tagged) : Regroups [n] n.plain := by
  induction tagged with
  | primitive h => exact Node.plain_primitive h ▸ .refl _
  | pending _ ih => exact (Regroups.awaited _).trans ih
  | array _ ih => exact (Regroups.spliced _).trans (Regroups.plainList ih)
  | element distinct _ ih =>
    exact .element (Attributes.alike_settled distinct) (Regroups.plainList ih)

/-! ### Markup -/

namespace MarkupWriter

variable {w : MarkupWriter} {scripts : List Node → Nat → List String × Nat}

theorem fragmentsOfList_singleton (n : Node) (k : Nat) :
    fragmentsOfList w scripts [n] k = fragments w scripts n k := by
  simp [fragmentsOfList]

theorem fragmentsOfList_append (ns ms : List Node) (k : Nat) :
    fragmentsOfList w scripts (ns ++ ms) k
      = let (first, k) := fragmentsOfList w scripts ns k
        let (rest, k) := fragmentsOfList w scripts ms k
        (first ++ rest, k) := by
  induction ns generalizing k with
  | nil => simp [fragmentsOfList]
  | cons n ns ih => simp [fragmentsOfList, ih]

theorem fragmentsOfList_regroups (steady : w.registry.Steady) {ns ns' : List Node}
    (h : Regroups ns ns') (k : Nat) :
    fragmentsOfList w scripts ns k = fragmentsOfList w scripts ns' k := by
  induction h generalizing k with
  | refl ns => rfl
  | symm _ ih => exact (ih k).symm
  | trans _ _ ih ih' => exact (ih k).trans (ih' k)
  | append _ _ ih ih' => simp only [fragmentsOfList_append, ih, ih']
  | awaited n => rw [fragmentsOfList_singleton, fragmentsOfList_singleton, fragments]
  | spliced items => rw [fragmentsOfList_singleton, fragments]
  | element alike _ ih =>
    -- the tag, the scripts and the number of ids taken come from the pass over the attributes
    obtain ⟨html, scripts', lock, who⟩ := Registry.markup_alike steady alike (w.ids k)
    simp only [fragmentsOfList_singleton, fragments, html, scripts', lock, who, ih]

end MarkupWriter

/-! ### Code -/

namespace CodeWriter

variable {w : CodeWriter}

theorem walkList_singleton (parent : String) (n : Node) (k : CodeCount) :
    walkList w parent [n] k = walk w parent n k := by
  simp [walkList]

theorem walkList_append (parent : String) (ns ms : List Node) (k : CodeCount) :
    walkList w parent (ns ++ ms) k
      = let (first, k) := walkList w parent ns k
        let (rest, k) := walkList w parent ms k
        (first ++ rest, k) := by
  induction ns generalizing k with
  | nil => simp [walkList]
  | cons n ns ih => simp [walkList, ih]

/-- The variable of an element is numbered before its attributes are visited, so the
    numbers agree too. -/
theorem walkList_regroups (steady : w.registry.Steady) {ns ns' : List Node} (h : Regroups ns ns')
    (parent : String) (k : CodeCount) : walkList w parent ns k = walkList w parent ns' k := by
  induction h generalizing parent k with
  | refl ns => rfl
  | symm _ ih => exact (ih parent k).symm
  | trans _ _ ih ih' => exact (ih parent k).trans (ih' parent k)
  | append _ _ ih ih' => simp only [walkList_append, ih, ih']
  | awaited n => rw [walkList_singleton, walkList_singleton, walk]
  | spliced items => rw [walkList_singleton, walk]
  | element alike _ ih =>
    obtain ⟨statements, lock, who⟩ := Registry.code_alike steady alike (w.ids k.ids)
      (w.variableName k.vars)
    simp only [walkList_singleton, walk, statements, lock, who, ih]

end CodeWriter

/-! ### Both outputs -/

/-- The trees have the same fragments and the same code under all settings, and
    take as many ids.  A supply gives an element its id by its place in the
    text, so with ids drawn in another order the outputs still differ in nothing
    but the names of these ids. -/
def Node.SameOutputs (n n' : Node) : Prop :=
  ∀ (ids : Nat → String) (k : Nat),
    (⟨.standard, ids⟩ : MarkupWriter).write n k = (⟨.standard, ids⟩ : MarkupWriter).write n' k ∧
      ∀ s : CodeSettings, codeOf .standard ids s n k = codeOf .standard ids s n' k

theorem sameOutputs_of_regroups {n n' : Node} (h : Regroups [n] [n']) : n.SameOutputs n' := by
  intro ids k
  constructor
  · let w : MarkupWriter := ⟨.standard, ids⟩
    have same : MarkupWriter.fragmentsOfList w (w.scriptFragments w.depth) [n] k
        = MarkupWriter.fragmentsOfList w (w.scriptFragments w.depth) [n'] k :=
      MarkupWriter.fragmentsOfList_regroups Registry.steady_standard h k
    rw [MarkupWriter.fragmentsOfList_singleton, MarkupWriter.fragmentsOfList_singleton] at same
    exact same
  · intro s
    have same := CodeWriter.walkList_regroups (w := ⟨.standard, ids, s.stem⟩)
      Registry.steady_standard h s.rootName { ids := k }
    rw [CodeWriter.walkList_singleton, CodeWriter.walkList_singleton] at same
    unfold codeOf statementsOf
    rw [same]

/-- However a tree is resolved and spliced, it keeps both outputs; and it can be
    resolved and spliced throughout. -/
theorem rendering_transparent {n : Node} (tagged : n.Tagged) :
    (∀ n', Regroups [n] [n'] → n.SameOutputs n') ∧
      Regroups [n] [.array n.plain] ∧ (∀ m ∈ n.plain, m.Settled) ∧
      n.SameOutputs (.array n.plain) := by
  have throughout : Regroups [n] [.array n.plain] :=
    (regroups_plain tagged).trans (Regroups.spliced n.plain).symm
  refine ⟨fun n' h => sameOutputs_of_regroups h, throughout, ?_, ?_⟩
  · exact Node.settled_of_mem_plain tagged
  · exact sameOutputs_of_regroups throughout

theorem greeting_transparent :
    let greet : AttrValue := .callback ⟨["event"], "greet(event)", false⟩
    let greeting : Node :=
      .element "p" ⟨[("client", .pending greet), ("title", .pending (.string "hi"))]⟩
        [.pending (.array [.text "Hi, ", .array [.pending (.text "you")]])]
    greeting.Tagged ∧ greeting.SameOutputs (.pending greeting) ∧
      greeting.SameOutputs (.array
        [.element "p" ⟨[("client", greet), ("title", .string "hi")]⟩
          [.text "Hi, ", .text "you"]]) := by
  intro greet greeting
  have word (s : String) : (Node.text s).Tagged := .primitive rfl
  have words : (Node.array [.text "Hi, ", .array [.pending (.text "you")]]).Tagged := by
    refine .array ?_
    simp only [List.mem_cons, List.not_mem_nil, or_false, forall_eq_or_imp, forall_eq]
    exact ⟨word _, .array (by simpa using (word _).pending)⟩
  have tagged : greeting.Tagged := .element (by decide) (by simpa using words.pending)
  have transparent := rendering_transparent tagged
  exact ⟨tagged, transparent.1 _ (.symm (.awaited greeting)), transparent.2.2.2⟩

end PageTree
