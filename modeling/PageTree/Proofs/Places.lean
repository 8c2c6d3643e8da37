/-
  PageTree/Proofs/Places.lean
  ===========================
  **Places in a page tree.**

  A place is a page tree with one node left open.  Both outputs go through a tree
  in the order of its text, so they come to a place unless an element around it
  has no content, by its tag or because a handler took its children over.  What
  stands at a place they come to is written between texts that do not depend on
  it, as long as it takes no ids and no variables; what stands elsewhere has no
  part in the output.

    * `MarkupWriter.fragments_fill_text`, `CodeWriter.walk_fill_text`: a text at a
      place that the output comes to;
    * `MarkupWriter.fragments_fill_unreached`, `CodeWriter.walk_fill_unreached`:
      any node at another place.
-/
import PageTree.Proofs.Grouping.Trees

namespace PageTree

/-- A page tree with one node left open. -/
inductive Place where
  | here
  | pending (inner : Place)
  | array (before : List Node) (inner : Place) (after : List Node)
  /-- Inside of what a component comes to. -/
  | component (name : String) (attrs : Attributes) (children : List Node) (inner : Place)
  | element (tag : String) (attrs : Attributes) (before : List Node) (inner : Place)
    (after : List Node)

/-- The tree with a node at its place. -/
def Place.fill (n : Node) : Place → Node
  | here => n
  | pending inner => .pending (inner.fill n)
  | array before inner after => .array (before ++ inner.fill n :: after)
  | component name attrs children inner => .component name attrs children (inner.fill n)
  | element tag attrs before inner after => .element tag attrs (before ++ inner.fill n :: after)

/-! ### Markup -/

namespace MarkupWriter

variable (w : MarkupWriter) (scripts : List Node → Nat → List String × Nat)

/-- The writer comes to the place, if so many ids have been taken. -/
def Reaches : Place → Nat → Prop
  | .here, _ => True
  | .pending inner, k => Reaches inner k
  | .array before inner _, k => Reaches inner (fragmentsOfList w scripts before k).2
  | .component _ _ _ inner, k => Reaches inner k
  | .element tag attrs before inner _, k =>
    let m := w.registry.markup (w.ids k) attrs
    Node.isVoidTag tag = false ∧ m.lock = false ∧
      Reaches inner (fragmentsOfList w scripts before (taken m.who k)).2

variable {w scripts}

theorem fragmentsOfList_around (before after : List Node) (n : Node) (k : Nat) :
    fragmentsOfList w scripts (before ++ n :: after) k
      = let (front, k) := fragmentsOfList w scripts before k
        let (here, k) := fragments w scripts n k
        let (back, k) := fragmentsOfList w scripts after k
        (front ++ (here ++ back), k) := by
  rw [fragmentsOfList_append]
  rfl

/-- A text at a place that the writer comes to is written between fragments that do
    not depend on it. -/
theorem fragments_fill_text {place : Place} {k : Nat} (reached : Reaches w scripts place k) :
    ∃ front back k', ∀ s,
      fragments w scripts (place.fill (.text s)) k = (front ++ (textFragments s ++ back), k') := by
  induction place generalizing k with
  | here => exact ⟨[], [], k, fun s => by rw [Place.fill, fragments]; simp⟩
  | pending inner ih =>
    obtain ⟨front, back, k', filled⟩ := ih reached
    exact ⟨front, back, k', fun s => by rw [Place.fill, fragments, filled]⟩
  | array before inner after ih =>
    obtain ⟨front, back, k', filled⟩ := ih reached
    refine ⟨(fragmentsOfList w scripts before k).1 ++ front,
      back ++ (fragmentsOfList w scripts after k').1, (fragmentsOfList w scripts after k').2,
      fun s => ?_⟩
    rw [Place.fill, fragments, fragmentsOfList_around]
    simp only [filled, List.append_assoc]
  | component name attrs children inner ih =>
    obtain ⟨front, back, k', filled⟩ := ih reached
    exact ⟨front, back, k', fun s => by rw [Place.fill, fragments, filled]⟩
  | element tag attrs before inner after ih =>
    obtain ⟨content, unlocked, reached⟩ := reached
    generalize made : w.registry.markup (w.ids k) attrs = m at unlocked reached
    obtain ⟨front, back, k', filled⟩ := ih reached
    refine ⟨("<" ++ tag ++ m.html ++ ">")
        :: ((fragmentsOfList w scripts before (taken m.who k)).1 ++ front),
      back ++ ((fragmentsOfList w scripts after k').1 ++ ("</" ++ tag ++ ">")
        :: (scripts m.scripts (fragmentsOfList w scripts after k').2).1),
      (scripts m.scripts (fragmentsOfList w scripts after k').2).2, fun s => ?_⟩
    rw [Place.fill, fragments, made]
    simp only [content, unlocked, fragmentsOfList_around, filled, Bool.false_eq_true, if_false,
      List.append_assoc, List.cons_append]

/-- What stands at a place that the writer does not come to is not written. -/
theorem fragments_fill_unreached {place : Place} {k : Nat} (unreached : ¬ Reaches w scripts place k)
    (n n' : Node) :
    fragments w scripts (place.fill n) k = fragments w scripts (place.fill n') k := by
  induction place generalizing k with
  | here => exact absurd trivial unreached
  | pending inner ih =>
    rw [Place.fill, Place.fill, fragments, fragments]
    exact ih unreached
  | array before inner after ih =>
    rw [Place.fill, Place.fill, fragments, fragments, fragmentsOfList_around,
      fragmentsOfList_around]
    simp only [ih unreached]
  | component name attrs children inner ih =>
    rw [Place.fill, Place.fill, fragments, fragments]
    exact ih unreached
  | element tag attrs before inner after ih =>
    rw [Place.fill, Place.fill, fragments, fragments]
    cases content : Node.isVoidTag tag with
    | true => simp only [if_true]
    | false =>
      cases unlocked : (w.registry.markup (w.ids k) attrs).lock with
      | true => simp only [Bool.false_eq_true, if_false, if_true]
      | false =>
        have inside := ih fun reached => unreached ⟨content, unlocked, reached⟩
        simp only [Bool.false_eq_true, if_false, fragmentsOfList_around, inside]

end MarkupWriter

/-! ### Code -/

namespace CodeWriter

variable (w : CodeWriter)

/-- The number of variables and ids taken once the attributes of an element have been
    written. -/
def entered (who : Identity) (k : CodeCount) : CodeCount :=
  { vars := k.vars + 1, ids := if who.explicit then k.ids else k.ids + 1 }

/-- The walk comes to the place, if so many variables and ids have been taken. -/
def Reaches : Place → String → CodeCount → Prop
  | .here, _, _ => True
  | .pending inner, parent, k => Reaches inner parent k
  | .array before inner _, parent, k => Reaches inner parent (walkList w parent before k).2
  | .component _ _ _ inner, parent, k => Reaches inner parent k
  | .element tag attrs before inner _, _, k =>
    let var := w.variableName k.vars
    let c := w.registry.code (w.ids k.ids) var attrs
    c.lock = false ∧ Node.isVoidTag tag = false ∧
      Reaches inner var (walkList w var before (entered c.who k)).2

variable {w}

theorem walkList_around (parent : String) (before after : List Node) (n : Node) (k : CodeCount) :
    walkList w parent (before ++ n :: after) k
      = let (front, k) := walkList w parent before k
        let (here, k) := walk w parent n k
        let (back, k) := walkList w parent after k
        (front ++ (here ++ back), k) := by
  rw [walkList_append]
  rfl

/-- A text at a place that the walk comes to is added to an element between
    statements that do not depend on it. -/
theorem walk_fill_text {place : Place} {parent : String} {k : CodeCount}
    (reached : w.Reaches place parent k) :
    ∃ front around back k', ∀ s,
      walk w parent (place.fill (.text s)) k
        = (front ++ (textStatements around s ++ back), k') := by
  induction place generalizing parent k with
  | here => exact ⟨[], parent, [], k, fun s => by rw [Place.fill, walk]; simp⟩
  | pending inner ih =>
    obtain ⟨front, around, back, k', filled⟩ := ih reached
    exact ⟨front, around, back, k', fun s => by rw [Place.fill, walk, filled]⟩
  | array before inner after ih =>
    obtain ⟨front, around, back, k', filled⟩ := ih reached
    refine ⟨(walkList w parent before k).1 ++ front, around,
      back ++ (walkList w parent after k').1, (walkList w parent after k').2, fun s => ?_⟩
    rw [Place.fill, walk, walkList_around]
    simp only [filled, List.append_assoc]
  | component name attrs children inner ih =>
    obtain ⟨front, around, back, k', filled⟩ := ih reached
    exact ⟨front, around, back, k', fun s => by rw [Place.fill, walk, filled]⟩
  | element tag attrs before inner after ih =>
    obtain ⟨unlocked, content, reached⟩ := reached
    generalize named : w.variableName k.vars = var at unlocked reached
    generalize made : w.registry.code (w.ids k.ids) var attrs = c at unlocked reached
    obtain ⟨front, around, back, k', filled⟩ := ih reached
    refine ⟨.create var tag :: (c.statements ++ .append parent var
        :: ((walkList w var before (entered c.who k)).1 ++ front)), around,
      back ++ (walkList w var after k').1, (walkList w var after k').2, fun s => ?_⟩
    rw [entered] at filled
    rw [Place.fill, walk, named, made, entered]
    simp only [content, unlocked, walkList_around, filled, Bool.or_false, Bool.false_eq_true,
      if_false, List.append_assoc, List.cons_append]

/-- What stands at a place that the walk does not come to has no part in the code. -/
theorem walk_fill_unreached {place : Place} {parent : String} {k : CodeCount}
    (unreached : ¬ w.Reaches place parent k) (n n' : Node) :
    walk w parent (place.fill n) k = walk w parent (place.fill n') k := by
  induction place generalizing parent k with
  | here => exact absurd trivial unreached
  | pending inner ih =>
    rw [Place.fill, Place.fill, walk, walk]
    exact ih unreached
  | array before inner after ih =>
    rw [Place.fill, Place.fill, walk, walk, walkList_around, walkList_around]
    simp only [ih unreached]
  | component name attrs children inner ih =>
    rw [Place.fill, Place.fill, walk, walk]
    exact ih unreached
  | element tag attrs before inner after ih =>
    rw [Place.fill, Place.fill, walk, walk]
    cases unlocked : (w.registry.code (w.ids k.ids) (w.variableName k.vars) attrs).lock with
    | true => simp only [Bool.true_or, if_true]
    | false =>
      cases content : Node.isVoidTag tag with
      | true => simp only [Bool.or_true, if_true]
      | false =>
        have inside := ih fun reached => unreached ⟨unlocked, content, reached⟩
        rw [entered] at inside
        simp only [Bool.or_false, Bool.false_eq_true, if_false, walkList_around, inside]

end CodeWriter

end PageTree
