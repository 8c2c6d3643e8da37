/-
  PageTree/Node/Template.lean
  ===========================
  **Components written as templates.**

  A template is a node with slots that are filled from the props of an
  invocation.  Filling goes depth first from left to right and uses the props
  up: children and forwarded attributes are moved into the first place that asks
  for them.  A component inside a template has a template of its own, which sees
  only the props of its own invocation.
-/
import PageTree.Node.Basic

namespace PageTree

/-- A node with slots for props. -/
inductive Template where
  | fixed (n : Node)
  | element (tag : String) (forward : Bool) (attrs : List (String × AttrValue))
      (children : List Template)
  /-- The invocation of a component whose body is a template. -/
  | component (name : String) (forward : Bool) (attrs : List (String × AttrValue))
      (children : List Template) (body : Template)
  /-- The invocation of a component that fails. -/
  | failure (name : String) (forward : Bool) (attrs : List (String × AttrValue))
      (children : List Template) (message : String)
  | array (items : List Template)
  | pending (result : Template)
  /-- The inner template inside `count` elements of a tag, or inside one-item
      arrays. -/
  | nested (tag : Option String) (count : Nat) (inner : Template)
  /-- An array of `count` copies, each filled in turn. -/
  | copies (count : Nat) (inner : Template)
  /-- The children, which are moved here. -/
  | childSlot
  /-- The number of children left. -/
  | countSlot
  /-- The text of an attribute, nothing if it is absent. -/
  | attributeSlot (key : String)
deriving Inhabited

namespace Template

/-- Attributes of an element: forwarded ones first, then its own. -/
def takeAttributes (forward : Bool) (own : List (String × AttrValue)) (p : Props) :
    Attributes × Props :=
  let start := if forward then p.attrs else ∅
  (own.foldl (fun m e => m.insert e.1 e.2) start, if forward then { p with attrs := ∅ } else p)

/-- A node inside `count` wrappers. -/
def wrap (tag : Option String) (n : Node) : Nat → Node
  | 0 => n
  | count + 1 =>
    let inner := wrap tag n count
    match tag with
    | some t => .element t ∅ (Node.addChild [] inner)
    | none => .array [inner]

/-- The results of running `f` `count` times, each with what the last run left
    of the props. -/
def repeatFill (f : Props → Node × Props) : Nat → Props → List Node × Props
  | 0, p => ([], p)
  | count + 1, p =>
    let (n, p) := f p
    let (ns, p) := repeatFill f count p
    (n :: ns, p)

mutual

/-- The node a template gives for some props, and what is left of them. -/
def fill : Template → Props → Node × Props
  | .fixed n, p => (n, p)
  | .element tag forward own kids, p =>
    let (attrs, p) := takeAttributes forward own p
    let (children, p) := fillChildren kids p
    (.element tag attrs children, p)
  | .component name forward own kids body, p =>
    let (attrs, p) := takeAttributes forward own p
    let (children, p) := fillChildren kids p
    (Node.invoke ⟨name, fun props => .ok (fill body props).1⟩ attrs children, p)
  | .failure name forward own kids message, p =>
    let (attrs, p) := takeAttributes forward own p
    let (children, p) := fillChildren kids p
    (Node.invoke ⟨name, fun _ => .error message⟩ attrs children, p)
  | .array items, p =>
    let (ns, p) := fillItems items p
    (.array ns, p)
  | .pending t, p =>
    let (n, p) := fill t p
    (.pending n, p)
  | .nested tag count t, p =>
    let (n, p) := fill t p
    (wrap tag n count, p)
  | .copies count t, p =>
    let (ns, p) := repeatFill (fill t) count p
    (.array ns, p)
  | .childSlot, p => (.array p.children, { p with children := [] })
  | .countSlot, p => (.number p.children.length.toFloat, p)
  | .attributeSlot key, p => (((p.attrs.get? key).map fun v => Node.text v.text).getD .null, p)

/-- The children of an element; an array among them is spliced in. -/
def fillChildren : List Template → Props → List Node × Props
  | [], p => ([], p)
  | t :: ts, p =>
    let (n, p) := fill t p
    let (ns, p) := fillChildren ts p
    (Node.addChild [] n ++ ns, p)

/-- The items of an array, as they are. -/
def fillItems : List Template → Props → List Node × Props
  | [], p => ([], p)
  | t :: ts, p =>
    let (n, p) := fill t p
    let (ns, p) := fillItems ts p
    (n :: ns, p)

end

/-- The node of a template without props. -/
def build (t : Template) : Node := (t.fill ⟨∅, []⟩).1

end Template

end PageTree
