/-
  PageTree/Node/Basic.lean
  ========================
  **Page trees.**

  A node is a primitive value, an element, an array of nodes, or a node that
  becomes available later.  An element carries a tag, attributes and children.
  A component is a named function from props to a node or a failure; an element
  that invokes one carries, beside its attributes and children, what the
  invocation comes to.  Components are pure, so it does not matter when they
  run.
-/
import PageTree.Escape
import PageTree.Node.Attribute

namespace PageTree

/-- Renderable content. -/
inductive Node where
  | text (s : String)
  | number (x : Float)
  | bool (b : Bool)
  | null
  | undefined
  | element (tag : String) (attrs : Attributes) (children : List Node)
  /-- The invocation of a component that comes to `result`. -/
  | component (name : String) (attrs : Attributes) (children : List Node) (result : Node)
  /-- The invocation of a component that fails with a message. -/
  | failure (name : String) (attrs : Attributes) (children : List Node) (message : String)
  | array (items : List Node)
  /-- A node that becomes available later. -/
  | pending (result : Node)
deriving Inhabited

/-- What a component is invoked with. -/
structure Props where
  attrs : Attributes
  children : List Node
deriving Inhabited

/-- A named function from props to a node or the message of a failure. -/
structure Component where
  name : String
  run : Props → Except String Node

namespace Node

/-- The element that invokes a component. -/
def invoke (c : Component) (attrs : Attributes) (children : List Node) : Node :=
  match c.run ⟨attrs, children⟩ with
  | .ok result => component c.name attrs children result
  | .error message => failure c.name attrs children message

/-- What is reported for a failed component. -/
def failureText (name message : String) : String :=
  "component `" ++ name ++ "` failed: " ++ message

/-- A text node for content that must not be read as markup. -/
def escaped (s : String) : Node := text (Escape.content s)

def doctype : Node := text "<!DOCTYPE html>"

/-- Adds a child; an array is spliced in, one level deep. -/
def addChild (children : List Node) : Node → List Node
  | array items => children ++ items
  | child => children ++ [child]

/-- The node once it has been awaited; what lies deeper may still be pending. -/
def settle : Node → Node
  | pending n => settle n
  | n => n

/-- The text of a primitive node. -/
def primitive? : Node → Option String
  | text s => some s
  | number x => some (Number.text .script x)
  | bool b => some (if b then "true" else "false")
  | null | undefined => some ""
  | _ => none

def isPrimitive (n : Node) : Bool := n.primitive?.isSome

/-- The tags of elements that never have content. -/
def voidTags : List String :=
  ["area", "base", "br", "col", "embed", "hr", "img", "input", "link", "meta", "param",
    "source", "track", "wbr"]

/-- Whether elements of this tag never have content; the case of ASCII letters
    does not matter. -/
def isVoidTag (tag : String) : Bool := voidTags.contains (tag.map Char.toLower)

end Node

end PageTree
