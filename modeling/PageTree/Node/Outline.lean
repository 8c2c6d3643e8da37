/-
  PageTree/Node/Outline.lean
  ==========================
  **Outlines of page trees.**

  The outlines of structured data, attribute values and nodes.
-/
import PageTree.Node.Basic
import PageTree.Outline

namespace PageTree.Outline

mutual

def json : Json → String
  | .null => "Null"
  | .bool b => call "Bool" (bool b)
  | .number n => call "Number" (String.ofList n.lexeme)
  | .string s => call "String" (quote s)
  | .array items => "Array " ++ list (jsonItems items)
  | .object fields => "Object \x7b" ++ String.intercalate ", " (jsonFields fields) ++ "\x7d"

def jsonItems : List Json → List String
  | [] => []
  | v :: vs => json v :: jsonItems vs

def jsonFields : List (String × Json) → List String
  | [] => []
  | (name, v) :: fs => (quote name ++ ": " ++ json v) :: jsonFields fs

end

def value : AttrValue → String
  | .string s => call "Str" (quote s)
  | .number x => call "Number" (Number.text .outline x)
  | .bool b => call "Bool" (bool b)
  | .null => "Null"
  | .undefined => "Undefined"
  | .json v => call "Json" (json v)
  | .callback f =>
    call "Function" (record "ClientFn"
      [("params", list (f.params.map quote)), ("body", quote f.body), ("is_async", bool f.isAsync)])
  | .pending _ => "Pending(..)"

def attributes (attrs : Attributes) : String :=
  record "Attributes"
    [("entries", list (attrs.entries.map fun (k, v) => "(" ++ quote k ++ ", " ++ value v ++ ")"))]

/-- The outline of an element from those of its parts. -/
def element (kind : String) (attrs : Attributes) (children : List String) : String :=
  call "Element" (record "Element"
    [("kind", kind), ("attributes", attributes attrs), ("children", list children)])

mutual

def node : Node → String
  | .text s => call "Text" (quote s)
  | .number x => call "Number" (Number.text .outline x)
  | .bool b => call "Bool" (bool b)
  | .null => "Null"
  | .undefined => "Undefined"
  | .element tag attrs children => element (call "Tag" (quote tag)) attrs (nodes children)
  | .component name attrs children _ =>
    element (call "Component" (quote name)) attrs (nodes children)
  | .failure name attrs children _ =>
    element (call "Component" (quote name)) attrs (nodes children)
  | .array items => call "Array" (list (nodes items))
  | .pending _ => "Pending(..)"

def nodes : List Node → List String
  | [] => []
  | n :: ns => node n :: nodes ns

end

end PageTree.Outline
