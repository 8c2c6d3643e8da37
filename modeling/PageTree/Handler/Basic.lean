/-
  PageTree/Handler/Basic.lean
  ===========================
  **Attribute handlers.**

  A handler is responsible for one attribute key, or for all keys with a common
  beginning, and has up to two strategies: one writes markup, one produces
  statements.  A strategy sees the value of its key and the attributes of the
  element, and may change the latter.  An attribute without a strategy for the
  output at hand follows the default rule.
-/
import PageTree.Node.Basic
import PageTree.Node.Outline
import PageTree.Script.Statement

namespace PageTree

/-- The attribute keys a handler is responsible for. -/
inductive HandlerKey where
  | exact (key : String)
  /-- All keys that begin with `stem`. -/
  | startingWith (stem : String)
deriving DecidableEq, Repr

namespace HandlerKey

/-- A written key; a star at its end makes it a beginning. -/
def parse (s : String) : HandlerKey :=
  if s.toList.getLast? == some '*' then startingWith (String.ofList s.toList.dropLast)
  else exact s

def isStem : HandlerKey → Bool
  | exact _ => false
  | startingWith _ => true

/-- Whether the handler is responsible for `key`. -/
def applies (h : HandlerKey) (key : String) : Bool :=
  match h with
  | exact k => k == key
  | startingWith stem => (Text.dropWord stem.toList key.toList).isSome

/-- The key without a star. -/
def bare : HandlerKey → String
  | exact k => k
  | startingWith stem => stem

def text : HandlerKey → String
  | exact k => k
  | startingWith stem => stem ++ "*"

end HandlerKey

/-- A script that comes with an element's markup. -/
inductive Script where
  /-- Source; the inline scripts of one element share one script element. -/
  | inline (source : String)
  /-- A node that follows the element as it is. -/
  | node (n : Node)

/-- What a strategy sees of an element. -/
structure ElementView where
  key : String
  value : AttrValue
  attrs : Attributes
  /-- The id of the element, of its own or generated. -/
  id : String
  /-- Whether the id is the element's own. -/
  explicitId : Bool

/-- What a strategy adds to the markup. -/
structure MarkupOutput where
  html : String := ""
  scripts : List Script := []
  /-- The handler takes over the children of the element. -/
  lock : Bool := false

/-- What a strategy adds to the statements. -/
structure CodeOutput where
  statements : List Statement := []
  /-- The handler takes over the children of the element. -/
  lock : Bool := false

/-- A handler.  The strategies answer with their output and the attributes the
    element has from then on; the one for code also gets the variable that
    holds the element. -/
structure Handler where
  key : HandlerKey
  /-- All values still pending are awaited before a strategy runs. -/
  readsSiblings : Bool := false
  markup : Option (ElementView → MarkupOutput × Attributes) := none
  code : Option (String → ElementView → CodeOutput × Attributes) := none

/-- Handlers in the order of their registration. -/
abbrev Registry := List Handler

namespace Registry

/-- The handler of a key: the first with exactly this key, else the first with
    a fitting beginning. -/
def lookup (reg : Registry) (key : String) : Option Handler :=
  (reg.find? fun h => !h.key.isStem && h.key.applies key).or
    (reg.find? fun h => h.key.isStem && h.key.applies key)

end Registry

def Outline.handlerKey : HandlerKey → String
  | .exact k => call "Exact" (quote k)
  | .startingWith stem => call "Prefix" (quote stem)

def Outline.handler (h : Handler) : String :=
  record "AttributeHandler"
    [("key", handlerKey h.key), ("static", bool h.markup.isSome), ("dom", bool h.code.isSome),
      ("reads_siblings", bool h.readsSiblings)]

end PageTree
