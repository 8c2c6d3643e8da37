/-
  PageTree/Handler/Pass.lean
  ==========================
  **The passes over an element's attributes.**

  Both passes visit the written keys one after another, in the order they have
  at the start.  The value of a key is awaited when its turn comes; a key that
  an earlier handler removed is skipped.  A handler that reads its siblings has
  all of them awaited first.
-/
import PageTree.Handler.Standard

namespace PageTree

/-- The identity of an element: its id, and whether it is its own. -/
structure Identity where
  id : String
  explicit : Bool
deriving DecidableEq, Repr

/-- The identity of an element that would get the id `fresh`. -/
def Attributes.identity (attrs : Attributes) (fresh : String) : Identity :=
  match attrs.id? with
  | some id => ⟨id, true⟩
  | none => ⟨fresh, false⟩

/-- What is left of a value when a strategy runs: the value under the key, and
    the attributes the strategy sees. -/
def visit (attrs : Attributes) (key : String) : Option (AttrValue × Attributes) :=
  let attrs := attrs.resolve key
  (attrs.get? key).map fun v => (v.snapshot, attrs)

/-- The attributes a handler's strategy gets to see. -/
def Handler.prepared (h : Handler) (attrs : Attributes) : Attributes :=
  if h.readsSiblings then attrs.resolveAll else attrs

/-! ### Markup -/

/-- The default rule: `true` gives a bare key, omitted values give nothing,
    everything else an escaped assignment. -/
def defaultMarkup (key : String) (value : AttrValue) : String :=
  match value with
  | .bool true => " " ++ key
  | v => if v.isOmitted then "" else " " ++ key ++ "=\"" ++ Escape.attributeValue v.text ++ "\""

/-- What a pass has produced so far, and the attributes at this point. -/
structure MarkupProgress where
  attrs : Attributes
  html : String := ""
  scripts : List Script := []
  lock : Bool := false

/-- The handler of a key that has a strategy for markup. -/
def Registry.markupStrategy (reg : Registry) (key : String) :
    Option (Handler × (ElementView → MarkupOutput × Attributes)) :=
  (reg.lookup key).bind fun h => h.markup.map fun f => (h, f)

/-- Writes one attribute. -/
def markupStep (reg : Registry) (who : Identity) (st : MarkupProgress) (key : String) :
    MarkupProgress :=
  match visit st.attrs key with
  | none => st
  | some (value, attrs) =>
    match reg.markupStrategy key with
    | none => { st with attrs := attrs, html := st.html ++ defaultMarkup key value }
    | some (h, f) =>
      let (out, attrs) := f ⟨key, value, h.prepared attrs, who.id, who.explicit⟩
      { attrs := attrs, html := st.html ++ out.html, scripts := st.scripts ++ out.scripts,
        lock := st.lock || out.lock }

/-- The inline sources among scripts, in order. -/
def inlineSources (scripts : List Script) : List String :=
  scripts.filterMap fun
    | .inline s => some s
    | .node _ => none

def scriptNodes (scripts : List Script) : List Node :=
  scripts.filterMap fun
    | .inline _ => none
    | .node n => some n

/-- The scripts as nodes: all inline sources are joined into one script element
    that stands where the first of them was. -/
def mergeScripts : List Script → List Node
  | [] => []
  | .node n :: rest => n :: mergeScripts rest
  | .inline s :: rest =>
    .element "script" ∅ [.text (String.intercalate "\n" (s :: inlineSources rest))]
      :: scriptNodes rest

/-- The markup of an element's attributes. -/
structure AttributeMarkup where
  /-- The attributes of the opening tag, each with a leading blank. -/
  html : String
  /-- Nodes that follow the element. -/
  scripts : List Node
  lock : Bool
  /-- The attributes as the pass leaves them. -/
  attrs : Attributes
  who : Identity

/-- Writes the attributes of an element as markup.  An element with scripts gets
    its generated id as an attribute. -/
def Registry.markup (reg : Registry) (fresh : String) (attrs : Attributes) : AttributeMarkup :=
  let attrs := attrs.resolve "id"
  let who := attrs.identity fresh
  let st := attrs.writtenKeys.foldl (markupStep reg who) { attrs := attrs }
  let idMarkup :=
    if !st.scripts.isEmpty && !who.explicit then
      " id=\"" ++ Escape.attributeValue who.id ++ "\""
    else ""
  { html := idMarkup ++ st.html, scripts := mergeScripts st.scripts, lock := st.lock,
    attrs := st.attrs, who := who }

/-! ### Statements -/

/-- The default rule for statements: an assignment of the text, empty for
    `true`, or nothing for omitted values. -/
def defaultStatement (var key : String) (value : AttrValue) : List Statement :=
  match value with
  | .bool true => [.setAttribute var key ""]
  | v => if v.isOmitted then [] else [.setAttribute var key v.text]

/-- What a pass has produced so far, and the attributes at this point. -/
structure CodeProgress where
  attrs : Attributes
  statements : List Statement := []
  lock : Bool := false

def Registry.codeStrategy (reg : Registry) (key : String) :
    Option (Handler × (String → ElementView → CodeOutput × Attributes)) :=
  (reg.lookup key).bind fun h => h.code.map fun f => (h, f)

def codeStep (reg : Registry) (var : String) (who : Identity) (st : CodeProgress) (key : String) :
    CodeProgress :=
  match visit st.attrs key with
  | none => st
  | some (value, attrs) =>
    match reg.codeStrategy key with
    | none =>
      { st with attrs := attrs, statements := st.statements ++ defaultStatement var key value }
    | some (h, f) =>
      let (out, attrs) := f var ⟨key, value, h.prepared attrs, who.id, who.explicit⟩
      { attrs := attrs, statements := st.statements ++ out.statements,
        lock := st.lock || out.lock }

structure AttributeCode where
  statements : List Statement
  lock : Bool
  /-- The attributes as the pass leaves them. -/
  attrs : Attributes
  who : Identity

/-- Produces the statements that apply attributes to the element in `var`. -/
def Registry.code (reg : Registry) (fresh var : String) (attrs : Attributes) : AttributeCode :=
  let attrs := attrs.resolve "id"
  let who := attrs.identity fresh
  let st := attrs.writtenKeys.foldl (codeStep reg var who) { attrs := attrs }
  { statements := st.statements, lock := st.lock, attrs := st.attrs, who := who }

end PageTree
