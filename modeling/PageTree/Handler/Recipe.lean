/-
  PageTree/Handler/Recipe.lean
  ============================
  **Handlers written as recipes.**

  A recipe is a list of steps, each of which adds a text, a script or a node to
  the output, locks or unlocks the children, or changes the attributes.  Texts
  are put together from pieces that quote what the strategy sees.
-/
import PageTree.Handler.Pass

namespace PageTree

/-- A piece of text in a recipe. -/
inductive RecipePiece where
  | literal (s : String)
  | key
  | value
  | id
  /-- Whether the id is the element's own. -/
  | explicit
  | var
  /-- The other attributes as structured data. -/
  | props
  /-- All keys, separated by commas. -/
  | keys
  /-- The text of an attribute, `absent` without it. -/
  | attr (key : String)
deriving DecidableEq, Repr

/-- A step of a recipe. -/
inductive RecipeStep where
  /-- Adds to the markup. -/
  | html (pieces : List RecipePiece)
  /-- Adds an inline script. -/
  | inline (pieces : List RecipePiece)
  | node (n : Node)
  | code (pieces : List RecipePiece)
  | lock (locked : Bool)
  | erase (key : String)
  | put (key : String) (value : AttrValue)

namespace RecipePiece

/-- The text of a piece; `var` is empty where no variable holds the element. -/
def text (var : String) (v : ElementView) : RecipePiece → String
  | literal s => s
  | key => v.key
  | value => v.value.text
  | id => v.id
  | explicit => if v.explicitId then "true" else "false"
  | RecipePiece.var => var
  | props => (v.attrs.toJson v.key).compact
  | keys => String.intercalate "," v.attrs.keys
  | attr k => ((v.attrs.get? k).map (·.text)).getD "absent"

def texts (var : String) (v : ElementView) (ps : List RecipePiece) : String :=
  String.join (ps.map (text var v))

end RecipePiece

namespace Handler

/-- Takes a step towards markup. -/
def markupRecipeStep (st : MarkupOutput × ElementView) : RecipeStep → MarkupOutput × ElementView
  | .html ps => ({ st.1 with html := st.1.html ++ RecipePiece.texts "" st.2 ps }, st.2)
  | .inline ps =>
    ({ st.1 with scripts := st.1.scripts ++ [.inline (RecipePiece.texts "" st.2 ps)] }, st.2)
  | .node n => ({ st.1 with scripts := st.1.scripts ++ [.node n] }, st.2)
  | .code _ => st
  | .lock b => ({ st.1 with lock := b }, st.2)
  | .erase k => (st.1, { st.2 with attrs := st.2.attrs.erase k })
  | .put k v => (st.1, { st.2 with attrs := st.2.attrs.insert k v })

/-- Takes a step towards statements. -/
def codeRecipeStep (var : String) (st : CodeOutput × ElementView) :
    RecipeStep → CodeOutput × ElementView
  | .code ps =>
    ({ st.1 with statements := st.1.statements ++ [.code (RecipePiece.texts var st.2 ps)] }, st.2)
  | .lock b => ({ st.1 with lock := b }, st.2)
  | .erase k => (st.1, { st.2 with attrs := st.2.attrs.erase k })
  | .put k v => (st.1, { st.2 with attrs := st.2.attrs.insert k v })
  | _ => st

/-- The handler of recipes; without a recipe there is no strategy. -/
def ofRecipes (key : HandlerKey) (readsSiblings : Bool) (markup code : Option (List RecipeStep)) :
    Handler where
  key := key
  readsSiblings := readsSiblings
  markup := markup.map fun steps v =>
    let (out, v) := steps.foldl markupRecipeStep ({}, v)
    (out, v.attrs)
  code := code.map fun steps var v =>
    let (out, v) := steps.foldl (codeRecipeStep var) ({}, v)
    (out, v.attrs)

end Handler

end PageTree
