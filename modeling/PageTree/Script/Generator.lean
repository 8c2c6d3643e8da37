/-
  PageTree/Script/Generator.lean
  ==============================
  **Code that rebuilds a page tree in a live document.**

  The tree is walked in the order of its text.  Every tag element becomes a
  variable, numbered in the order of the walk; its attributes follow its
  creation, then it is appended to the variable of the nearest element around
  it.  Components and arrays leave no trace of their own.
-/
import PageTree.Handler.Pass

namespace PageTree

/-- What generating code needs: the handlers, the supply of ids and the common
    beginning of variable names. -/
structure CodeWriter where
  registry : Registry
  ids : Nat → String
  stem : String

/-- How many variables and ids have been taken. -/
structure CodeCount where
  vars : Nat := 0
  ids : Nat := 0
deriving DecidableEq, Repr

namespace CodeWriter

/-- The name of the `n`-th variable. -/
def variableName (w : CodeWriter) (n : Nat) : String := w.stem ++ toString n

/-- The statements of a text; an empty one has none. -/
def textStatements (parent s : String) : List Statement :=
  if s.isEmpty then [] else [.appendText parent s]

mutual

/-- The statements that append a node to the element in `parent`. -/
def walk (w : CodeWriter) (parent : String) : Node → CodeCount → List Statement × CodeCount
  | .pending n, k => walk w parent n k
  | .array items, k => walkList w parent items k
  | .component _ _ _ result, k => walk w parent result k
  | .failure name _ _ message, k =>
    ([.appendComment parent (Escape.comment (Node.failureText name message))], k)
  | .element tag attrs children, k =>
    let var := w.variableName k.vars
    let c := w.registry.code (w.ids k.ids) var attrs
    let k := { vars := k.vars + 1, ids := if c.who.explicit then k.ids else k.ids + 1 }
    let (inner, k) :=
      if c.lock || Node.isVoidTag tag then ([], k) else walkList w var children k
    (.create var tag :: (c.statements ++ .append parent var :: inner), k)
  | .text s, k => (textStatements parent s, k)
  | .number x, k => (textStatements parent (Number.text .script x), k)
  | .bool b, k => ([.appendText parent (if b then "true" else "false")], k)
  | .null, k => ([], k)
  | .undefined, k => ([], k)

def walkList (w : CodeWriter) (parent : String) :
    List Node → CodeCount → List Statement × CodeCount
  | [], k => ([], k)
  | n :: ns, k =>
    let (first, k) := walk w parent n k
    let (rest, k) := walkList w parent ns k
    (first ++ rest, k)

end

end CodeWriter

end PageTree
