/-
  PageTree/Markup/Fragments.lean
  ==============================
  **The markup of a page tree as a list of fragments.**

  Every opening tag, closing tag, text and comment is a fragment of its own, in
  the order of the output.  Components are replaced by what they come to, a
  failed one by a comment.  The scripts of an element follow it; they are page
  trees themselves and may have scripts again, so a depth bounds how far this
  is followed.  Scripts of scripts are written to the end if no handler occurs
  twice on the way to them; beyond the depth they are left out.
-/
import PageTree.Handler.Pass

namespace PageTree

/-- What writing markup needs: the handlers and the supply of ids. -/
structure MarkupWriter where
  registry : Registry
  ids : Nat → String

namespace MarkupWriter

/-- The number of ids taken after an element with this identity. -/
def taken (who : Identity) (n : Nat) : Nat := if who.explicit then n else n + 1

/-- The comment that stands for a failed component. -/
def failureComment (name message : String) : String :=
  "<!-- " ++ Escape.comment (Node.failureText name message) ++ " -->"

/-- The text of a primitive as a fragment; an empty one is left out. -/
def textFragments (s : String) : List String := if s.isEmpty then [] else [s]

mutual

/-- The fragments of a node; `scripts` writes the scripts of an element.  The
    number counts the ids taken. -/
def fragments (w : MarkupWriter) (scripts : List Node → Nat → List String × Nat) :
    Node → Nat → List String × Nat
  | .pending n, k => fragments w scripts n k
  | .array items, k => fragmentsOfList w scripts items k
  | .component _ _ _ result, k => fragments w scripts result k
  | .failure name _ _ message, k => ([failureComment name message], k)
  | .element tag attrs children, k =>
    let m := w.registry.markup (w.ids k) attrs
    let k := taken m.who k
    if Node.isVoidTag tag then
      let (after, k) := scripts m.scripts k
      (("<" ++ tag ++ m.html ++ "/>") :: after, k)
    else
      let (inner, k) := if m.lock then ([], k) else fragmentsOfList w scripts children k
      let (after, k) := scripts m.scripts k
      (("<" ++ tag ++ m.html ++ ">") :: (inner ++ ("</" ++ tag ++ ">") :: after), k)
  | .text s, k => (textFragments s, k)
  | .number x, k => (textFragments (Number.text .script x), k)
  | .bool b, k => ([if b then "true" else "false"], k)
  | .null, k => ([], k)
  | .undefined, k => ([], k)

def fragmentsOfList (w : MarkupWriter) (scripts : List Node → Nat → List String × Nat) :
    List Node → Nat → List String × Nat
  | [], k => ([], k)
  | n :: ns, k =>
    let (first, k) := fragments w scripts n k
    let (rest, k) := fragmentsOfList w scripts ns k
    (first ++ rest, k)

end

/-- The fragments of scripts, followed to a depth. -/
def scriptFragments (w : MarkupWriter) : Nat → List Node → Nat → List String × Nat
  | 0, _, k => ([], k)
  | depth + 1, ns, k => fragmentsOfList w (scriptFragments w depth) ns k

/-- The depth to which scripts are followed: far enough for every chain of scripts in
    which no handler occurs twice.  A longer chain is cut, whether it would go on
    without end or come to an end later, as it may where a handler writes another
    value into each script. -/
def depth (w : MarkupWriter) : Nat := w.registry.length + 1

/-- The fragments of a node, and the number of ids taken. -/
def write (w : MarkupWriter) (n : Node) (k : Nat) : List String × Nat :=
  fragments w (scriptFragments w w.depth) n k

end MarkupWriter

end PageTree
