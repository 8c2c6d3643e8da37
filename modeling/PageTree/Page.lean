/-
  PageTree/Page.lean
  ==================
  **A page tree in its two outputs.**

  `markupOf` writes a tree as markup, `codeOf` as code that builds it in a live
  document.  Both answer with the number of generated ids they took from the
  supply.
-/
import PageTree.Markup.Assembly
import PageTree.Markup.Compaction
import PageTree.Markup.Fragments
import PageTree.Script.Generator
import PageTree.Script.NameTable
import PageTree.Settings

namespace PageTree

def markupText (s : MarkupSettings) (fragments : List String) : String :=
  let html := assemble fragments
  if s.minify then compact html else html

def markupOf (w : MarkupWriter) (s : MarkupSettings) (n : Node) (k : Nat) : String × Nat :=
  let (fragments, k) := w.write n k
  (markupText s fragments, k)

/-- The root that settings ask for. -/
def CodeSettings.root (s : CodeSettings) : RootDeclaration :=
  if s.asFragment then .fragment s.rootName else .element s.rootName s.rootTag

/-- The final form of code. -/
def CodeSettings.finish (s : CodeSettings) (code : String) : String :=
  let code := if s.minify then shorten code else code
  if s.compact then PageTree.compact code else code

def statementsOf (w : CodeWriter) (root : String) (n : Node) (ids : Nat) :
    List Statement × CodeCount :=
  w.walk root n { ids := ids }

/-- A tree as code.  The numbers of variables start anew with every tree, the
    supply of ids does not. -/
def codeOf (registry : Registry) (ids : Nat → String) (s : CodeSettings) (n : Node) (k : Nat) :
    String × Nat :=
  let (statements, count) := statementsOf ⟨registry, ids, s.stem⟩ s.rootName n k
  (s.finish (codeText s.root statements), count.ids)

end PageTree
