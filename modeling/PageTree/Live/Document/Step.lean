/-
  PageTree/Live/Document/Step.lean
  ================================
  **Single steps on a document.**

  A step changes a document or asks for something in it; its answer is
  structured data.
-/
import PageTree.Json.Basic
import PageTree.Live.Document

namespace PageTree.Live

/-- A step on a document. -/
inductive DocumentStep where
  | insert (id html : String)
  | remove (id : String)
  | has (id : String)
  | html (id : String)
  | setHtml (id html : String)
  | descendants (id : String)
  | execute (id : String)
  | executed
  | visit (path : String)
  | history
  | location
deriving DecidableEq, Repr

namespace DocumentStep

def texts (ss : List String) : Json := .array (ss.map .string)

/-- Takes a step; answers with what it asks for and the document after it. -/
def run (d : Document) : DocumentStep → Json × Document
  | insert id markup => (.null, d.insert id markup)
  | remove id => (.null, d.remove id)
  | has id => (.bool (d.has id), d)
  | html id => (((d.html? id).map Json.string).getD .null, d)
  | setHtml id markup => (.bool (d.has id), d.setHtml id markup)
  | descendants id => (texts (d.descendants id), d)
  | execute id => (texts (d.execute id).executed, d.execute id)
  | executed => (texts d.executed, d)
  | visit path => (.string (d.visit path).location, d.visit path)
  | history => (texts d.history, d)
  | location => (.string d.location, d)

end DocumentStep

end PageTree.Live
