/-
  PageTree/Live/Document.lean
  ===========================
  **A document kept in memory.**

  Elements are known by their ids.  Each holds its markup as a text and may be
  nested in another element.  Giving an element new markup forgets the elements
  nested in it and nests an empty element in it for every id the markup assigns.
  Scripts are executed by recording their source, navigations by appending to
  the history.
-/
import PageTree.OrderedMap
import PageTree.Text.Blank
import PageTree.Text.Scan
import PageTree.Text.Word

namespace PageTree.Live

open PageTree.Text

/-! ### What a document sees in markup -/

namespace Markup

/-- Recognises an assignment to `id` in double quotes, a blank in front of it. -/
def idAssignment : Recogniser (List Char) := fun _ s =>
  match s with
  | [] => none
  | c :: cs =>
    if !isBlank c then none
    else do
      let rest ← dropWord "id".toList cs
      let rest ← dropWord ['='] (trimStart rest)
      let rest ← dropWord ['"'] (trimStart rest)
      let (id, rest) ← cutAt ['"'] rest
      return (id, s.length - rest.length)

/-- The ids that markup assigns, from left to right. -/
def assignedIds (html : String) : List String :=
  (findAll idAssignment html.toList).map String.ofList

/-- Drops a closing script tag from the front of a text. -/
def dropScriptEnd (s : List Char) : Option (List Char) := do
  let rest ← dropWordIgnoringCase "</script".toList s
  dropWord ['>'] (trimStart rest)

/-- The text up to the first closing script tag and the text after the tag. -/
def cutAtScriptEnd : List Char → Option (List Char × List Char)
  | [] => none
  | c :: cs =>
    match dropScriptEnd (c :: cs) with
    | some rest => some ([], rest)
    | none => (cutAtScriptEnd cs).map fun (front, rest) => (c :: front, rest)

/-- Recognises a script element; its value is the source. -/
def scriptElement : Recogniser (List Char) := fun _ s => do
  let rest ← dropWordIgnoringCase "<script".toList s
  if !atBoundary (some 't') rest.head? then none
  let (_, rest) ← cutAt ['>'] rest
  let (source, rest) ← cutAtScriptEnd rest
  return (source, s.length - rest.length)

/-- The sources of the script elements in markup, from left to right. -/
def scriptSources (html : String) : List String :=
  (findAll scriptElement html.toList).map String.ofList

end Markup

structure Element where
  html : String := ""
  /-- The element it is nested in. -/
  parent : Option String := none
deriving DecidableEq, Repr

structure Document where
  elements : OrderedMap Element := ∅
  /-- The paths navigated to, oldest first. -/
  history : List String := []
  /-- The sources of the scripts executed so far. -/
  executed : List String := []

namespace Document

def has (d : Document) (id : String) : Bool := d.elements.contains id

def html? (d : Document) (id : String) : Option String := (d.elements.get? id).map (·.html)

def parent? (d : Document) (id : String) : Option String := (d.elements.get? id).bind (·.parent)

/-- The elements around an element, from the inside out, at most `steps` of them. -/
def enclosing (d : Document) : Nat → String → List String
  | 0, _ => []
  | steps + 1, id =>
    match d.parent? id with
    | none => []
    | some p => p :: enclosing d steps p

/-- The elements around an element, from the inside out.  There are no more of
    them than elements in the document, as long as no element encloses itself. -/
def ancestors (d : Document) (id : String) : List String := d.enclosing d.elements.size id

/-- Whether an element is nested in another one, at any depth. -/
def isNestedIn (d : Document) (id outer : String) : Bool := (d.ancestors id).contains outer

def sortIds (ids : List String) : List String := ids.mergeSort fun a b => !decide (b < a)

/-- The elements nested in an element at any depth, in ascending order. -/
def descendants (d : Document) (id : String) : List String :=
  sortIds (d.elements.keys.filter fun e => d.isNestedIn e id)

def forget (d : Document) (ids : List String) : Document :=
  { d with elements := ids.foldl (·.erase ·) d.elements }

/-- Nests empty elements in an element; an element is not nested in itself. -/
def nest (d : Document) (id : String) (children : List String) : Document :=
  { d with
    elements := (children.filter (· != id)).foldl
      (fun es child => es.insert child { parent := some id }) d.elements }

/-- Gives an element new markup, if there is such an element. -/
def setHtml (d : Document) (id html : String) : Document :=
  if d.has id then
    let d := d.forget (d.descendants id)
    let d := { d with elements := d.elements.modify id fun e => { e with html } }
    d.nest id (Markup.assignedIds html)
  else d

/-- Adds an element that is nested in no other. -/
def insert (d : Document) (id html : String) : Document :=
  { d with elements := d.elements.insert id {} }.setHtml id html

/-- Removes an element and everything nested in it. -/
def remove (d : Document) (id : String) : Document := d.forget (d.descendants id ++ [id])

def execute (d : Document) (id : String) : Document :=
  { d with executed := d.executed ++ ((d.html? id).map Markup.scriptSources).getD [] }

def visit (d : Document) (path : String) : Document := { d with history := d.history ++ [path] }

def location (d : Document) : String := d.history.getLastD "/"

/-- A document with the given elements, inserted one after another. -/
def ofElements (elements : List (String × String)) : Document :=
  elements.foldl (fun d (id, html) => d.insert id html) {}

/-! ### Laws -/

theorem setHtml_of_not_has {d : Document} {id : String} (html : String) (h : d.has id = false) :
    d.setHtml id html = d := by
  simp [setHtml, h]

@[simp] theorem history_setHtml (d : Document) (id html : String) :
    (d.setHtml id html).history = d.history := by
  unfold setHtml; split <;> rfl

@[simp] theorem executed_setHtml (d : Document) (id html : String) :
    (d.setHtml id html).executed = d.executed := by
  unfold setHtml; split <;> rfl

end Document

end PageTree.Live
