/-
  PageTree/Markup/Assembly.lean
  =============================
  **Putting a document together.**

  Fragments that are a document type declaration or a tag of `html`, `head` or
  `body` are markers.  Without any marker the fragments are joined.  With one, a
  complete document is written: markers give way to one set of document tags,
  which take over the attributes of the last opening marker of their kind, and
  every other fragment goes to the head or to the body.
-/
import PageTree.Text.Blank
import PageTree.Text.Scan
import PageTree.Text.Word

namespace PageTree

/-- The document element and its two sections. -/
inductive Section where
  | html
  | head
  | body
deriving DecidableEq, Repr

/-- What a fragment says about the structure of the document. -/
inductive Marker where
  | doctype
  /-- An opening tag with the text of its attributes. -/
  | opening (s : Section) (attributes : String)
  | closing (s : Section)
deriving DecidableEq, Repr

namespace Marker

open Text

/-- A section's name at the front of a text, in any case. -/
def takeSection (s : List Char) : Option (Section × List Char) :=
  ((dropWordIgnoringCase "html".toList s).map ((Section.html, ·))).or
    (((dropWordIgnoringCase "head".toList s).map ((Section.head, ·))).or
      ((dropWordIgnoringCase "body".toList s).map ((Section.body, ·))))

/-- The text up to the end of a tag that ends the whole text, blanks apart. -/
def tagRest (s : List Char) : Option (List Char) :=
  (cutAt ['>'] s).bind fun (inner, rest) => if rest.all isBlank then some inner else none

/-- The marker that starts after an opening angle bracket. -/
def ofTag (s : List Char) : Option Marker :=
  match s with
  | '/' :: cs =>
    (takeSection cs).bind fun (sec, rest) =>
      (tagRest rest).bind fun inner => if inner.all isBlank then some (closing sec) else none
  | '!' :: cs =>
    (dropWordIgnoringCase "doctype".toList cs).bind fun rest =>
      if rest.head?.any isWord then none else (tagRest rest).map fun _ => doctype
  | cs =>
    (takeSection cs).bind fun (sec, rest) =>
      if rest.head?.any isWord then none
      else (tagRest rest).map fun inner =>
        opening sec (String.ofList (dropTrailing (· == '/') inner))

/-- The marker a fragment is, if it is one. -/
def ofFragment (fragment : String) : Option Marker :=
  (dropWord ['<'] (trimStart fragment.toList)).bind ofTag

/-- Whether the marker opens or closes the head or the body. -/
def isSectionTag : Marker → Bool
  | opening s _ => s != .html
  | closing s => s != .html
  | doctype => false

end Marker

/-- Where the next fragment belongs. -/
inductive Position where
  /-- Before any section tag. -/
  | preamble
  | inHead
  | inBody
  /-- After the end of a section. -/
  | between
deriving DecidableEq, Repr

/-- A document under construction. -/
structure Assembly where
  position : Position := .preamble
  htmlAttributes : String := ""
  headAttributes : String := ""
  bodyAttributes : String := ""
  head : String := ""
  body : String := ""

namespace Assembly

/-- Whether a fragment at this position goes to the head. -/
def toHead (hasSections : Bool) : Position → Bool
  | .preamble => hasSections
  | .inHead => true
  | .inBody | .between => false

def add (hasSections : Bool) (a : Assembly) (fragment : String) : Assembly :=
  match Marker.ofFragment fragment with
  | some .doctype => a
  | some (.closing .html) => a
  | some (.opening .html attrs) => { a with htmlAttributes := attrs }
  | some (.opening .head attrs) => { a with headAttributes := attrs, position := .inHead }
  | some (.opening .body attrs) => { a with bodyAttributes := attrs, position := .inBody }
  | some (.closing _) => { a with position := .between }
  | none =>
    if toHead hasSections a.position then { a with head := a.head ++ fragment }
    else { a with body := a.body ++ fragment }

def text (a : Assembly) : String :=
  "<!DOCTYPE html><html" ++ a.htmlAttributes ++ "><head" ++ a.headAttributes ++ ">" ++ a.head
    ++ "</head><body" ++ a.bodyAttributes ++ ">" ++ a.body ++ "</body></html>"

end Assembly

def assemble (fragments : List String) : String :=
  let markers := fragments.filterMap Marker.ofFragment
  if markers.isEmpty then String.join fragments
  else (fragments.foldl (Assembly.add (markers.any (·.isSectionTag))) {}).text

end PageTree
