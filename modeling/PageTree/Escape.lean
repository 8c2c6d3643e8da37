/-
  PageTree/Escape.lean
  ====================
  **Escaping for the places text is written to.**

  Content of markup, quoted attribute values, data inside script elements,
  string literals of scripts, and comments each have characters that must not
  appear as they are.  The working definitions are on character lists.
-/
import PageTree.Json.Printer
import PageTree.Text.Scan

namespace PageTree.Escape

open PageTree.Text

def contentChar (c : Char) : List Char :=
  if c == '&' then ['&', 'a', 'm', 'p', ';']
  else if c == '<' then ['&', 'l', 't', ';']
  else if c == '>' then ['&', 'g', 't', ';']
  else if c == '"' then ['&', 'q', 'u', 'o', 't', ';']
  else if c == '\'' then ['&', '#', 'x', '2', '7', ';']
  else [c]

def attributeChar (c : Char) : List Char :=
  if c == '&' then ['&', 'a', 'm', 'p', ';']
  else if c == '"' then ['&', 'q', 'u', 'o', 't', ';']
  else if c == '<' then ['&', 'l', 't', ';']
  else if c == '>' then ['&', 'g', 't', ';']
  else [c]

/-- Text as content of markup. -/
def content (s : String) : String := String.ofList (s.toList.flatMap contentChar)

/-- Text as a double-quoted attribute value. -/
def attributeValue (s : String) : String := String.ofList (s.toList.flatMap attributeChar)

/-- Inside a script element `</` is written `<\/`, which scripts read as `</` and
    markup readers do not take for a closing tag. -/
def guardClosing : List Char → List Char
  | '<' :: '/' :: cs => '<' :: '\\' :: '/' :: guardClosing cs
  | c :: cs => c :: guardClosing cs
  | [] => []

/-- The text of structured data inside a script element. -/
def scriptData (s : String) : String := String.ofList (guardClosing s.toList)

/-- A string literal of a script, safe inside a script element. -/
def stringLiteral (s : String) : String := String.ofList (guardClosing (Json.quote s.toList))

/-- Separates the first two of adjacent hyphens, from left to right. -/
def partHyphens : List Char → List Char
  | '-' :: '-' :: cs => '-' :: ' ' :: '-' :: partHyphens cs
  | c :: cs => c :: partHyphens cs
  | [] => []

def comment (s : String) : String := String.ofList (partHyphens s.toList)

end PageTree.Escape
