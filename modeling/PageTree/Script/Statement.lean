/-
  PageTree/Script/Statement.lean
  ==============================
  **Statements that build a page in a live document.**

  The generated code is a list of statements of a few fixed forms, and code that
  handlers contribute as text.  `Statement.text` writes a statement in the
  script language.
-/
import PageTree.Handler.Behaviour

namespace PageTree

/-- A statement of generated code. -/
inductive Statement where
  /-- Creates an element of a tag and names it. -/
  | create (var tag : String)
  | setAttribute (var key value : String)
  | setClass (var value : String)
  | setId (var id : String)
  /-- Attaches a behaviour at once. -/
  | attach (var : String) (b : Behaviour)
  /-- Attaches a behaviour as soon as the code has run. -/
  | attachLater (var : String) (b : Behaviour)
  | append (parent child : String)
  | appendText (parent text : String)
  | appendComment (parent text : String)
  /-- Code contributed as text. -/
  | code (source : String)
deriving DecidableEq, Repr

namespace Statement

open Escape

def text : Statement → String
  | create var tag => "const " ++ var ++ " = document.createElement(" ++ stringLiteral tag ++ ");"
  | setAttribute var key value =>
    var ++ ".setAttribute(" ++ stringLiteral key ++ ", " ++ stringLiteral value ++ ");"
  | setClass var value => var ++ ".className = " ++ stringLiteral value ++ ";"
  | setId var id => var ++ ".id = " ++ stringLiteral id ++ ";"
  | attach var b => b.statement (.held var)
  | attachLater var b =>
    "queueMicrotask(function()\x7b" ++ b.statement (.held var) ++ "\x7d);"
  | append parent child => parent ++ ".appendChild(" ++ child ++ ");"
  | appendText parent s =>
    parent ++ ".appendChild(document.createTextNode(" ++ stringLiteral s ++ "));"
  | appendComment parent s =>
    parent ++ ".appendChild(document.createComment(" ++ stringLiteral s ++ "));"
  | code source => source

end Statement

/-- The declaration of the root that everything is appended to. -/
inductive RootDeclaration where
  | fragment (name : String)
  | element (name tag : String)
deriving DecidableEq, Repr

def RootDeclaration.text : RootDeclaration → String
  | fragment name => "var " ++ name ++ " = document.createDocumentFragment();"
  | element name tag =>
    "var " ++ name ++ " = document.createElement(" ++ Escape.stringLiteral tag ++ ");"

/-- The whole code: the root, and the statements in a block of their own. -/
def codeText (root : RootDeclaration) (statements : List Statement) : String :=
  if statements.isEmpty then root.text
  else root.text ++ "\n\x7b\n" ++ String.intercalate "\n" (statements.map (·.text)) ++ "\n\x7d"

end PageTree
