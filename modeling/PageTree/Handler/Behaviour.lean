/-
  PageTree/Handler/Behaviour.lean
  ===============================
  **What callbacks do to an element.**

  A callback on an element listens to an event, renders a reactive component
  into the element, or is relocated: called once with the element and with
  parameters taken from the element's other attributes.  Each behaviour is
  written as a script statement about a target, the expression that denotes the
  element where the statement runs.
-/
import PageTree.Callback.Source
import PageTree.Escape
import PageTree.Node.Attribute
import PageTree.Text.LowerCase

namespace PageTree

/-- The expression that denotes an element in a script. -/
inductive Target where
  /-- A variable that holds the element. -/
  | held (name : String)
  /-- The element with this id, looked up in the document. -/
  | byId (id : String)
deriving DecidableEq, Repr

def Target.expression : Target → String
  | held name => name
  | byId id => "document.getElementById(" ++ Escape.stringLiteral id ++ ")"

/-- The global object that holds the entry points of the client. -/
def clientNamespace : String := "duplex"

/-- The entry point that mounts a reactive component. -/
def reactiveEntry : String := "reactiveComponent"

/-- What a callback does to an element. -/
inductive Behaviour where
  /-- Calls the expression `listener` on every `event`. -/
  | listen (event listener : String)
  /-- Renders the component `callback` into the element with this id. -/
  | reactive (id callback : String)
  /-- Calls `f` once; `props` is the text of the element's other attributes. -/
  | relocate (f : Callback) (props : String)
deriving DecidableEq, Repr

namespace Behaviour

/-- The declaration that binds a parameter of a relocated callback to a prop. -/
def declaration (param : String) : String :=
  match param.toList.head? with
  | some '\x7b' | some '[' => "const " ++ param ++ " = props;"
  | _ =>
    match Text.cutAt ['='] param.toList with
    | some (name, default) =>
      let name := String.ofList (Text.trim name)
      "const " ++ name ++ " = props[" ++ Escape.stringLiteral name ++ "] ?? "
        ++ String.ofList (Text.trim default) ++ ";"
    | none => "const " ++ param ++ " = props[" ++ Escape.stringLiteral param ++ "];"

/-- The call of a relocated callback. -/
def relocatedCall (f : Callback) (target : Target) : String :=
  let element := f.params.headD ""
  "(" ++ (if f.isAsync then "async " else "") ++ "function(" ++ element ++ ")\x7b\n" ++ f.body
    ++ "\n\x7d)(" ++ (if element.isEmpty then "" else target.expression) ++ ")"

/-- The statement that runs a relocated callback: the props are bound, then the
    parameters after the first, then the callback is called with the element,
    errors being reported and not passed on. -/
def relocated (f : Callback) (props : String) (target : Target) : String :=
  "(function()\x7b\nconst props = " ++ Escape.scriptData props ++ ";\n"
    ++ String.join (f.params.tail.map fun p => declaration p ++ "\n")
    ++ "try \x7b\n" ++ relocatedCall f target
    ++ (if f.isAsync then ".catch(console.error);\n" else ";\n")
    ++ "\x7d catch (error) \x7b\nconsole.error(error);\n\x7d\n\x7d)();"

def statement (target : Target) : Behaviour → String
  | listen event listener =>
    target.expression ++ ".addEventListener(" ++ Escape.stringLiteral event ++ ", " ++ listener
      ++ ");"
  | reactive id callback =>
    clientNamespace ++ "." ++ reactiveEntry ++ "(" ++ Escape.stringLiteral id ++ ", " ++ callback
      ++ ");"
  | relocate f props => relocated f props target

/-- The event an attribute key such as `onClick` listens to. -/
def eventOf (key : String) : String :=
  String.ofList (Text.lower ((Text.dropWord "on".toList key.toList).getD key.toList))

/-- The callback expression of a value: a callback's function expression, or a
    string that is not blank, taken as an expression. -/
def callbackText? : AttrValue → Option String
  | .callback f => some f.expression
  | .string s => if s.toList.all Text.isBlank then none else some s
  | _ => none

/-- The callback of a value; a string is read as source text. -/
def callback? : AttrValue → Option Callback
  | .callback f => some f
  | .string s => some (Callback.ofSource s)
  | _ => none

end Behaviour

end PageTree
