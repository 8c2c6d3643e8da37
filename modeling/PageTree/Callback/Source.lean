/-
  PageTree/Callback/Source.lean
  =============================
  **Recovering a callback from its source text.**

  Arrow functions, `function` expressions and method shorthands are recognised
  by their outer shape, tried in this order; anything else is taken apart as
  well as it can be.  Recovery never fails.
-/
import PageTree.Callback.Basic
import PageTree.Text.Blank
import PageTree.Text.Scan
import PageTree.Text.Word

namespace PageTree.Callback

open PageTree.Text

/-! ### Pieces of a callable -/

/-- Drops `async` and at least one blank from the front of a text. -/
def dropAsync (s : List Char) : Option (List Char) := do
  let rest ← dropWord "async".toList s
  if rest.head?.any isBlank then some (trimStart rest) else none

/-- A parenthesised parameter list at the front of a text: everything up to the
    first closing parenthesis. -/
def takeParens : List Char → Option (List Char × List Char)
  | '(' :: cs => cutAt [')'] cs
  | _ => none

/-- A name at the front of a text. -/
def takeName (s : List Char) : Option (List Char × List Char) :=
  if (identifier s).isEmpty then none
  else some (identifier s, s.drop (identifier s).length)

/-- The text without trailing blanks and at most one semicolon among them. -/
def dropTerminator (s : List Char) : List Char :=
  match (trimEnd s).getLast? with
  | some ';' => trimEnd (trimEnd s).dropLast
  | _ => trimEnd s

/-- A text that is one block, from an opening to a closing brace. -/
def isBlock (s : List Char) : Bool := s.head? == some '\x7b' && s.getLast? == some '\x7d'

/-! ### The shapes -/

/-- Parameters and body of an arrow function, the text starting at the parameter
    list. -/
def arrowTail (s : List Char) : Option (List Char × List Char) := do
  let (params, rest) ← (takeParens s).or (takeName s)
  let rest ← dropWord "=>".toList (trimStart rest)
  return (params, dropTerminator (trimStart rest))

def arrow? (s : List Char) : Option (List Char × List Char) :=
  let s := trimStart s
  ((dropAsync s).bind arrowTail).or (arrowTail s)

/-- A parameter list followed by a block, the text starting at the parameter
    list; `finish` takes the end off the block. -/
def blockTail (finish : List Char → List Char) (s : List Char) :
    Option (List Char × List Char) := do
  let (params, rest) ← takeParens s
  let body := finish (trimStart rest)
  if isBlock body then some (params, body) else none

/-- A `function` expression or declaration, the text starting at its keyword. -/
def functionTail (s : List Char) : Option (List Char × List Char) := do
  let rest ← dropWord "function".toList s
  if rest.head?.any isWord then none
  else
    let rest := trimStart rest
    let rest := trimStart ((dropWord ['*'] rest).getD rest)
    let rest := trimStart (rest.drop (identifier rest).length)
    blockTail dropTerminator rest

def function? (s : List Char) : Option (List Char × List Char) :=
  let s := trimStart s
  ((dropAsync s).bind functionTail).or (functionTail s)

/-- A method shorthand, the text starting at its name. -/
def methodTail (s : List Char) : Option (List Char × List Char) := do
  let (_, rest) ← takeName s
  blockTail trimEnd (trimStart rest)

def method? (s : List Char) : Option (List Char × List Char) :=
  let s := trimStart s
  ((dropAsync s).bind methodTail).or (methodTail s)

/-- The last resort: the first closed parentheses hold the parameters, and the
    body goes from behind the first opening brace to the end, less one closing
    brace. -/
def looseShape (s : List Char) : List Char × List Char :=
  let params := ((cutAt ['('] s).bind fun (_, rest) => cutAt [')'] rest).map (·.1)
  let inner := trimEnd (((cutAt ['\x7b'] s).map (·.2)).getD s)
  (params.getD [], if inner.getLast? == some '\x7d' then inner.dropLast else inner)

/-! ### Finishing -/

def mentionsReturn (s : List Char) : Bool :=
  !(findAll (fun before s =>
      (dropWord "return".toList s).bind fun rest =>
        if !before.any isWord && !rest.head?.any isWord then some ((), 6) else none) s).isEmpty

/-- Drops an opening brace at the front and a closing brace at the end, each on
    its own account. -/
def dropBraces (s : List Char) : List Char :=
  let s := (dropWord ['\x7b'] s).getD s
  if s.getLast? == some '\x7d' then s.dropLast else s

/-- Turns a body into statements: an expression is followed by a bare return, a
    block loses its braces. -/
def finishBody (raw : List Char) : List Char :=
  let body := trim raw
  if body.isEmpty then []
  else
    let body :=
      if body.head? != some '\x7b' && !mentionsReturn body then
        dropTrailing (· == ';') body ++ ";\nreturn;".toList
      else body
    trim (dropBraces body)

/-- Cuts a parameter list at the commas outside brackets; `current` holds the
    characters of the parameter under way, last first. -/
def splitAtCommas (depth : Nat) (current : List Char) : List Char → List (List Char)
  | [] => [current.reverse]
  | c :: cs =>
    if c == '\x7b' || c == '[' || c == '(' then splitAtCommas (depth + 1) (c :: current) cs
    else if c == '\x7d' || c == ']' || c == ')' then splitAtCommas (depth - 1) (c :: current) cs
    else if c == ',' && depth == 0 then current.reverse :: splitAtCommas depth [] cs
    else splitAtCommas depth (c :: current) cs

/-- The parameters of a parameter list, without the empty ones. -/
def splitParams (s : List Char) : List (List Char) :=
  ((splitAtCommas 0 [] s).map trim).filter (!·.isEmpty)

/-- The raw parameters and the raw body of a callable. -/
def shapeOf (s : List Char) : List Char × List Char :=
  (((arrow? s).or (function? s)).or (method? s)).getD (looseShape s)

/-- The callback written by a source text. -/
def ofSource (source : String) : Callback :=
  let s := source.toList
  let (params, body) := shapeOf s
  { params := (splitParams params).map String.ofList
    body := String.ofList (finishBody body)
    isAsync := (dropWord "async".toList (trimStart s)).isSome }

end PageTree.Callback
