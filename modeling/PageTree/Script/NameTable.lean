/-
  PageTree/Script/NameTable.lean
  ==============================
  **Shortening code by tables of names.**

  Frequent globals and members of the document interface are listed in two
  tables, `$g` and `$m`, and replaced by indexed accesses.  Literals are left
  alone, and so are globals that the code binds as names of its own.
-/
import PageTree.Markup.Compaction
import PageTree.Text.Word

namespace PageTree

open Text

namespace NameTable

/-- The globals in the table `$g`. -/
def globals : List String := ["document", "window", "location", "self", "top"]

/-- The members in the table `$m`. -/
def members : List String :=
  ["createElement", "createTextNode", "createDocumentFragment", "createComment", "appendChild",
    "setAttribute", "addEventListener", "getElementById", "className"]

/-! ### Bound names -/

/-- Whether a word that starts and ends with word characters stands at the front
    of the text, with no word character before or after it. -/
def wholeWord (word : List Char) (before : Option Char) (s : List Char) : Option (List Char) :=
  if before.any isWord then none
  else (dropWord word s).bind fun rest => if rest.head?.any isWord then none else some rest

/-- A list of bindings with the length of the text it is found in. -/
abbrev Binding := Option (List Char × Nat)

/-- The pattern after a declaring keyword and at least one blank: a text in
    braces or brackets, or a name. -/
def declared (keyword : List Char) (before : Option Char) (s : List Char) : Binding :=
  if before.any isWord then none
  else (dropWord keyword s).bind fun rest =>
    let gap := (rest.takeWhile isBlank).length
    if gap == 0 then none
    else
      let found (pattern : List Char) : Binding :=
        some (pattern, keyword.length + gap + pattern.length)
      match rest.drop gap with
      | '\x7b' :: cs => (cutAt ['\x7d'] cs).bind fun (p, _) => found ('\x7b' :: (p ++ ['\x7d']))
      | '[' :: cs => (cutAt [']'] cs).bind fun (p, _) => found ('[' :: (p ++ [']']))
      | cs => if (identifier cs).isEmpty then none else found (identifier cs)

/-- The parameters of a function: the first parentheses after the keyword. -/
def functionParams (before : Option Char) (s : List Char) : Binding :=
  (wholeWord "function".toList before s).bind fun rest =>
    (cutAt ['('] rest).bind fun (name, rest) =>
      (cutAt [')'] rest).map fun (params, _) => (params, 8 + name.length + params.length + 2)

/-- The length of blanks and an arrow at the front of the text. -/
def arrowLength (s : List Char) : Option Nat :=
  let gap := (s.takeWhile isBlank).length
  (dropWord "=>".toList (s.drop gap)).map fun _ => gap + 2

/-- Parameters in innermost parentheses before an arrow. -/
def arrowParams (s : List Char) : Binding :=
  match s with
  | '(' :: cs =>
    let params := cs.takeWhile fun c => c != '(' && c != ')'
    match cs.drop params.length with
    | ')' :: rest => (arrowLength rest).map fun n => (params, params.length + 2 + n)
    | _ => none
  | _ => none

/-- A single parameter before an arrow. -/
def arrowParam (s : List Char) : Binding :=
  if (identifier s).isEmpty then none
  else (arrowLength (s.drop (identifier s).length)).map fun n =>
    (identifier s, (identifier s).length + n)

/-- The places where names are bound. -/
def bindings : Recogniser (List Char) := fun before s =>
  (declared "const".toList before s).or <|
  (declared "let".toList before s).or <|
  (declared "var".toList before s).or <|
  (functionParams before s).or <|
  (arrowParams s).or (arrowParam s)

/-- Identifiers, wherever one starts. -/
def identifiers : Recogniser (List Char) := fun _ s =>
  if (identifier s).isEmpty then none else some (identifier s, (identifier s).length)

/-- The globals that the code binds itself. -/
def shadowed (s : List Char) : List String :=
  let names := ((findAll bindings s).flatMap (findAll identifiers)).map String.ofList
  globals.filter names.contains

/-! ### Accesses -/

/-- The first entry of a table that stands at the front of the text as a whole,
    with its index. -/
def entry (table : List String) (s : List Char) : Option (Nat × List Char) :=
  table.zipIdx.findSome? fun (name, i) =>
    (dropWord name.toList s).bind fun rest =>
      if rest.head?.any isWord then none else some (i, name.toList)

/-- A member access by a tabulated name, with its index. -/
def memberAccess : Recogniser Nat := fun _ s =>
  match s with
  | '.' :: cs => (entry members cs).map fun (i, name) => (i, name.length + 1)
  | _ => none

/-- An index in brackets. -/
def indexed (table : Char) (i : Nat) : List Char :=
  '$' :: table :: '[' :: (Nat.toDigits 10 i ++ [']'])

/-- Whether a tabulated global may follow this character. -/
def mayPrecede (c : Char) : Bool := !isWord c && c != '$' && c != '.'

/-- A tabulated global, with the character before it unless it starts the text;
    the value is that character, the index and the name. -/
def globalUse : Recogniser (Option Char × Nat × List Char) := fun before s =>
  let atStart :=
    if before.isNone then (entry globals s).map fun (i, name) => ((none, i, name), name.length)
    else none
  atStart.or <|
    match s with
    | c :: cs =>
      if mayPrecede c then
        (entry globals cs).map fun (i, name) => ((some c, i, name), name.length + 1)
      else none
    | [] => none

/-- What a use of a global is replaced by. -/
def globalText (shadowed : List String) (use : Option Char × Nat × List Char) : List Char :=
  use.1.toList
    ++ if shadowed.contains (String.ofList use.2.2) then use.2.2 else indexed 'g' use.2.1

/-- What a member access is replaced by. -/
def memberText (i : Nat) : List Char := '[' :: (indexed 'm' i ++ [']'])

/-- The declaration of both tables. -/
def declaration : String :=
  "var $g=[" ++ String.intercalate "," globals ++ "],$m=["
    ++ String.intercalate "," (members.map fun m => "\"" ++ m ++ "\"") ++ "];\n"

/-- The code after the declaration of the tables. -/
def body (s : List Char) : List Char :=
  let (text, literals) := Literal.protect s
  let uses := substitute globalUse (globalText (shadowed text)) (substitute memberAccess memberText text)
  Literal.restore literals uses

end NameTable

/-- Shortens code by the tables of names. -/
def shorten (code : String) : String :=
  NameTable.declaration ++ String.ofList (NameTable.body code.toList)

end PageTree
