/-
  PageTree/Outline.lean
  =====================
  **One-line outlines of values.**

  An outline shows the structure of a value on one line: constructors with
  their arguments in parentheses, records with their fields in braces, lists in
  brackets, texts quoted.  It is meant for diagnostics, so a quoted text spells
  out the characters that do not show.
-/
import PageTree.Text.Shown

namespace PageTree.Outline

def quoteChar (c : Char) : List Char :=
  if c == '"' then ['\\', '"']
  else if c == '\\' then ['\\', '\\']
  else if c == '\n' then ['\\', 'n']
  else if c == '\r' then ['\\', 'r']
  else if c == '\t' then ['\\', 't']
  else if c == '\x00' then ['\\', '0']
  else if Text.isShown c then [c]
  else '\\' :: 'u' :: '\x7b' :: (Nat.toDigits 16 c.toNat ++ ['\x7d'])

def quote (s : String) : String :=
  "\"" ++ String.ofList (s.toList.flatMap quoteChar) ++ "\""

/-- A constructor with one argument. -/
def call (name argument : String) : String := name ++ "(" ++ argument ++ ")"

def list (items : List String) : String := "[" ++ String.intercalate ", " items ++ "]"

/-- A record with named fields. -/
def record (name : String) (fields : List (String × String)) : String :=
  name ++ " \x7b " ++ String.intercalate ", " (fields.map fun (f, v) => f ++ ": " ++ v) ++ " \x7d"

def option : Option String → String
  | none => "None"
  | some s => call "Some" s

def bool (b : Bool) : String := if b then "true" else "false"

def map (entries : List (String × String)) : String :=
  "\x7b" ++ String.intercalate ", " (entries.map fun (k, v) => quote k ++ ": " ++ quote v) ++ "\x7d"

def optionalText (s : Option String) : String := option (s.map quote)

end PageTree.Outline
