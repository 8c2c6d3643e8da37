/-
  PageTree/Json/Printer.lean
  ==========================
  **The compact text of structured data.**

  No blanks are written.  In strings the quote, the backslash and the control
  characters below U+0020 are escaped, everything else stands for itself.
-/
import PageTree.Json.Basic

namespace PageTree.Json

def hexDigit (n : Nat) : Char := if n < 10 then Char.ofNat (48 + n) else Char.ofNat (87 + n)

/-- A character inside a quoted string. -/
def quoteChar (c : Char) : List Char :=
  if c == '"' then ['\\', '"']
  else if c == '\\' then ['\\', '\\']
  else if c == '\x08' then ['\\', 'b']
  else if c == '\x0c' then ['\\', 'f']
  else if c == '\n' then ['\\', 'n']
  else if c == '\r' then ['\\', 'r']
  else if c == '\t' then ['\\', 't']
  else if c.toNat < 32 then ['\\', 'u', '0', '0', hexDigit (c.toNat / 16), hexDigit (c.toNat % 16)]
  else [c]

def quote (s : List Char) : List Char := '"' :: (s.flatMap quoteChar ++ ['"'])

mutual

/-- The compact text of a value. -/
def print : Json → List Char
  | .null => ['n', 'u', 'l', 'l']
  | .bool true => ['t', 'r', 'u', 'e']
  | .bool false => ['f', 'a', 'l', 's', 'e']
  | .number n => n.lexeme
  | .string s => quote s.toList
  | .array [] => ['[', ']']
  | .array (v :: vs) => '[' :: (print v ++ printItems vs)
  | .object [] => ['\x7b', '\x7d']
  | .object ((name, v) :: fs) => '\x7b' :: (quote name.toList ++ ':' :: (print v ++ printFields fs))

/-- The items of an array after the first, and the closing bracket. -/
def printItems : List Json → List Char
  | [] => [']']
  | v :: vs => ',' :: (print v ++ printItems vs)

/-- The fields of an object after the first, and the closing brace. -/
def printFields : List (String × Json) → List Char
  | [] => ['\x7d']
  | (name, v) :: fs => ',' :: (quote name.toList ++ ':' :: (print v ++ printFields fs))

end

def compact (v : Json) : String := String.ofList (print v)

end PageTree.Json
