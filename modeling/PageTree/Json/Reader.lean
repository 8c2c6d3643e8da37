/-
  PageTree/Json/Reader.lean
  =========================
  **Reading structured data.**

  `readValue` reads one value off the front of a text; the fuel bounds its depth
  and length and is taken from the length of the text.  `read?` reads a whole
  text as it is written; `parse?` also brings the value into its normal form.
-/
import PageTree.Json.Printer

namespace PageTree.Json

open PageTree.Number

/-- The blanks that may stand between tokens. -/
def isGap (c : Char) : Bool := c == ' ' || c == '\n' || c == '\r' || c == '\t'

def skipGap (s : List Char) : List Char := s.dropWhile isGap

/-- Four hexadecimal digits at the front of a text. -/
def hex4? : List Char → Option (Nat × List Char)
  | a :: b :: c :: d :: cs => do
    return (ofDigits 16 [← hexDigit? a, ← hexDigit? b, ← hexDigit? c, ← hexDigit? d], cs)
  | _ => none

/-- The character of an escape sequence, after its backslash; characters beyond
    the first plane are written as two escapes. -/
def escape? : List Char → Option (Char × List Char)
  | '"' :: cs => some ('"', cs)
  | '\\' :: cs => some ('\\', cs)
  | '/' :: cs => some ('/', cs)
  | 'b' :: cs => some ('\x08', cs)
  | 'f' :: cs => some ('\x0c', cs)
  | 'n' :: cs => some ('\n', cs)
  | 'r' :: cs => some ('\r', cs)
  | 't' :: cs => some ('\t', cs)
  | 'u' :: cs => do
    let (n, cs) ← hex4? cs
    if 0xDC00 ≤ n && n ≤ 0xDFFF then none
    else if 0xD800 ≤ n && n ≤ 0xDBFF then
      match cs with
      | '\\' :: 'u' :: cs => do
        let (m, cs) ← hex4? cs
        if 0xDC00 ≤ m && m ≤ 0xDFFF then
          some (Char.ofNat (0x10000 + (n - 0xD800) * 0x400 + (m - 0xDC00)), cs)
        else none
      | _ => none
    else some (Char.ofNat n, cs)
  | _ => none

/-- The rest of a quoted string after its opening quote. -/
def readQuoted : Nat → List Char → Option (List Char × List Char)
  | 0, _ => none
  | _ + 1, [] => none
  | fuel + 1, c :: cs =>
    if c == '"' then some ([], cs)
    else if c == '\\' then do
      let (d, cs) ← escape? cs
      let (s, cs) ← readQuoted fuel cs
      return (d :: s, cs)
    else if c.toNat < 32 then none
    else do
      let (s, cs) ← readQuoted fuel cs
      return (c :: s, cs)

/-- The name of a field and the colon after it. -/
def readName (fuel : Nat) : List Char → Option (String × List Char)
  | '"' :: cs => do
    let (name, cs) ← readQuoted fuel cs
    match skipGap cs with
    | ':' :: cs => some (String.ofList name, cs)
    | _ => none
  | _ => none

mutual

/-- A value at the front of a text. -/
def readValue : Nat → List Char → Option (Json × List Char)
  | 0, _ => none
  | fuel + 1, s =>
    match skipGap s with
    | 'n' :: 'u' :: 'l' :: 'l' :: cs => some (.null, cs)
    | 't' :: 'r' :: 'u' :: 'e' :: cs => some (.bool true, cs)
    | 'f' :: 'a' :: 'l' :: 's' :: 'e' :: cs => some (.bool false, cs)
    | '"' :: cs => (readQuoted (fuel + 1) cs).map fun (s, cs) => (.string (String.ofList s), cs)
    | '[' :: cs =>
      match skipGap cs with
      | ']' :: cs => some (.array [], cs)
      | cs => do
        let (v, cs) ← readValue fuel cs
        let (vs, cs) ← readItems fuel cs
        return (.array (v :: vs), cs)
    | '\x7b' :: cs =>
      match skipGap cs with
      | '\x7d' :: cs => some (.object [], cs)
      | cs => do
        let (name, cs) ← readName fuel cs
        let (v, cs) ← readValue fuel cs
        let (fs, cs) ← readFields fuel cs
        return (.object ((name, v) :: fs), cs)
    | cs => (spanNumber cs).map fun (_, rest) =>
        (.number (.ofText (cs.take (cs.length - rest.length))), rest)

/-- The items of an array after the first, and its closing bracket. -/
def readItems : Nat → List Char → Option (List Json × List Char)
  | 0, _ => none
  | fuel + 1, s =>
    match skipGap s with
    | ']' :: cs => some ([], cs)
    | ',' :: cs => do
      let (v, cs) ← readValue fuel cs
      let (vs, cs) ← readItems fuel cs
      return (v :: vs, cs)
    | _ => none

/-- The fields of an object after the first, and its closing brace. -/
def readFields : Nat → List Char → Option (List (String × Json) × List Char)
  | 0, _ => none
  | fuel + 1, s =>
    match skipGap s with
    | '\x7d' :: cs => some ([], cs)
    | ',' :: cs => do
      let (name, cs) ← readName fuel (skipGap cs)
      let (v, cs) ← readValue fuel cs
      let (fs, cs) ← readFields fuel cs
      return ((name, v) :: fs, cs)
    | _ => none

end

/-- The value a whole text stands for, as it is written. -/
def read? (s : List Char) : Option Json :=
  match readValue (s.length + 1) s with
  | some (v, rest) => if (skipGap rest).isEmpty then some v else none
  | none => none

/-- The value a whole text stands for, in normal form. -/
def parse? (s : String) : Option Json := (read? s.toList).bind normal?

end PageTree.Json
