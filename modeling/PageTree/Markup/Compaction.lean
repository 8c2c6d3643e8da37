/-
  PageTree/Markup/Compaction.lean
  ===============================
  **Compaction of markup and scripts.**

  Comments are removed, runs of blanks become one blank, and blanks between tags
  or before the end of a self-closed tag are dropped.  String and template
  literals are taken out beforehand, each leaving a numbered placeholder, and
  put back at the end.
-/
import PageTree.Text.Blank
import PageTree.Text.Scan

namespace PageTree

open Text

namespace Literal

/-- The length of the rest of a literal after its opening quote, the closing
    quote included, on top of `n`.  A backslash takes the next character with
    it; a line break ends the attempt unless the literal may span lines. -/
def restLength (quote : Char) (spansLines : Bool) (n : Nat) : List Char → Option Nat
  | [] => none
  | '\\' :: c :: cs =>
    if c == '\n' && !spansLines then none else restLength quote spansLines (n + 2) cs
  | c :: cs =>
    if c == quote then some (n + 1)
    else if c == '\\' || (c == '\n' && !spansLines) then none
    else restLength quote spansLines (n + 1) cs

/-- String and template literals. -/
def recogniser : Recogniser Unit := fun _ s =>
  match s with
  | '"' :: cs => (restLength '"' false 1 cs).map (((), ·))
  | '\'' :: cs => (restLength '\'' false 1 cs).map (((), ·))
  | '`' :: cs => (restLength '`' true 1 cs).map (((), ·))
  | _ => none

/-- The characters around the number of a placeholder. -/
def opening : Char := '\ue000'
@[inherit_doc opening] def closing : Char := '\ue001'

def placeholder (n : Nat) : List Char := opening :: (Nat.toDigits 10 n ++ [closing])

/-- Replaces the literals among pieces by placeholders, the first number being
    `n`. -/
def number (n : Nat) : List (Piece Unit) → List Char
  | [] => []
  | .plain c :: ps => c :: number n ps
  | .hit _ _ :: ps => placeholder n ++ number (n + 1) ps

/-- The literals among pieces. -/
def lexemes : List (Piece Unit) → List (List Char)
  | [] => []
  | .plain _ :: ps => lexemes ps
  | .hit _ lexeme :: ps => lexeme :: lexemes ps

/-- The text with placeholders for its literals, and the literals. -/
def protect (s : List Char) : List Char × List (List Char) :=
  let pieces := scan recogniser s
  (number 0 pieces, lexemes pieces)

/-- The number written by decimal digits. -/
def numberOf (ds : List Char) : Nat := ds.foldl (fun n d => n * 10 + (d.toNat - '0'.toNat)) 0

/-- Placeholders, with their number and their length. -/
def placeholders : Recogniser Nat := fun _ s =>
  match s with
  | c :: cs =>
    let ds := cs.takeWhile Char.isDigit
    if c == opening && !ds.isEmpty && (cs.drop ds.length).head? == some closing then
      some (numberOf ds, ds.length + 2)
    else none
  | [] => none

/-- Puts the literal of a placeholder back; a number without literal stays. -/
def restorePiece (literals : List (List Char)) : Piece Nat → List Char
  | .plain c => [c]
  | .hit n lexeme => literals.getD n lexeme

/-- Puts literals back for their placeholders. -/
def restore (literals : List (List Char)) (s : List Char) : List Char :=
  (scan placeholders s).flatMap (restorePiece literals)

end Literal

namespace Compaction

/-- The length of a text from an opening to the next closing mark, both
    included. -/
def enclosed (opens closes : List Char) : Recogniser Unit := fun _ s =>
  (dropWord opens s).bind fun rest =>
    (cutAt closes rest).map fun (inner, _) => ((), opens.length + inner.length + closes.length)

/-- Removes what stands between two marks, marks included. -/
def dropEnclosed (opens closes : List Char) (s : List Char) : List Char :=
  substitute (enclosed opens closes) (fun _ => []) s

/-- Comments up to the end of a line: two slashes at the start of a line, or
    after a character that is neither a colon nor a backslash, which is the
    value. -/
def lineComment : Recogniser (Option Char) := fun before s =>
  let toLineEnd (s : List Char) : Nat := (s.takeWhile (· != '\n')).length
  let atLineStart := before.all (· == '\n')
  match s with
  | '/' :: '/' :: rest =>
    if atLineStart then some (none, 2 + toLineEnd rest)
    else match rest with
      | '/' :: more => some (some '/', 3 + toLineEnd more)
      | _ => none
  | c :: '/' :: '/' :: rest =>
    if c != ':' && c != '\\' then some (some c, 3 + toLineEnd rest) else none
  | _ => none

def dropLineComments (s : List Char) : List Char := substitute lineComment Option.toList s

/-- Runs of blanks. -/
def blankRun : Recogniser Unit := fun _ s =>
  match (s.takeWhile isBlank).length with
  | 0 => none
  | n => some ((), n)

def collapseBlanks (s : List Char) : List Char := substitute blankRun (fun _ => [' ']) s

/-- Blanks between the end of a tag and the start of the next, brackets
    included. -/
def betweenTags : Recogniser Unit := fun _ s =>
  match s with
  | '>' :: cs =>
    let n := (cs.takeWhile isBlank).length
    if 0 < n && (cs.drop n).head? == some '<' then some ((), n + 2) else none
  | _ => none

/-- Drops the blanks between tags. -/
def joinTags (s : List Char) : List Char := substitute betweenTags (fun _ => ['>', '<']) s

/-- Blanks before the end of a self-closed tag, the end included. -/
def beforeSelfClose : Recogniser Unit := fun _ s =>
  let n := (s.takeWhile isBlank).length
  if 0 < n && (dropWord ['/', '>'] (s.drop n)).isSome then some ((), n + 2) else none

/-- Drops the blanks before the end of self-closed tags. -/
def tightenSelfClose (s : List Char) : List Char :=
  substitute beforeSelfClose (fun _ => ['/', '>']) s

/-- Removes the comments of a text without literals. -/
def dropComments (s : List Char) : List Char :=
  dropLineComments
    (dropEnclosed "/*".toList "*/".toList (dropEnclosed "<!--".toList "-->".toList s))

/-- Tightens the blanks of a text without literals and comments. -/
def tighten (s : List Char) : List Char :=
  trim (tightenSelfClose (joinTags (collapseBlanks s)))

def run (s : List Char) : List Char :=
  let (text, literals) := Literal.protect s
  Literal.restore literals (tighten (dropComments text))

end Compaction

/-- Compacts markup or script source. -/
def compact (s : String) : String := String.ofList (Compaction.run s.toList)

end PageTree
