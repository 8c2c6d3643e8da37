/-
  PageTree/Route/Pattern.lean
  ===========================
  **Route patterns.**

  A path is a list of segments: what stands between slashes, up to a query or a
  fragment, empty segments not counting.  A pattern is such a list in which
  `:name` stands for any one segment and `*` for any remainder; nothing after
  the `*` is looked at.  Matching a path captures what the parameters stand for,
  and reversing a pattern fills them in again.
-/
import PageTree.OrderedMap
import PageTree.Text.Blank

namespace PageTree

namespace Path

/-- The part of a path before a query or a fragment. -/
def bare (path : List Char) : List Char := path.takeWhile fun c => c != '?' && c != '#'

/-- Cuts a text at every slash. -/
def cutAtSlashes : List Char → List (List Char)
  | [] => [[]]
  | c :: cs =>
    match cutAtSlashes cs with
    | [] => [[c]]
    | s :: ss => if c == '/' then [] :: s :: ss else (c :: s) :: ss

def segments (path : String) : List String :=
  ((cutAtSlashes (bare path.toList)).filter (!·.isEmpty)).map String.ofList

def join (segments : List String) : String := String.intercalate "/" segments

def ofSegments (segments : List String) : String := "/" ++ join segments

/-- A text without slashes at its ends. -/
def trimSlashes (s : String) : String :=
  String.ofList (Text.dropTrailing (· == '/') (s.toList.dropWhile (· == '/')))

end Path

/-- What the parameters of a pattern stand for. -/
abbrev RouteParams := OrderedMap String

inductive Segment where
  /-- A segment that must be met as it is. -/
  | literal (text : String)
  /-- A segment that stands for any one segment of a path. -/
  | param (name : String)
deriving DecidableEq, Repr

namespace Segment

/-- Reads a segment: a colon in front of a name makes a parameter. -/
def parse (text : String) : Segment :=
  match text.toList with
  | ':' :: c :: cs => .param (String.ofList (c :: cs))
  | _ => .literal text

def score : Segment → Nat
  | literal _ => 2
  | param _ => 1

/-- Matches a segment of a path, adding what it captures. -/
def capture (params : RouteParams) : Segment → String → Option RouteParams
  | literal text, part => if text == part then some params else none
  | param name, part => some (params.insert name part)

/-- The segment with its parameter filled in. -/
def fill (params : RouteParams) : Segment → Option String
  | literal text => some text
  | param name => params.get? name

end Segment

/-- A pattern of paths. -/
structure RoutePattern where
  /-- The text the pattern was read from. -/
  source : String
  segments : List Segment
  /-- Whether any remainder may follow the segments. -/
  wildcard : Bool
deriving DecidableEq, Repr

namespace RoutePattern

/-- The name under which the remainder of a path is captured. -/
def remainderName : String := "*"

def parse (source : String) : RoutePattern :=
  let parts := Path.segments source
  { source
    segments := (parts.takeWhile (· != remainderName)).map Segment.parse
    wildcard := parts.contains remainderName }

/-- How specific the pattern is: two for a literal, one for a parameter. -/
def score (p : RoutePattern) : Nat := (p.segments.map Segment.score).foldr (· + ·) 0

/-- Matches segments of a path one by one; answers with what was captured and
    the remaining segments of the path. -/
def captureAll : RouteParams → List Segment → List String → Option (RouteParams × List String)
  | params, [], parts => some (params, parts)
  | _, _ :: _, [] => none
  | params, s :: ss, part :: parts => do captureAll (← s.capture params part) ss parts

/-- Matches a path and answers with what the parameters stand for. -/
def capture? (p : RoutePattern) (path : String) : Option RouteParams := do
  let (params, rest) ← captureAll ∅ p.segments (Path.segments path)
  if p.wildcard then some (params.insert remainderName (Path.join rest))
  else if rest.isEmpty then some params
  else none

/-- The segments that take the place of the wildcard. -/
def remainder (p : RoutePattern) (params : RouteParams) : List String :=
  match p.wildcard, params.get? remainderName with
  | true, some rest => if rest == "" then [] else [Path.trimSlashes rest]
  | _, _ => []

/-- The path with the parameters filled in; `none` if one of them is missing. -/
def reverse? (p : RoutePattern) (params : RouteParams) : Option String := do
  let parts ← p.segments.mapM (Segment.fill params)
  return Path.ofSegments (parts ++ p.remainder params)

end RoutePattern

end PageTree
