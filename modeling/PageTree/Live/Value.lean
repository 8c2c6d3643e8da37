/-
  PageTree/Live/Value.lean
  ========================
  **Values that components keep.**

  Whole numbers, texts and binary numbers.  A slot keeps the kind of value it
  was made with, so the kind of a value can be asked for.
-/
import PageTree.Json.Basic
import PageTree.Number.Layout

namespace PageTree.Live

inductive ValueKind where
  | int
  | text
  | float
deriving DecidableEq, Repr

inductive Value where
  | int (n : Int64)
  | text (s : String)
  | float (x : Float)

namespace Value

def kind : Value → ValueKind
  | int _ => .int
  | text _ => .text
  | float _ => .float

/-- Whether two values are of one kind and equal.  A binary number that is not a
    number equals nothing, the two zeros equal each other. -/
def same : Value → Value → Bool
  | int a, int b => a == b
  | text a, text b => a == b
  | float a, float b => a == b
  | _, _ => false

/-- The sum of whole numbers wraps around, texts are joined, binary numbers
    added; across kinds the first value stays. -/
def add : Value → Value → Value
  | int a, int b => int (a + b)
  | text a, text b => text (a ++ b)
  | float a, float b => float (a + b)
  | a, _ => a

def display : Value → String
  | int n => toString n.toInt
  | text s => s
  | float x => Number.text .plain x

def toJson : Value → Json
  | int n => .number (.ofInt n.toInt)
  | text s => .string s
  | float x => .ofFields [("f", .string (Number.text .plain x))]

end Value

end PageTree.Live
