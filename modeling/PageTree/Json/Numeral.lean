/-
  PageTree/Json/Numeral.lean
  ==========================
  **Number tokens of structured data.**

  A number in structured data is kept as its text.  The grammar allows a minus
  sign, digits without a superfluous leading zero, a fraction and an exponent.
  `Numeral.normal` gives the text a number is written back with: whole numbers
  of the 64-bit ranges keep their digits, all others become binary numbers and
  are written with the shortest digits.
-/
import PageTree.Number.Layout
import PageTree.Number.Reading

namespace PageTree.Json

open PageTree.Number

/-- Cuts digits off the front of a text. -/
def spanDigits (s : List Char) : List Char × List Char :=
  (s.takeWhile Char.isDigit, s.dropWhile Char.isDigit)

/-- The whole part at the front of a text: one zero, or digits that do not start
    with a zero. -/
def spanWhole : List Char → Option (List Char × List Char)
  | '0' :: cs => some (['0'], cs)
  | cs => if (spanDigits cs).1.isEmpty then none else some (spanDigits cs)

/-- A fraction at the front of a text, empty if there is no point. -/
def spanFraction : List Char → Option (List Char × List Char)
  | '.' :: cs => if (spanDigits cs).1.isEmpty then none else some (spanDigits cs)
  | cs => some ([], cs)

/-- The exponent at the front of a text, if there is one: its sign and digits. -/
def spanExponent : List Char → Option (Option (Bool × List Char) × List Char)
  | c :: cs =>
    if c == 'e' || c == 'E' then
      let (negative, rest) := takeSign cs
      if (spanDigits rest).1.isEmpty then none
      else some (some (negative, (spanDigits rest).1), (spanDigits rest).2)
    else some (none, c :: cs)
  | [] => some (none, [])

/-- The parts of a number. -/
structure Parts where
  negative : Bool
  whole : List Char
  fraction : List Char
  exponent : Option (Bool × List Char)
deriving DecidableEq, Repr

/-- The number at the front of a text, by its parts, and the text after it. -/
def spanNumber (s : List Char) : Option (Parts × List Char) := do
  let (negative, s) := match s with
    | '-' :: cs => (true, cs)
    | cs => (false, cs)
  let (whole, s) ← spanWhole s
  let (fraction, s) ← spanFraction s
  let (exponent, s) ← spanExponent s
  return (⟨negative, whole, fraction, exponent⟩, s)

/-- Whether the whole text is a number. -/
def isNumeral (s : List Char) : Bool := (spanNumber s).any fun p => p.2.isEmpty

/-- A number token: a text that is a number. -/
structure Numeral where
  lexeme : List Char
  valid : isNumeral lexeme = true
deriving DecidableEq

namespace Numeral

def zero : Numeral := ⟨['0'], rfl⟩

/-- The numeral with the given text; `0` if it is none. -/
def ofText (s : List Char) : Numeral :=
  if h : isNumeral s = true then ⟨s, h⟩ else zero

def ofInt (n : Int) : Numeral :=
  ofText ((if n < 0 then ['-'] else []) ++ digitsOf n.natAbs)

/-- The numeral of a binary number, `none` for the special values. -/
def ofFloat? (x : Float) : Option Numeral :=
  if (Binary.ofFloat x).isSome then some (ofText (text .data x).toList) else none

def parts (n : Numeral) : Parts :=
  ((spanNumber n.lexeme).map (·.1)).getD ⟨false, ['0'], [], none⟩

/-- The whole number, if the numeral has neither fraction nor exponent. -/
def int? (n : Numeral) : Option Int :=
  let p := n.parts
  if p.fraction.isEmpty && p.exponent.isNone then
    let m : Int := ofDigits 10 (p.whole.filterMap digit?)
    some (if p.negative then -m else m)
  else none

end Numeral

/-! ### The binary value of a numeral

Digits are gathered into a 64-bit significand; digits beyond it only count for
the exponent, or not at all behind the point.  The significand is then scaled by
one power of ten. -/

/-- Gathers the digits of the whole part, counting those that no longer fit. -/
def gatherWhole : Nat → Nat → List Nat → Nat × Nat
  | n, dropped, [] => (n, dropped)
  | n, dropped, d :: ds =>
    if dropped == 0 && n * 10 + d < 2 ^ 64 then gatherWhole (n * 10 + d) 0 ds
    else gatherWhole n (dropped + 1) ds

/-- Gathers the digits of the fraction up to the first that does not fit, and
    counts them. -/
def gatherFraction : Nat → Nat → List Nat → Nat × Nat
  | n, taken, [] => (n, taken)
  | n, taken, d :: ds =>
    if n * 10 + d < 2 ^ 64 then gatherFraction (n * 10 + d) (taken + 1) ds else (n, taken)

/-- `x` times `10^e`; far below the smallest number the scaling is done in steps
    of `10^308`.  `none` if the result is too large. -/
def scale (x : Float) (e : Int) : Nat → Option Float
  | 0 => some 0
  | steps + 1 =>
    if e.natAbs ≤ 308 then
      let power := Float.ofScientific 1 false e.natAbs
      if 0 ≤ e then
        let y := x * power
        if y.isInf then none else some y
      else some (x / power)
    else if x == 0 then some x
    else if 0 ≤ e then none
    else scale (x / Float.ofScientific 1 false 308) (e + 308) steps

/-- The binary number of a numeral, `none` if it is out of range. -/
def Numeral.float? (n : Numeral) : Option Float :=
  let p := n.parts
  let (whole, dropped) := gatherWhole 0 0 (p.whole.filterMap digit?)
  let (significand, taken) := gatherFraction whole 0 (p.fraction.filterMap digit?)
  let shift : Int := match p.exponent with
    | none => 0
    | some (negative, ds) =>
      let e : Int := ofDigits 10 (ds.filterMap digit?)
      if negative then -e else e
  let e : Int := (dropped : Int) - taken + shift
  let clipped : Int := if e < -100000 then -100000 else e
  (scale significand.toUInt64.toFloat clipped 400).map fun x => if p.negative then -x else x

/-- The numeral a number is written back with, `none` if it is out of range. -/
def Numeral.normal? (n : Numeral) : Option Numeral :=
  match n.int? with
  | some i =>
    let negativeZero := i == 0 && n.parts.negative
    -- whole numbers from -2^63 up to 2^64 are kept exactly
    if !negativeZero && (-9223372036854775808 : Int) ≤ i && i < (18446744073709551616 : Int) then
      some (ofInt i)
    else n.float?.bind ofFloat?
  | none => n.float?.bind ofFloat?

end PageTree.Json
