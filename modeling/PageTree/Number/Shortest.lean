/-
  PageTree/Number/Shortest.lean
  =============================
  **The shortest decimal that reads back.**

  A finite binary number is `m · 2^q`.  The reals that round to it form an
  interval around it, closed exactly when `m` is even.  Among the decimal grids
  `10^p`, from the coarsest to the finest, the first one with a point in that
  interval gives the fewest digits; of its two points next to the number the
  nearer one is taken, and halfway between them a rule decides.
-/

namespace PageTree.Number

/-- A finite binary number `± significand · 2^exponent`; `edge` marks a power of
    two whose lower neighbour is only half as far away as the upper one. -/
structure Binary where
  negative : Bool
  significand : Nat
  exponent : Int
  edge : Bool
deriving DecidableEq, Repr

/-- The binary number of `x`, `none` for infinities and for what is no number. -/
def Binary.ofFloat (x : Float) : Option Binary :=
  let bits := x.toBits.toNat
  let negative := bits / Nat.pow 2 63 == 1
  let field : Nat := bits / Nat.pow 2 52 % Nat.pow 2 11
  let fraction := bits % Nat.pow 2 52
  if field == 2047 then none
  else if field == 0 then some ⟨negative, fraction, -1074, false⟩
  else some ⟨negative, Nat.pow 2 52 + fraction, (field : Int) - 1075, fraction == 0 && 1 < field⟩

/-- Which of two equally near decimals is taken. -/
inductive Tie where
  /-- The larger magnitude. -/
  | away
  /-- The one with the even last digit. -/
  | even
deriving DecidableEq, Repr

/-- Whether the lower of two neighbours is taken, given the distances to both. -/
def Tie.takesLower (tie : Tie) (lower toLower toUpper : Nat) : Bool :=
  if toLower == toUpper then
    match tie with
    | away => false
    | even => lower % 2 == 0
  else toLower < toUpper

/-- A decimal `digits · 10^exponent`. -/
structure Decimal where
  digits : Nat
  exponent : Int
deriving DecidableEq, Repr

namespace Binary

/-- `2^(exponent - 2)` as a fraction; the number and the ends of its interval are
    whole multiples of it. -/
def unit (b : Binary) : Nat × Nat :=
  let e := b.exponent - 2
  (Nat.pow 2 e.toNat, Nat.pow 2 (-e).toNat)

/-- The points next to the number on the grid `10^p`, if they round to it; of two
    the nearer. -/
def onGrid (tie : Tie) (b : Binary) (p : Int) : Option Decimal :=
  let num := b.unit.1 * Nat.pow 10 (-p).toNat
  let den := b.unit.2 * Nat.pow 10 p.toNat
  let value := 4 * b.significand * num
  let low := (4 * b.significand - (if b.edge then 1 else 2)) * num
  let high := (4 * b.significand + 2) * num
  let d := value / den
  let closed := b.significand % 2 == 0
  let below := low < d * den || (closed && low == d * den)
  let above := (d + 1) * den < high || (closed && (d + 1) * den == high)
  match below, above with
  | true, true =>
    if tie.takesLower d (value - d * den) ((d + 1) * den - value) then some ⟨d, p⟩ else some ⟨d + 1, p⟩
  | true, false => some ⟨d, p⟩
  | false, true => some ⟨d + 1, p⟩
  | false, false => none

/-- The shortest decimal of the magnitude of a number other than zero.  No
    binary number needs a grid coarser than `10^310` or finer than `10^-345`. -/
def shortest (tie : Tie) (b : Binary) : Decimal :=
  ((List.range 656).findSome? fun (k : Nat) => b.onGrid tie (310 - (k : Int))).getD ⟨0, 0⟩

/-- The magnitude, if it is a whole number. -/
def whole? (b : Binary) : Option Nat :=
  if 0 ≤ b.exponent then some (b.significand * Nat.pow 2 b.exponent.toNat)
  else
    let den := Nat.pow 2 (-b.exponent).toNat
    if b.significand % den == 0 then some (b.significand / den) else none

end Binary

end PageTree.Number
