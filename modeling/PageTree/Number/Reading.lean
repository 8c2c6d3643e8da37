/-
  PageTree/Number/Reading.lean
  ============================
  **Reading numbers.**

  A decimal text is an optional sign, digits with at most one point among them,
  and an optional exponent; it stands for the nearest binary number.  The words
  `NaN`, `Infinity` and `-Infinity` name the special values, and `0x` with
  sixteen hexadecimal digits gives a number by its bits.
-/

namespace PageTree.Number

def digit? (c : Char) : Option Nat :=
  if c.isDigit then some (c.toNat - '0'.toNat) else none

def hexDigit? (c : Char) : Option Nat :=
  if c.isDigit then some (c.toNat - '0'.toNat)
  else if 'a' ≤ c ∧ c ≤ 'f' then some (c.toNat - 'a'.toNat + 10)
  else if 'A' ≤ c ∧ c ≤ 'F' then some (c.toNat - 'A'.toNat + 10)
  else none

/-- The number written by digits, the most significant first. -/
def ofDigits (base : Nat) (ds : List Nat) : Nat := ds.foldl (fun n d => n * base + d) 0

/-- The nearest binary number to `n · 10^e`. -/
def nearest (n : Nat) (e : Int) : Float :=
  let size : Int := (Nat.toDigits 10 n).length + e
  if n == 0 || size < -400 then 0
  else if 400 < size then 1.0 / 0.0
  else if 0 ≤ e then Float.ofScientific n false e.toNat
  else Float.ofScientific n true (-e).toNat

/-- An optional sign and the text after it. -/
def takeSign : List Char → Bool × List Char
  | '-' :: cs => (true, cs)
  | '+' :: cs => (false, cs)
  | cs => (false, cs)

/-- An exponent part, of which nothing may be left; zero if there is none. -/
def exponentPart? : List Char → Option Int
  | [] => some 0
  | c :: cs =>
    if c == 'e' || c == 'E' then
      let (negative, ds) := takeSign cs
      if ds.isEmpty then none
      else (ds.mapM digit?).map fun ds =>
        let n : Int := ofDigits 10 ds
        if negative then -n else n
    else none

/-- A decimal without sign. -/
def unsigned? (cs : List Char) : Option Float := do
  let whole := cs.takeWhile Char.isDigit
  let rest := cs.dropWhile Char.isDigit
  let (fraction, rest) :=
    match rest with
    | '.' :: more => (more.takeWhile Char.isDigit, more.dropWhile Char.isDigit)
    | _ => ([], rest)
  if whole.isEmpty && fraction.isEmpty then none
  let e ← exponentPart? rest
  let ds ← (whole ++ fraction).mapM digit?
  return nearest (ofDigits 10 ds) (e - fraction.length)

def read? (s : String) : Option Float :=
  match s.toList with
  | '0' :: 'x' :: hex =>
    if hex.length == 16 then
      (hex.mapM hexDigit?).map fun ds => Float.ofBits (ofDigits 16 ds).toUInt64
    else none
  | cs =>
    if s == "NaN" then some (0.0 / 0.0)
    else
      let (negative, cs) := takeSign cs
      let magnitude := if cs == "Infinity".toList then some (1.0 / 0.0) else unsigned? cs
      magnitude.map fun x => if negative then -x else x

end PageTree.Number
