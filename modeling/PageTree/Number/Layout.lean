/-
  PageTree/Number/Layout.lean
  ===========================
  **How numbers are written.**

  A layout says which decimal exponents are written positionally, whether whole
  numbers carry `.0` or all their digits, how an exponent is signed and how the
  special values read.  The digits are always the shortest ones that read back;
  only whole numbers of a layout with `exactWhole` show all their digits.
-/
import PageTree.Number.Shortest

namespace PageTree.Number

/-- A way to write numbers.  With a number `d.ddd · 10^e`, positional notation is
    used for `least ≤ e ≤ most`. -/
structure Layout where
  least : Int
  most : Int
  /-- Whole numbers written positionally end in `.0`. -/
  pointZero : Bool
  /-- Whole numbers written positionally show their exact digits. -/
  exactWhole : Bool
  /-- A positive exponent carries a plus sign. -/
  plusSign : Bool
  /-- A negative zero shows its sign. -/
  signedZero : Bool
  infinity : String
  /-- Which of two equally near shortest decimals is written. -/
  tie : Tie

/-- Numbers in attribute values and text: a script's own string form. -/
def Layout.script : Layout := ⟨-6, 20, false, true, true, false, "Infinity", .away⟩

/-- Numbers in structured data. -/
def Layout.data : Layout := ⟨-5, 15, true, false, true, true, "inf", .even⟩

/-- Numbers in running text: always positional. -/
def Layout.plain : Layout := ⟨-400, 400, false, false, false, true, "inf", .away⟩

/-- Numbers in outlines. -/
def Layout.outline : Layout := ⟨-4, 15, true, false, false, true, "inf", .away⟩

def zeros (n : Nat) : List Char := List.replicate n '0'

def digitsOf (n : Nat) : List Char := Nat.toDigits 10 n

def positional (L : Layout) (d : Decimal) : List Char :=
  let ds := digitsOf d.digits
  if 0 ≤ d.exponent then
    ds ++ zeros d.exponent.toNat ++ (if L.pointZero then ['.', '0'] else [])
  else
    let places := (-d.exponent).toNat
    if places < ds.length then
      ds.take (ds.length - places) ++ '.' :: ds.drop (ds.length - places)
    else '0' :: '.' :: (zeros (places - ds.length) ++ ds)

def scientific (L : Layout) (d : Decimal) : List Char :=
  let ds := digitsOf d.digits
  let e := d.exponent + ds.length - 1
  let sign := if e < 0 then ['-'] else if L.plusSign then ['+'] else []
  ds.take 1 ++ (if ds.length ≤ 1 then [] else '.' :: ds.drop 1)
    ++ 'e' :: (sign ++ digitsOf e.natAbs)

/-- A positive binary number. -/
def magnitude (L : Layout) (b : Binary) : List Char :=
  let d := b.shortest L.tie
  let e := d.exponent + (digitsOf d.digits).length - 1
  if L.least ≤ e ∧ e ≤ L.most then
    match L.exactWhole, b.whole? with
    | true, some n => digitsOf n
    | _, _ => positional L d
  else scientific L d

def text (L : Layout) (x : Float) : String :=
  match Binary.ofFloat x with
  | none =>
    if x.isNaN then "NaN" else if x < 0 then "-" ++ L.infinity else L.infinity
  | some b =>
    let sign := if b.negative && (L.signedZero || b.significand != 0) then ['-'] else []
    let body :=
      if b.significand == 0 then (if L.pointZero then ['0', '.', '0'] else ['0'])
      else magnitude L b
    String.ofList (sign ++ body)

end PageTree.Number
