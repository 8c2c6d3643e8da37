/-
  PageTree/ElementId.lean
  =======================
  **Generated element ids.**

  An element without an `id` of its own gets a generated one of sixteen symbols.
  Ids come from a supply: an endless sequence of which every element takes the
  next entry.  `ElementId.supply` spreads consecutive numbers over all texts of
  sixteen symbols, so that different numbers give different ids.
-/

namespace PageTree

/-- The symbols generated ids are made of. -/
inductive IdAlphabet where
  /-- `A-Z`, `a-z` and `0-9`. -/
  | alphanumeric
  /-- The alphanumeric symbols, `-` and `_`. -/
  | extended
deriving DecidableEq, Repr, Inhabited

namespace IdAlphabet

def symbols : IdAlphabet → List Char
  | alphanumeric => "ABCDEFGHIJKLMNOPQRSTUVWXYZabcdefghijklmnopqrstuvwxyz0123456789".toList
  | extended => "ABCDEFGHIJKLMNOPQRSTUVWXYZabcdefghijklmnopqrstuvwxyz0123456789-_".toList

end IdAlphabet

namespace ElementId

def length : Nat := 16

/-- The lowest `count` digits of `n` in base `base`, the lowest first. -/
def digits (base n : Nat) : Nat → List Nat
  | 0 => []
  | count + 1 => n % base :: digits base (n / base) count

/-- The id of a number below `symbols ^ 16`. -/
def ofNat (a : IdAlphabet) (n : Nat) : String :=
  let symbols := a.symbols
  String.ofList ((digits symbols.length n length).map fun d => symbols.getD d 'A')

/-- The `n`-th generated id.  The factor shares no divisor with the number of
    symbols, so different numbers below `symbols ^ 16` stay different. -/
def supply (a : IdAlphabet) (n : Nat) : String :=
  ofNat a ((n * 25214903917836483 + 7319283746501928374651) % Nat.pow a.symbols.length length)

end ElementId

end PageTree
