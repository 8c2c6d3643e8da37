/-
  PageTree/Text/CharSet.lean
  ==========================
  **Sets of characters as sorted boundaries.**

  A set of code points that is a union of a few hundred intervals is written as
  the sorted list of the code points at which membership changes: the first
  boundary opens an interval, the second one closes it, and so on.  Membership
  walks the list and turns the answer over at every boundary passed.
-/

namespace PageTree.Text

/-- A set of characters given by the code points at which membership changes. -/
structure CharSet where
  bounds : List Nat
deriving DecidableEq, Repr

namespace CharSet

/-- Membership of the code point `n`, given whether the text of boundaries
    passed so far leaves us inside the set. -/
def insideFrom (inside : Bool) (n : Nat) : List Nat → Bool
  | [] => inside
  | b :: bs => if n < b then inside else insideFrom (!inside) n bs

def contains (s : CharSet) (c : Char) : Bool :=
  insideFrom false c.toNat s.bounds

end CharSet

end PageTree.Text
