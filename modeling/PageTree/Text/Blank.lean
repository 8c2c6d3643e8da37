/-
  PageTree/Text/Blank.lean
  ========================
  **Blank characters and trimming.**

  A character is blank when it has the Unicode property White_Space.  Trimming
  works on character lists and drops blanks from either end.
-/

namespace PageTree.Text

/-- The characters with the property White_Space. -/
def isBlank (c : Char) : Bool :=
  let n := c.toNat
  n == 32 || (9 ≤ n && n ≤ 13) || n == 0x85 || n == 0xA0 || n == 0x1680
    || (0x2000 ≤ n && n ≤ 0x200A) || n == 0x2028 || n == 0x2029 || n == 0x202F
    || n == 0x205F || n == 0x3000

def trimStart (s : List Char) : List Char := s.dropWhile isBlank

/-- Drops trailing characters satisfying `p`. -/
def dropTrailing (p : Char → Bool) : List Char → List Char
  | [] => []
  | c :: cs =>
    match dropTrailing p cs with
    | [] => if p c then [] else [c]
    | d :: ds => c :: d :: ds

def trimEnd (s : List Char) : List Char := dropTrailing isBlank s

def trim (s : List Char) : List Char := trimEnd (trimStart s)

/-! ### Laws of trimming -/

theorem dropTrailing_prefix (p : Char → Bool) (s : List Char) : dropTrailing p s <+: s := by
  induction s with
  | nil => exact List.prefix_rfl
  | cons c cs ih =>
    unfold dropTrailing
    split
    · split
      · exact List.nil_prefix
      · simp
    · next d ds h =>
      rw [h] at ih
      exact (List.prefix_cons_inj c).2 ih

theorem dropTrailing_append_singleton (p : Char → Bool) (s : List Char) (c : Char) :
    dropTrailing p (s ++ [c]) = if p c then dropTrailing p s else s ++ [c] := by
  induction s with
  | nil => simp [dropTrailing]
  | cons d ds ih =>
    simp only [List.cons_append, dropTrailing, ih]
    by_cases h : p c
    · simp [h]
    · simp only [h]
      cases ds <;> simp

end PageTree.Text
