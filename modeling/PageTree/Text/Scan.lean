/-
  PageTree/Text/Scan.lean
  =======================
  **Scanning a text for the places where a recogniser succeeds.**

  A recogniser looks at one position of a text, given the character before it
  and the characters from there on, and answers with a value and the number of
  characters it reads.  `scan` tries the recogniser from left to right, skips
  what it reads and cuts the text into the characters it passed over and the
  hits.  Hits never overlap, the leftmost one comes first, and nothing is lost:
  the sources of the pieces make up the text again (`sources_scan`).
-/

namespace PageTree.Text

/-- What is recognised at a position: a value and the number of characters
    read; reading no character counts as a failure. -/
abbrev Recogniser (α : Type) := Option Char → List Char → Option (α × Nat)

/-- A piece of a scanned text. -/
inductive Piece (α : Type) where
  | plain (c : Char)
  | hit (value : α) (lexeme : List Char)
deriving DecidableEq, Repr

namespace Piece

variable {α : Type}

/-- The characters the piece was cut from. -/
def source : Piece α → List Char
  | plain c => [c]
  | hit _ lexeme => lexeme

/-- The characters that replace the piece under a substitution of the hits. -/
def replaceWith (f : α → List Char) : Piece α → List Char
  | plain c => [c]
  | hit a _ => f a

/-- The value of a hit. -/
def value? : Piece α → Option α
  | plain _ => none
  | hit a _ => some a

end Piece

variable {α : Type}

/-- Scans a text of which `skip` further characters belong to the last hit;
    `before` is the character in front of the text. -/
def scanFrom (r : Recogniser α) : Option Char → Nat → List Char → List (Piece α)
  | _, _, [] => []
  | _, skip + 1, c :: cs => scanFrom r (some c) skip cs
  | before, 0, c :: cs =>
    match r before (c :: cs) with
    | some (a, n + 1) => .hit a (c :: cs.take n) :: scanFrom r (some c) n cs
    | _ => .plain c :: scanFrom r (some c) 0 cs

/-- Cuts a text into pieces. -/
def scan (r : Recogniser α) (s : List Char) : List (Piece α) := scanFrom r none 0 s

/-- Replaces every hit by `f` of its value. -/
def substitute (r : Recogniser α) (f : α → List Char) (s : List Char) : List Char :=
  (scan r s).flatMap (·.replaceWith f)

/-- The values of the hits, from left to right. -/
def findAll (r : Recogniser α) (s : List Char) : List α :=
  (scan r s).filterMap (·.value?)

/-! ### Reading at a position -/

/-- Drops `word` from the front of the text, if it is there. -/
def dropWord : List Char → List Char → Option (List Char)
  | [], s => some s
  | _ :: _, [] => none
  | w :: ws, c :: cs => if w == c then dropWord ws cs else none

/-- The ASCII lower-case letter that a character counts as when case is ignored:
    besides the upper-case letters, the long s counts as `s` and the Kelvin sign
    as `k`. -/
def foldAscii (c : Char) : Char :=
  if c == 'ſ' then 's' else if c == '\u212a' then 'k' else c.toLower

/-- Drops `word`, which is in lower case, from the front of the text, ignoring
    the case of the text. -/
def dropWordIgnoringCase : List Char → List Char → Option (List Char)
  | [], s => some s
  | _ :: _, [] => none
  | w :: ws, c :: cs => if w == foldAscii c then dropWordIgnoringCase ws cs else none

/-- The text up to the first occurrence of `stop` and the text after it. -/
def cutAt (stop : List Char) : List Char → Option (List Char × List Char)
  | [] => if stop.isEmpty then some ([], []) else none
  | c :: cs =>
    match dropWord stop (c :: cs) with
    | some rest => some ([], rest)
    | none => (cutAt stop cs).map fun (front, rest) => (c :: front, rest)

/-! ### Laws of scanning -/

theorem sources_scanFrom (r : Recogniser α) (before : Option Char) (skip : Nat) (s : List Char) :
    (scanFrom r before skip s).flatMap Piece.source = s.drop skip := by
  induction s generalizing before skip with
  | nil => cases skip <;> simp [scanFrom]
  | cons c cs ih =>
    cases skip with
    | succ k => simpa [scanFrom] using ih (some c) k
    | zero =>
      simp only [scanFrom]
      split
      · next a n _ => simp [Piece.source, ih]
      · simp [Piece.source, ih]

theorem sources_scan (r : Recogniser α) (s : List Char) :
    (scan r s).flatMap Piece.source = s :=
  sources_scanFrom r none 0 s

theorem dropWord_eq_some_iff {word s rest : List Char} :
    dropWord word s = some rest ↔ s = word ++ rest := by
  induction word generalizing s with
  | nil => simp [dropWord]
  | cons w ws ih =>
    cases s with
    | nil => simp [dropWord]
    | cons c cs =>
      simp only [dropWord, List.cons_append, List.cons.injEq, beq_iff_eq]
      split
      · next h => simp [ih, h]
      · next h => simp [Ne.symm h]

theorem eq_of_cutAt {stop s front rest : List Char} (h : cutAt stop s = some (front, rest)) :
    s = front ++ stop ++ rest := by
  induction s generalizing front with
  | nil =>
    cases stop with
    | nil => simp_all [cutAt]
    | cons => simp [cutAt] at h
  | cons c cs ih =>
    simp only [cutAt] at h
    split at h
    · next hd =>
      obtain ⟨rfl, rfl⟩ := by simpa using h
      simpa using dropWord_eq_some_iff.1 hd
    · obtain ⟨⟨f, r⟩, hf, hp⟩ := Option.map_eq_some_iff.1 h
      obtain ⟨rfl, rfl⟩ := by simpa using hp
      simpa using ih hf

end PageTree.Text
