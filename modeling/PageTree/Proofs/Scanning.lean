/-
  PageTree/Proofs/Scanning.lean
  =============================
  **Scanning step by step.**

  What a scan does next depends on what is recognised at the front of the text:
  nothing, and then one character is passed over, or something that is read as a
  whole.

    * `substituteFrom_miss`, `substituteFrom_hit`: a rewriting by one step;
    * `mem_scanFrom_or_covered`: what is recognised somewhere is found, unless the
      place lies inside an earlier hit;
    * `scan_miss`, `scan_hit`: a scan that does not look back.
-/
import Mathlib
import PageTree.Text.Blank
import PageTree.Text.Scan

namespace PageTree.Text

variable {α : Type}

/-! ### Rewriting the rest of a text -/

/-- Replaces the hits in the rest of a text, given the character before it. -/
def substituteFrom (r : Recogniser α) (f : α → List Char) (before : Option Char)
    (s : List Char) : List Char :=
  (scanFrom r before 0 s).flatMap (·.replaceWith f)

/-- After a hit, scanning goes on with the rest. -/
theorem exists_scanFrom_drop (r : Recogniser α) (before : Option Char) (n : Nat) (s : List Char) :
    ∃ b, scanFrom r before n s = scanFrom r b 0 (s.drop n) := by
  induction s generalizing before n with
  | nil => exact ⟨none, by cases n <;> simp [scanFrom]⟩
  | cons c cs ih =>
    cases n with
    | zero => exact ⟨before, rfl⟩
    | succ n => exact ih (some c) n

theorem substituteFrom_miss {r : Recogniser α} {before : Option Char} {c : Char} {cs : List Char}
    (miss : r before (c :: cs) = none) (f : α → List Char) :
    substituteFrom r f before (c :: cs) = c :: substituteFrom r f (some c) cs := by
  simp [substituteFrom, scanFrom, miss, Piece.replaceWith]

theorem substituteFrom_hit {r : Recogniser α} {before : Option Char} {c : Char} {cs : List Char}
    {a : α} {n : Nat} (hit : r before (c :: cs) = some (a, n + 1)) (f : α → List Char) :
    ∃ b, substituteFrom r f before (c :: cs) = f a ++ substituteFrom r f b (cs.drop n) := by
  obtain ⟨b, rest⟩ := exists_scanFrom_drop r (some c) n cs
  exact ⟨b, by simp [substituteFrom, scanFrom, hit, Piece.replaceWith, rest]⟩

/-! ### Hits -/

/-- What is found was recognised somewhere. -/
theorem exists_of_mem_scanFrom {r : Recogniser α} {before : Option Char} {skip : Nat}
    {s lexeme : List Char} {a : α} (h : .hit a lexeme ∈ scanFrom r before skip s) :
    ∃ b t n, r b t = some (a, n) ∧ lexeme = t.take n := by
  induction s generalizing before skip with
  | nil => cases skip <;> cases h
  | cons c cs ih =>
    cases skip with
    | succ skip => exact ih h
    | zero =>
      unfold scanFrom at h
      split at h
      · next a' n found =>
        rcases List.mem_cons.1 h with same | later
        · obtain ⟨rfl, rfl⟩ := Piece.hit.inj same
          exact ⟨before, c :: cs, n + 1, found, rfl⟩
        · exact ih later
      · rcases List.mem_cons.1 h with same | later
        · cases same
        · exact ih later

/-- Whether the place after `n` characters lies inside a hit. -/
def Covered (ps : List (Piece α)) (n : Nat) : Prop :=
  ∃ qs a lexeme rs, ps = qs ++ .hit a lexeme :: rs ∧ (qs.flatMap Piece.source).length < n ∧
    n < (qs.flatMap Piece.source).length + lexeme.length

theorem Covered.cons {ps : List (Piece α)} {n : Nat} (h : Covered ps n) (p : Piece α) :
    Covered (p :: ps) (p.source.length + n) := by
  obtain ⟨qs, a, lexeme, rs, rfl, starts, stops⟩ := h
  refine ⟨p :: qs, a, lexeme, rs, rfl, ?_, ?_⟩ <;>
    simp only [List.flatMap_cons, List.length_append] <;> omega

/-- What is recognised at a place is found, unless the place lies inside an earlier
    hit. -/
theorem mem_scanFrom_or_covered {r : Recogniser α} {front rest : List Char} {a : α} {n : Nat}
    (nonempty : rest ≠ []) {before : Option Char} {skip : Nat} (within : skip ≤ front.length)
    (hit : r (front.getLast?.or before) rest = some (a, n + 1)) :
    (∃ lexeme, .hit a lexeme ∈ scanFrom r before skip (front ++ rest)) ∨
      Covered (scanFrom r before skip (front ++ rest)) (front.length - skip) := by
  induction front generalizing before skip with
  | nil =>
    obtain rfl : skip = 0 := Nat.le_zero.1 within
    obtain ⟨c, cs, rfl⟩ := List.exists_cons_of_ne_nil nonempty
    change r before (c :: cs) = _ at hit
    exact .inl ⟨c :: cs.take n, by simp [scanFrom, hit]⟩
  | cons c front ih =>
    have same : (c :: front).getLast?.or before = front.getLast?.or (some c) := by
      cases front <;> simp [List.getLast?_cons]
    rw [same] at hit
    cases skip with
    | succ skip =>
      have onward := ih (Nat.le_of_succ_le_succ within) hit
      simpa [scanFrom] using onward
    | zero =>
      rw [List.cons_append, scanFrom]
      split
      · next b m found =>
        by_cases short : m ≤ front.length
        · rcases ih short hit with ⟨lexeme, mem⟩ | covered
          · exact .inl ⟨lexeme, List.mem_cons_of_mem _ mem⟩
          · refine .inr ?_
            have length : (Piece.hit b (c :: (front ++ rest).take m)).source.length
                + (front.length - m) = (c :: front).length - 0 := by
              simp only [Piece.source, List.length_cons, List.length_take, List.length_append]
              omega
            exact length ▸ covered.cons _
        · -- the hit reaches beyond the place
          have positive := List.length_pos_of_ne_nil nonempty
          refine .inr ⟨[], b, _, _, rfl, ?_, ?_⟩ <;>
            simp only [List.flatMap_nil, List.length_nil, List.length_cons, List.length_take,
              List.length_append] <;> omega
      · rcases ih (Nat.zero_le _) hit with ⟨lexeme, mem⟩ | covered
        · exact .inl ⟨lexeme, List.mem_cons_of_mem _ mem⟩
        · have length : (Piece.plain (α := α) c).source.length + (front.length - 0)
              = (c :: front).length - 0 := by
            simp only [Piece.source, List.length_cons, List.length_nil]
            omega
          exact .inr (length ▸ covered.cons _)

/-! ### Cutting at a character -/

theorem cutAt_singleton {c : Char} {front : List Char} (h : c ∉ front) (back : List Char) :
    cutAt [c] (front ++ c :: back) = some (front, back) := by
  induction front with
  | nil => simp [cutAt, dropWord]
  | cons d ds ih =>
    obtain ⟨here, later⟩ := not_or.1 (mt List.mem_cons.2 h)
    rw [List.cons_append, cutAt, ih later]
    simp [dropWord, here]

/-! ### Reading in front of a character -/

theorem dropWord_append_cons {word : List Char} {q : Char} (absent : q ∉ word) (s rest : List Char) :
    dropWord word (s ++ q :: rest) = (dropWord word s).map (· ++ q :: rest) := by
  induction word generalizing s with
  | nil => rfl
  | cons w ws ih =>
    obtain ⟨here, later⟩ := not_or.1 (mt List.mem_cons.2 absent)
    cases s with
    | nil => simp [dropWord, Ne.symm here]
    | cons c cs =>
      rw [List.cons_append, dropWord, dropWord, ih later]
      split <;> rfl

theorem trimStart_append_cons {q : Char} (visible : isBlank q = false) (s rest : List Char) :
    trimStart (s ++ q :: rest) = trimStart s ++ q :: rest := by
  induction s with
  | nil => simp [trimStart, visible]
  | cons c cs ih =>
    simp only [trimStart, List.cons_append, List.dropWhile_cons] at ih ⊢
    split
    · exact ih
    · rfl

/-! ### Reading in any case -/

theorem dropWordIgnoringCase_eq_some_iff {word s rest : List Char} :
    dropWordIgnoringCase word s = some rest ↔
      ∃ front, s = front ++ rest ∧ front.map foldAscii = word := by
  induction word generalizing s with
  | nil => simp [dropWordIgnoringCase, eq_comm]
  | cons w ws ih =>
    cases s with
    | nil => simp [dropWordIgnoringCase]
    | cons c cs =>
      rw [dropWordIgnoringCase]
      split
      · next same =>
        rw [ih]
        constructor
        · rintro ⟨front, rfl, rfl⟩
          exact ⟨c :: front, rfl, by rw [List.map_cons, beq_iff_eq.1 same]⟩
        · rintro ⟨front, spelled, folded⟩
          cases front with
          | nil => cases folded
          | cons d ds =>
            obtain ⟨-, rfl⟩ := List.cons.inj spelled
            exact ⟨ds, rfl, (List.cons.inj folded).2⟩
      · next other =>
        constructor
        · intro found
          cases found
        · rintro ⟨front, spelled, folded⟩
          cases front with
          | nil => cases folded
          | cons d ds =>
            obtain ⟨rfl, -⟩ := List.cons.inj spelled
            obtain ⟨rfl, -⟩ := List.cons.inj folded
            exact absurd (beq_self_eq_true _) other

/-! ### Recognisers that do not look back -/

variable {r : Recogniser α}

/-- What stands before a position does not matter. -/
def Recogniser.Blind (r : Recogniser α) : Prop := ∀ b s, r b s = r none s

theorem scanFrom_of_blind (blind : r.Blind) (before : Option Char) (n : Nat) (s : List Char) :
    scanFrom r before n s = scan r (s.drop n) := by
  induction s generalizing before n with
  | nil => cases n <;> rfl
  | cons c cs ih =>
    cases n with
    | zero => simp only [scan, scanFrom, List.drop_zero, blind before]
    | succ n => exact ih (some c) n

theorem scan_miss (blind : r.Blind) {c : Char} {cs : List Char} (miss : r none (c :: cs) = none) :
    scan r (c :: cs) = .plain c :: scan r cs := by
  rw [scan, scanFrom, miss, scanFrom_of_blind blind, List.drop_zero]

theorem scan_hit (blind : r.Blind) {a : α} {lexeme rest : List Char} (nonempty : lexeme ≠ [])
    (hit : r none (lexeme ++ rest) = some (a, lexeme.length)) :
    scan r (lexeme ++ rest) = .hit a lexeme :: scan r rest := by
  obtain ⟨c, cs, rfl⟩ := List.exists_cons_of_ne_nil nonempty
  rw [List.cons_append] at hit ⊢
  rw [scan, scanFrom, hit, List.length_cons]
  dsimp only
  rw [scanFrom_of_blind blind, List.take_left', List.drop_left'] <;> rfl

end PageTree.Text
