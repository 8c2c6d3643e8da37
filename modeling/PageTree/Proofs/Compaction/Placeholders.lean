/-
  PageTree/Proofs/Compaction/Placeholders.lean
  ============================================
  **What counts as a placeholder.**

  Literals are put back wherever decimal digits stand between the two characters
  around a number, whoever wrote them there.

    * `restore_mark`: a literal is put back for its number;
    * `restore_of_unknown`: any other character stays.
-/
import Mathlib
import PageTree.Markup.Compaction
import PageTree.Proofs.Scanning

namespace PageTree.Literal

open Text

variable {ls : List (List Char)} {n : Nat} {w : List Char}

/-- What reads as the placeholder of a number, which may begin with zeros. -/
def Mark (n : Nat) (w : List Char) : Prop :=
  ∃ ds, ds ≠ [] ∧ (∀ d ∈ ds, d.isDigit = true) ∧ numberOf ds = n ∧ w = opening :: (ds ++ [closing])

theorem numberOf_toDigits (n : Nat) : numberOf (Nat.toDigits 10 n) = n := by
  have same := Nat.ofDigitChars_toDigits (b := 10) (n := n) (by decide) (by decide)
  rw [Nat.ofDigitChars] at same
  rw [numberOf]
  simpa only [Nat.mul_comm] using same

theorem mark_placeholder (n : Nat) : Mark n (placeholder n) :=
  ⟨Nat.toDigits 10 n, Nat.toDigits_ne_nil,
    fun _ mem => Nat.isDigit_of_mem_toDigits (by decide) (by decide) mem, numberOf_toDigits n, rfl⟩

/-- A mark begins with the opening character, which does not stand in the rest of
    it. -/
theorem Mark.exists_cons (h : Mark n w) : ∃ v, w = opening :: v ∧ opening ∉ v := by
  obtain ⟨ds, -, digits, -, rfl⟩ := h
  refine ⟨ds ++ [closing], rfl, fun mem => ?_⟩
  rcases List.mem_append.1 mem with digit | last
  · exact absurd (digits opening digit) (by decide)
  · exact absurd (List.mem_singleton.1 last) (by decide)

/-! ### Finding placeholders -/

theorem blind_placeholders : placeholders.Blind := fun _ _ => rfl

theorem placeholders_of_mark (h : Mark n w) (s : List Char) :
    placeholders none (w ++ s) = some (n, w.length) := by
  obtain ⟨ds, nonempty, digits, rfl, rfl⟩ := h
  have read : (ds ++ closing :: s).takeWhile Char.isDigit = ds := by
    have stop : closing.isDigit = false := by decide
    rw [List.takeWhile_append_of_pos digits]
    simp [stop]
  have shape : opening :: (ds ++ [closing]) ++ s = opening :: (ds ++ closing :: s) := by simp
  rw [shape, placeholders]
  simp [read, nonempty]

theorem exists_mark_of_placeholders {s : List Char} {k : Nat}
    (h : placeholders none s = some (n, k)) : ∃ w, Mark n w ∧ w.length = k ∧ w <+: s := by
  cases s with
  | nil => cases h
  | cons c cs =>
    let ds := cs.takeWhile Char.isDigit
    rw [placeholders] at h
    split at h
    · next found =>
      obtain ⟨rfl, rfl⟩ := Prod.mk.inj (Option.some.inj h)
      simp only [Bool.and_eq_true, beq_iff_eq, Bool.not_eq_true', List.isEmpty_eq_false_iff]
        at found
      obtain ⟨⟨rfl, nonempty⟩, closed⟩ := found
      obtain ⟨rest, after⟩ : ∃ rest, cs.drop ds.length = closing :: rest := by
        cases dropped : cs.drop ds.length with
        | nil => simp [ds, dropped] at closed
        | cons d rest =>
          obtain rfl : d = closing := by simpa [ds, dropped] using closed
          exact ⟨rest, rfl⟩
      have split : ds ++ closing :: rest = cs := by
        rw [← after]
        exact List.prefix_iff_eq_append.1 (List.takeWhile_prefix _)
      refine ⟨opening :: (ds ++ [closing]),
        ⟨ds, nonempty, fun d mem => List.mem_takeWhile_imp mem, rfl, rfl⟩, by simp [ds],
        rest, ?_⟩
      simp [split]
    · cases h

/-- A text begins with at most one mark. -/
theorem Mark.unique {n' : Nat} {w' s s' : List Char} (h : Mark n w) (h' : Mark n' w')
    (same : w ++ s = w' ++ s') : n = n' ∧ w = w' := by
  have read := placeholders_of_mark h s
  rw [same, placeholders_of_mark h' s'] at read
  obtain ⟨rfl, length⟩ := Prod.mk.inj (Option.some.inj read)
  exact ⟨rfl, (List.append_inj same length.symm).1⟩

theorem placeholders_of_ne {c : Char} (h : c ≠ opening) (cs : List Char) :
    placeholders none (c :: cs) = none := by
  simp [placeholders, h]

/-! ### Putting literals back -/

theorem restore_of_miss {c : Char} {cs : List Char} (miss : placeholders none (c :: cs) = none) :
    restore ls (c :: cs) = c :: restore ls cs := by
  rw [restore, scan_miss blind_placeholders miss]
  rfl

/-- Text without opening characters stays. -/
theorem restore_append (h : opening ∉ w) (ls : List (List Char)) (s : List Char) :
    restore ls (w ++ s) = w ++ restore ls s := by
  induction w with
  | nil => rfl
  | cons c cs ih =>
    obtain ⟨plain, rest⟩ := not_or.1 (mt List.mem_cons.2 h)
    rw [List.cons_append, restore_of_miss (placeholders_of_ne (Ne.symm plain) _), ih rest]
    rfl

theorem restore_mark_append (h : Mark n w) (ls : List (List Char)) (s : List Char) :
    restore ls (w ++ s) = ls.getD n w ++ restore ls s := by
  have nonempty : w ≠ [] := by
    obtain ⟨v, rfl, -⟩ := h.exists_cons
    exact List.cons_ne_nil _ _
  rw [restore, scan_hit blind_placeholders nonempty (placeholders_of_mark h s)]
  rfl

/-- A literal is put back for its number. -/
theorem restore_mark (h : Mark n w) {l : List Char} (known : ls[n]? = some l) (s : List Char) :
    restore ls (w ++ s) = l ++ restore ls s := by
  simp [restore_mark_append h, known]

theorem restore_placeholder {l : List Char} (known : ls[n]? = some l) (s : List Char) :
    restore ls (placeholder n ++ s) = l ++ restore ls s :=
  restore_mark (mark_placeholder n) known s

/-- A character stays if no mark with the number of a literal begins there. -/
theorem restore_of_unknown {c : Char} {cs : List Char}
    (h : ∀ n w, Mark n w → w <+: c :: cs → ls.length ≤ n) :
    restore ls (c :: cs) = c :: restore ls cs := by
  cases found : placeholders none (c :: cs) with
  | none => exact restore_of_miss found
  | some hit =>
    obtain ⟨w, mark, -, s, front⟩ := exists_mark_of_placeholders (n := hit.1) (k := hit.2) found
    have missing : ls[hit.1]? = none := List.getElem?_eq_none (h _ _ mark ⟨s, front⟩)
    -- the rest of what reads as a placeholder is scanned without a hit, too
    obtain ⟨v, rfl, plain⟩ := mark.exists_cons
    obtain ⟨rfl, rfl⟩ := List.cons.inj front
    change restore ls (opening :: v ++ s) = opening :: restore ls (v ++ s)
    rw [restore_mark_append mark, restore_append plain]
    simp [missing]

end PageTree.Literal
